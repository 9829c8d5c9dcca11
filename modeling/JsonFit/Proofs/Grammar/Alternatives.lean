import JsonFit.Proofs.Grammar.Laws
import JsonFit.Proofs.Grammar.Progress
import JsonFit.Proofs.Parser.Failing

/-!
# Choices between alternatives

A choice between any number of alternatives is put together from choices between two, each
alternative as an attempt.  It comes out as its first alternative unless that fails, and
then as the others do.  So it succeeds with the first alternative that succeeds, as long as
all before it fail, in whatever way; and if all fail, it fails at the start, retryably, with
the cause that the last one has.

An alternative whose run breaks a precondition, or does not end, is not passed over: no
choice recovers from that, and the alternatives behind it are never tried.
-/

namespace JsonFit

namespace Parser

variable {α : Type} {p q : Parser α} {c : Cursor}

instance : Std.Associative (orElse : Parser α → Parser α → Parser α) :=
  ⟨orElse_assoc⟩

/-- Every failure of an attempt leads to the other alternative. -/
theorem orElse_attempt (p q : Parser α) (c : Cursor) :
    orElse (attempt p) q c = (p c).recover fun _ => q c := by
  rw [orElse, attempt]
  cases p c <;> rfl

theorem attempt_of_failure {e : Failure} (failed : p c = .failure e) :
    attempt p c = .failure (e.restart c.offset) := by
  rw [attempt, failed]
  rfl

/-- Transforming failures changes nothing else. -/
theorem Outcome.mapFailure_eq_iff {own outcome : Outcome α} {f : Failure → Failure}
    (notFailure : ∀ e, outcome ≠ .failure e) : own.mapFailure f = outcome ↔ own = outcome := by
  cases own with
  | failure e =>
      constructor
      · exact fun same => absurd same.symm (notFailure (f e))
      · exact fun same => absurd same.symm (notFailure e)
  | success value next => rfl
  | fault g => rfl
  | exhausted => rfl

end Parser

namespace Grammar

variable {Rule : Type} {Result : Rule → Type} {α : Type}
variable {rules : (r : Rule) → Grammar Result (Result r)} {budget : Nat}
variable {p : Grammar Result α} {ps : List (Grammar Result α)} {c : Cursor}
variable {outcome : Parser.Outcome α}

theorem firstOf_singleton (p : Grammar Result α) : firstOf [p] = attempt p :=
  rfl

theorem run_foldl_orElse (choice : Grammar Result α) (ps : List (Grammar Result α)) :
    run rules budget (ps.foldl (fun choice q => orElse choice (attempt q)) choice) =
      (ps.map fun q => Parser.attempt (run rules budget q)).foldl Parser.orElse
        (run rules budget choice) := by
  induction ps generalizing choice with
  | nil => rfl
  | cons p ps ih =>
      rw [List.foldl_cons, ih]
      rfl

/-- The first alternative decides, unless it fails. -/
theorem run_firstOf_cons (p : Grammar Result α) (others : ps ≠ []) (c : Cursor) :
    run rules budget (firstOf (p :: ps)) c =
      (run rules budget p c).recover fun _ => run rules budget (firstOf ps) c := by
  cases ps with
  | nil => contradiction
  | cons q ps =>
      have nested : run rules budget (firstOf (p :: q :: ps)) =
          Parser.orElse (Parser.attempt (run rules budget p))
            (run rules budget (firstOf (q :: ps))) := by
        rw [firstOf, firstOf, run_foldl_orElse, run_foldl_orElse, List.map_cons, List.foldl_cons]
        exact List.foldl_assoc
      rw [nested, Parser.orElse_attempt]

/-- The run ends in a failure. -/
def Fails (rules : (r : Rule) → Grammar Result (Result r)) (p : Grammar Result α) (c : Cursor) :
    Prop :=
  ∃ e, EndsIn rules p c (.failure e)

theorem attempt_endsIn_iff (notFailure : ∀ e, outcome ≠ .failure e) :
    EndsIn rules (attempt p) c outcome ↔ EndsIn rules p c outcome := by
  apply and_congr_right
  intro _
  apply exists_congr
  intro budget
  exact Parser.Outcome.mapFailure_eq_iff notFailure

theorem attempt_endsIn_failure_iff {e : Parser.Failure} :
    EndsIn rules (attempt p) c (.failure e) ↔
      ∃ own, EndsIn rules p c (.failure own) ∧ e = own.restart c.offset := by
  constructor
  · rintro ⟨_, budget, failed⟩
    obtain ⟨own, ran, rfl⟩ := Parser.attempt_failure_cases failed
    exact ⟨own, ⟨trivial, budget, ran⟩, rfl⟩
  · rintro ⟨own, ⟨_, budget, failed⟩, rfl⟩
    exact ⟨trivial, budget, Parser.attempt_of_failure failed⟩

theorem firstOf_cons_endsIn_iff (others : ps ≠ []) (inRange : c.InRange) :
    EndsIn rules (firstOf (p :: ps)) c outcome ↔
      (EndsIn rules p c outcome ∧ ∀ e, outcome ≠ .failure e) ∨
        (Fails rules p c ∧ EndsIn rules (firstOf ps) c outcome) := by
  constructor
  · rintro ⟨ended, budget, ran⟩
    rw [run_firstOf_cons p others] at ran
    cases first : run rules budget p c with
    | failure e =>
        rw [first] at ran
        exact .inr ⟨⟨e, trivial, budget, first⟩, ended, budget, ran⟩
    | success value next =>
        rw [first] at ran
        subst ran
        exact .inl ⟨⟨trivial, budget, first⟩, by simp [Parser.Outcome.recover]⟩
    | fault f =>
        rw [first] at ran
        subst ran
        exact .inl ⟨⟨trivial, budget, first⟩, by simp [Parser.Outcome.recover]⟩
    | exhausted =>
        rw [first] at ran
        subst ran
        exact ended.elim
  · rintro (⟨⟨ended, budget, ran⟩, notFailure⟩ | ⟨⟨e, failed⟩, ends⟩)
    · refine ⟨ended, budget, ?_⟩
      rw [run_firstOf_cons p others, ran]
      cases outcome with
      | failure e => exact absurd rfl (notFailure e)
      | success value next => rfl
      | fault f => rfl
      | exhausted => rfl
    · obtain ⟨enough, failed⟩ := failed.exists_enough inRange
      obtain ⟨enough', ran⟩ := ends.exists_enough inRange
      refine ⟨ends.1, max enough enough', ?_⟩
      rw [run_firstOf_cons p others, failed _ (Nat.le_max_left ..), ← ran _ (Nat.le_max_right ..)]
      rfl

/-- A list is cut at its first element, or behind it. -/
theorem exists_cut_cons_iff.{u} {γ : Type u} {passed taken : γ → Prop} {x : γ} {xs : List γ} :
    (∃ earlier y later, x :: xs = earlier ++ y :: later ∧ (∀ z ∈ earlier, passed z) ∧ taken y) ↔
      taken x ∨ (passed x ∧
        ∃ earlier y later, xs = earlier ++ y :: later ∧ (∀ z ∈ earlier, passed z) ∧ taken y) := by
  constructor
  · rintro ⟨earlier, y, later, split, all, here⟩
    cases earlier with
    | nil =>
        cases split
        exact .inl here
    | cons z earlier =>
        cases split
        obtain ⟨first, others⟩ := List.forall_mem_cons.mp all
        exact .inr ⟨first, earlier, y, later, rfl, others, here⟩
  · rintro (here | ⟨first, earlier, y, later, rfl, others, here⟩)
    · exact ⟨[], x, xs, rfl, by simp, here⟩
    · exact ⟨x :: earlier, y, later, rfl, List.forall_mem_cons.mpr ⟨first, others⟩, here⟩

/-- A choice ends other than in a failure exactly if one of its alternatives does, with all
before it failing. -/
theorem firstOf_endsIn_iff_exists (some : ps ≠ []) (inRange : c.InRange)
    (notFailure : ∀ e, outcome ≠ .failure e) :
    EndsIn rules (firstOf ps) c outcome ↔
      ∃ earlier p later, ps = earlier ++ p :: later ∧ (∀ q ∈ earlier, Fails rules q c) ∧
        EndsIn rules p c outcome := by
  induction ps with
  | nil => contradiction
  | cons p ps ih =>
      rw [exists_cut_cons_iff]
      by_cases others : ps = []
      · subst others
        rw [firstOf_singleton, attempt_endsIn_iff notFailure]
        simp
      · rw [firstOf_cons_endsIn_iff others inRange, ih others]
        simp [notFailure]

/-- A choice fails exactly if all of its alternatives do, and then with the cause of the
last one. -/
theorem firstOf_endsIn_failure_iff (some : ps ≠ []) (inRange : c.InRange) {e : Parser.Failure} :
    EndsIn rules (firstOf ps) c (.failure e) ↔
      (∀ q ∈ ps, Fails rules q c) ∧
        ∃ own, EndsIn rules (ps.getLast some) c (.failure own) ∧ e = own.restart c.offset := by
  induction ps with
  | nil => contradiction
  | cons p ps ih =>
      rw [List.forall_mem_cons]
      by_cases others : ps = []
      · subst others
        simp only [List.getLast_singleton]
        rw [firstOf_singleton, attempt_endsIn_failure_iff]
        constructor
        · rintro ⟨own, ends, same⟩
          exact ⟨⟨⟨own, ends⟩, by simp⟩, own, ends, same⟩
        · rintro ⟨_, own, ends, same⟩
          exact ⟨own, ends, same⟩
      · rw [firstOf_cons_endsIn_iff others inRange, ih others]
        simp [List.getLast_cons others, and_assoc]

/-- A choice succeeds exactly if one of its alternatives does and all before it fail, and
then with the value and the cursor of this one.  It fails exactly if all alternatives fail:
retryably, where it began, and with the cause of the last one.  And it breaks a precondition
exactly if one of its alternatives does and all before it fail. -/
theorem firstOf_endsIn_iff (rules : (r : Rule) → Grammar Result (Result r))
    {ps : List (Grammar Result α)} (some : ps ≠ []) {c : Cursor} (inRange : c.InRange) :
    (∀ value next, EndsIn rules (firstOf ps) c (.success value next) ↔
      ∃ earlier p later, ps = earlier ++ p :: later ∧ (∀ q ∈ earlier, Fails rules q c) ∧
        EndsIn rules p c (.success value next)) ∧
    (∀ e, EndsIn rules (firstOf ps) c (.failure e) ↔
      (∀ q ∈ ps, Fails rules q c) ∧
        ∃ own, EndsIn rules (ps.getLast some) c (.failure own) ∧
          e = ⟨own.cause, true, c.offset⟩) ∧
    ∀ f, EndsIn rules (firstOf ps) c (.fault f) ↔
      ∃ earlier p later, ps = earlier ++ p :: later ∧ (∀ q ∈ earlier, Fails rules q c) ∧
        EndsIn rules p c (.fault f) := by
  constructor
  · exact fun value next => firstOf_endsIn_iff_exists some inRange fun _ => nofun
  constructor
  · exact fun e => firstOf_endsIn_failure_iff some inRange
  · exact fun f => firstOf_endsIn_iff_exists some inRange fun _ => nofun

/-- The alternatives `ab` and `ac`.  In front of `ac` the first fails for good behind its
first letter, and the second decides.  In front of `ad` both fail so; the failure is that of
the second, but at the start and with the choice left open. -/
theorem firstOf_endsIn_iff_letters :
    let ps : List (Json.Rules Int) := [skip (char 97) (char 98), skip (char 97) (char 99)]
    let c : Cursor := ⟨(Bytes.ofString ".ac").toArray, 1⟩
    let d : Cursor := ⟨(Bytes.ofString ".ad").toArray, 1⟩
    ps ≠ [] ∧ c.InRange ∧ d.InRange ∧
      EndsIn (fun _ => Json.Rules.value) (firstOf ps) c (.success 97 ⟨c.input, 3⟩) ∧
      EndsIn (fun _ => Json.Rules.value) (firstOf ps) d
        (.failure ⟨.unexpectedChar 99 100, true, 1⟩) := by
  intro ps c d
  have some : ps ≠ [] := by simp [ps]
  have inRange : c.InRange := by decide
  have inRange' : d.InRange := by decide
  obtain ⟨succeeds, _, _⟩ := firstOf_endsIn_iff (fun _ => Json.Rules.value) some inRange
  obtain ⟨_, fails, _⟩ := firstOf_endsIn_iff (fun _ => Json.Rules.value) some inRange'
  refine ⟨some, inRange, inRange', (succeeds _ _).mpr ?_, (fails _).mpr ?_⟩
  · refine ⟨[skip (char 97) (char 98)], skip (char 97) (char 99), [], rfl, ?_, trivial, 0, rfl⟩
    intro q member
    obtain rfl := List.mem_singleton.mp member
    exact ⟨_, trivial, 0, rfl⟩
  · refine ⟨?_, _, ⟨trivial, 0, rfl⟩, rfl⟩
    intro q member
    rcases List.mem_cons.mp member with rfl | member
    · exact ⟨_, trivial, 0, rfl⟩
    · obtain rfl := List.mem_singleton.mp member
      exact ⟨_, trivial, 0, rfl⟩

/-- That an alternative succeeds is not enough.  The first alternative here is a choice from
nothing, put off until it is run: it breaks a precondition, and so the second one, which
would succeed, is not reached. -/
theorem not_firstOf_success_iff_exists :
    let ps : List (Json.Rules Bytes) := [firstOf [], succeed (Bytes.ofString "a")]
    let c := Cursor.ofBytes []
    ps ≠ [] ∧ c.InRange ∧
      ¬ ((∃ value next,
          EndsIn (fun _ => Json.Rules.value) (firstOf ps) c (.success value next)) ↔
        ∃ p ∈ ps, ∃ value next, EndsIn (fun _ => Json.Rules.value) p c (.success value next)) := by
  intro ps c
  refine ⟨by simp [ps], Cursor.inRange_ofBytes [], fun equivalent => ?_⟩
  have second : succeed (Bytes.ofString "a") ∈ ps := by simp [ps]
  obtain ⟨value, next, _, budget, ran⟩ := equivalent.mpr ⟨_, second, _, c, trivial, 0, rfl⟩
  have broken : run (fun _ => Json.Rules.value) budget (firstOf ps) c = .fault .noAlternatives :=
    rfl
  rw [broken] at ran
  contradiction

end Grammar

end JsonFit
