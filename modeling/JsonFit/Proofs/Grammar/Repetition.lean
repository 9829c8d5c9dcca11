import JsonFit.Proofs.Grammar.Progress
import JsonFit.Proofs.Parser.Repetition

/-!
# Repetitions of grammars

Which runs of its part make up a run of a repetition: a chain of rounds, each of which
moves, up to a cursor at which the part is read no further or fails for good.  The runs
of the part may need different budgets; the chain is finite, and so the largest of them
is enough for all.
-/

namespace JsonFit

namespace Parser

variable {α : Type} {round round' : Cursor → α → Cursor → Prop}
variable {c last : Cursor} {values : List α}

theorem Rounds.imp (rounds : Rounds round c values last)
    (sub : ∀ ⦃c value next⦄, round c value next → round' c value next) :
    Rounds round' c values last := by
  induction rounds with
  | nil c => exact .nil c
  | cons here others ih => exact .cons (sub here) ih

end Parser

namespace Grammar

open JsonFit.Parser (Rounds)

variable {Rule : Type} {Result : Rule → Type} {α : Type}
variable {rules : (r : Rule) → Grammar Result (Result r)} {p : Grammar Result α}
variable {c next last : Cursor} {values : List α}

theorem EndsIn.reaches {value : α} (ends : EndsIn rules p c (.success value next))
    (inRange : c.InRange) : c.Reaches next := by
  obtain ⟨_, budget, taken⟩ := ends
  exact (run_orderly rules budget p).reaches inRange taken

/-- A round of a repetition that goes on: the part is read, and has moved. -/
def Advances (rules : (r : Rule) → Grammar Result (Result r)) (p : Grammar Result α) (c : Cursor)
    (value : α) (next : Cursor) : Prop :=
  EndsIn rules p c (.success value next) ∧ c.offset < next.offset

/-- The part of a repetition is read no further: it fails retryably, or is read without
moving. -/
def Completes (rules : (r : Rule) → Grammar Result (Result r)) (p : Grammar Result α)
    (c : Cursor) : Prop :=
  (∃ e, EndsIn rules p c (.failure e) ∧ e.retry = true) ∨
    ∃ value, EndsIn rules p c (.success value c)

/-- Rounds with a budget are rounds. -/
theorem rounds_of_run {budget : Nat}
    (rounds : Rounds (Parser.Advances (run rules budget p)) c values last) :
    Rounds (Advances rules p) c values last :=
  rounds.imp fun _ _ _ ⟨taken, moved⟩ => ⟨⟨trivial, budget, taken⟩, moved⟩

/-- One budget is enough for a chain of rounds. -/
theorem exists_rounds_run (inRange : c.InRange) (rounds : Rounds (Advances rules p) c values last) :
    last.InRange ∧ ∃ enough, ∀ budget, enough ≤ budget →
      Rounds (Parser.Advances (run rules budget p)) c values last := by
  induction rounds with
  | nil c => exact ⟨inRange, 0, fun _ _ => .nil c⟩
  | cons here others ih =>
      obtain ⟨ends, moved⟩ := here
      obtain ⟨lastInRange, enough, further⟩ := ih ((ends.reaches inRange).inRange inRange)
      obtain ⟨enough', taken⟩ := ends.exists_enough inRange
      refine ⟨lastInRange, max enough enough', fun budget larger => ?_⟩
      exact .cons ⟨taken budget (Nat.le_trans (Nat.le_max_right ..) larger), moved⟩
        (further budget (Nat.le_trans (Nat.le_max_left ..) larger))

theorem completes_of_run {budget : Nat} (completes : Parser.Completes (run rules budget p) c) :
    Completes rules p c := by
  rcases completes with ⟨e, failed, retry⟩ | ⟨value, taken⟩
  · exact .inl ⟨e, ⟨trivial, budget, failed⟩, retry⟩
  · exact .inr ⟨value, trivial, budget, taken⟩

theorem Completes.exists_enough (completes : Completes rules p c) (inRange : c.InRange) :
    ∃ enough, ∀ budget, enough ≤ budget → Parser.Completes (run rules budget p) c := by
  rcases completes with ⟨e, ends, retry⟩ | ⟨value, ends⟩
  · obtain ⟨enough, failed⟩ := ends.exists_enough inRange
    exact ⟨enough, fun budget larger => .inl ⟨e, failed budget larger, retry⟩⟩
  · obtain ⟨enough, taken⟩ := ends.exists_enough inRange
    exact ⟨enough, fun budget larger => .inr ⟨value, taken budget larger⟩⟩

theorem many_endsIn_success_iff (inRange : c.InRange) :
    EndsIn rules (many p) c (.success values last) ↔
      Rounds (Advances rules p) c values last ∧ Completes rules p last := by
  constructor
  · rintro ⟨_, budget, succeeded⟩
    obtain ⟨rounds, completes⟩ :=
      (Parser.many_eq_success_iff (run_orderly rules budget p) inRange).mp succeeded
    exact ⟨rounds_of_run rounds, completes_of_run completes⟩
  · rintro ⟨rounds, completes⟩
    obtain ⟨lastInRange, enough, further⟩ := exists_rounds_run inRange rounds
    obtain ⟨enough', ended⟩ := completes.exists_enough lastInRange
    refine ⟨trivial, max enough enough', ?_⟩
    exact (Parser.many_eq_success_iff (run_orderly rules _ p) inRange).mpr
      ⟨further _ (Nat.le_max_left ..), ended _ (Nat.le_max_right ..)⟩

theorem many_endsIn_failure_iff {e : Parser.Failure} (inRange : c.InRange) :
    EndsIn rules (many p) c (.failure e) ↔
      ∃ values last, Rounds (Advances rules p) c values last ∧
        EndsIn rules p last (.failure e) ∧ e.retry = false := by
  constructor
  · rintro ⟨_, budget, failed⟩
    obtain ⟨values, last, rounds, broken, committed⟩ :=
      (Parser.many_eq_failure_iff (run_orderly rules budget p) inRange).mp failed
    exact ⟨values, last, rounds_of_run rounds, ⟨trivial, budget, broken⟩, committed⟩
  · rintro ⟨values, last, rounds, broken, committed⟩
    obtain ⟨lastInRange, enough, further⟩ := exists_rounds_run inRange rounds
    obtain ⟨enough', failed⟩ := broken.exists_enough lastInRange
    refine ⟨trivial, max enough enough', ?_⟩
    exact (Parser.many_eq_failure_iff (run_orderly rules _ p) inRange).mpr
      ⟨values, last, further _ (Nat.le_max_left ..), failed _ (Nat.le_max_right ..), committed⟩

/-- A repetition succeeds with the values of a chain of rounds, each of which moves, exactly
if its part is read no further behind the chain: there the part fails retryably, or is
read without moving.  It fails exactly as its part does, for good, behind such a chain.
So where it has ended there is nothing left to repeat. -/
theorem many_endsIn_iff (rules : (r : Rule) → Grammar Result (Result r)) (p : Grammar Result α)
    {c : Cursor} (inRange : c.InRange) :
    (∀ values last, EndsIn rules (many p) c (.success values last) ↔
      Rounds (Advances rules p) c values last ∧ Completes rules p last) ∧
    (∀ e, EndsIn rules (many p) c (.failure e) ↔
      ∃ values last, Rounds (Advances rules p) c values last ∧
        EndsIn rules p last (.failure e) ∧ e.retry = false) ∧
    ∀ values last, EndsIn rules (many p) c (.success values last) →
      EndsIn rules (many p) last (.success [] last) := by
  constructor
  · exact fun values last => many_endsIn_success_iff inRange
  constructor
  · exact fun e => many_endsIn_failure_iff inRange
  · intro values last succeeded
    obtain ⟨_, completes⟩ := (many_endsIn_success_iff inRange).mp succeeded
    exact (many_endsIn_success_iff ((succeeded.reaches inRange).inRange inRange)).mpr
      ⟨.nil last, completes⟩

/-- In `ababac` the third pair breaks off behind its first letter, at offset 5: two rounds
have moved, and the failure is that of the part. -/
theorem many_endsIn_iff_broken :
    (Cursor.ofBytes (Bytes.ofString "ababac")).InRange ∧
    EndsIn (fun _ => Json.Rules.value) (many (both (char 97) (char 98)))
      (Cursor.ofBytes (Bytes.ofString "ababac")) (.failure ⟨.unexpectedChar 98 99, false, 5⟩) := by
  have inRange := Cursor.inRange_ofBytes (Bytes.ofString "ababac")
  refine ⟨inRange, ?_⟩
  rw [(many_endsIn_iff _ _ inRange).2.1]
  let text := (Bytes.ofString "ababac").toArray
  have first : Advances (fun _ => Json.Rules.value) (both (char 97) (char 98)) ⟨text, 0⟩ (97, 98)
      ⟨text, 2⟩ := ⟨⟨trivial, 0, rfl⟩, by decide⟩
  have second : Advances (fun _ => Json.Rules.value) (both (char 97) (char 98)) ⟨text, 2⟩ (97, 98)
      ⟨text, 4⟩ := ⟨⟨trivial, 0, rfl⟩, by decide⟩
  exact ⟨_, ⟨text, 4⟩, .cons first (.cons second (.nil _)), ⟨trivial, 0, rfl⟩, rfl⟩

end Grammar

end JsonFit
