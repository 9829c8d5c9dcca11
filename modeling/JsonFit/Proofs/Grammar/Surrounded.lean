import JsonFit.Proofs.Grammar.Laws
import JsonFit.Proofs.Parser.Failing
import JsonFit.Proofs.Parser.Repetition

/-!
# Surrounded parts

A part with space on both sides is an attempt: whatever fails in it, the leading space,
the part or the trailing space, the failure is reported where the whole began, and leaves
the choice open.  So nothing is left of what the sequences inside commit, and the failures
of the three may as well be passed on as they are; this is `enclosed`.

To surround a part twice with the same space is to surround it once.  The inner
repetitions of the space begin where the outer one has ended, or end where the outer one
begins, and a repetition that has ended reads nothing more.
-/

namespace JsonFit

namespace Parser

variable {α β : Type} {allowed : Fault → Prop}
variable {p : Parser α} {space : Parser β} {start middle c : Cursor}

/-- An attempt undoes what a sequence commits. -/
theorem mapFailure_restart_committing (offset : Int) (outcome : Outcome α) :
    (committing start middle outcome).mapFailure (Failure.restart offset) =
      outcome.mapFailure (Failure.restart offset) := by
  cases outcome with
  | failure e =>
      by_cases unmoved : middle.offset = start.offset <;>
        simp [committing, Outcome.mapFailure, Outcome.recover, Failure.commitIf, Failure.commit,
          Failure.restart, unmoved]
  | success value next => rfl
  | fault f => rfl
  | exhausted => rfl

/-- A part between two repetitions, with the failures of all three as they are. -/
def enclosed (p : Parser α) (space : Parser β) : Parser α := fun c =>
  (many space c).andThen fun _ middle =>
    (p middle).andThen fun value last => (many space last).map fun _ => value

theorem attempt_map_both (p : Parser α) (space : Parser β) :
    attempt (map Prod.fst (both (map Prod.snd (both (many space) p)) (many space))) =
      attempt (enclosed p space) := by
  funext c
  simp only [attempt, enclosed, map_both, Outcome.andThen_assoc]
  cases many space c with
  | success spaces middle =>
      dsimp only [Outcome.andThen]
      cases p middle with
      | success value last => exact mapFailure_restart_committing c.offset _
      | failure e => exact mapFailure_restart_committing (α := α) c.offset (.failure e)
      | fault f => rfl
      | exhausted => rfl
  | failure e => rfl
  | fault f => rfl
  | exhausted => rfl

/-- An attempt does not see attempts inside of it. -/
theorem attempt_enclosed_attempt (p : Parser α) (space : Parser β) :
    attempt (enclosed (attempt p) space) = attempt (enclosed p space) := by
  funext c
  simp only [attempt, enclosed]
  cases many space c with
  | success spaces middle =>
      dsimp only [Outcome.andThen]
      cases p middle with
      | success value last => rfl
      | failure e => rfl
      | fault f => rfl
      | exhausted => rfl
  | failure e => rfl
  | fault f => rfl
  | exhausted => rfl

/-- Space behind space: the second repetition reads nothing. -/
theorem many_map_andThen_many (between : space.Orderly allowed) (inRange : c.InRange) (value : α) :
    ((many space c).map fun _ => value).andThen
        (fun value next => (many space next).map fun _ => value) =
      (many space c).map fun _ => value := by
  cases trailing : many space c with
  | success spaces next =>
      have ended := many_again between inRange trailing
      simp only [Outcome.map, Outcome.andThen, ended]
  | failure e => rfl
  | fault f => rfl
  | exhausted => rfl

/-- To enclose a part twice is to enclose it once. -/
theorem enclosed_enclosed (part : p.Orderly allowed) (between : space.Orderly allowed)
    (inRange : c.InRange) :
    enclosed (enclosed p space) space c = enclosed p space c := by
  rw [enclosed, enclosed]
  cases leading : many space c with
  | success spaces middle =>
      have middleInRange := (between.many.reaches inRange leading).inRange inRange
      have ended := many_again between inRange leading
      simp only [enclosed, ended, Outcome.success_andThen, Outcome.andThen_assoc]
      apply (part middleInRange).andThen_congr
      intro value last reaches
      exact many_map_andThen_many between (reaches.inRange middleInRange) value
  | failure e => rfl
  | fault f => rfl
  | exhausted => rfl

end Parser

namespace Grammar

variable {Rule : Type} {Result : Rule → Type} {α β : Type}
variable (rules : (r : Rule) → Grammar Result (Result r)) (budget : Nat)

theorem run_surroundedBy (p : Grammar Result α) (space : Grammar Result β) :
    run rules budget (surroundedBy p space) =
      Parser.attempt (Parser.enclosed (run rules budget p) (run rules budget space)) :=
  Parser.attempt_map_both _ _

/-- A part that is surrounded twice by the same space runs as one that is surrounded once:
with the same value and the same cursor, or with the same cause, standing and place of its
failure.  Nothing is asked of the space: it may be read without moving, or fail for good.
Each failure of a surrounded part is retryable, and reported where the run began. -/
theorem run_surroundedBy_twice (p : Grammar Result α) (space : Grammar Result β) {c : Cursor}
    (inRange : c.InRange) :
    run rules budget (surroundedBy (surroundedBy p space) space) c =
      run rules budget (surroundedBy p space) c ∧
    ∀ e, run rules budget (surroundedBy p space) c = .failure e →
      e.retry = true ∧ e.offset = c.offset := by
  constructor
  · simp only [run_surroundedBy]
    rw [Parser.attempt_enclosed_attempt, Parser.attempt, Parser.attempt,
      Parser.enclosed_enclosed (run_orderly_any rules budget p) (run_orderly_any rules budget space)
        inRange]
  · intro e failed
    rw [run_surroundedBy] at failed
    obtain ⟨e', _, rfl⟩ := Parser.attempt_failure_cases failed
    exact ⟨rfl, rfl⟩

/-- Pairs of hyphens as space: in `.--x-a` from offset 1 the trailing space fails for good at
offset 5.  Surrounded twice, the letter fails as surrounded once, at the start and with the
choice left open. -/
theorem run_surroundedBy_twice_hyphens :
    (⟨(Bytes.ofString ".--x-a").toArray, 1⟩ : Cursor).InRange ∧
    run (fun _ => Json.Rules.value) 3
        (surroundedBy (surroundedBy (char 120) (both (char 45) (char 45)))
          (both (char 45) (char 45)))
        ⟨(Bytes.ofString ".--x-a").toArray, 1⟩ =
      .failure ⟨.unexpectedChar 45 97, true, 1⟩ := by
  have inRange : (⟨(Bytes.ofString ".--x-a").toArray, 1⟩ : Cursor).InRange := by decide
  refine ⟨inRange, ?_⟩
  rw [(run_surroundedBy_twice _ 3 _ _ inRange).1]
  rfl

end Grammar

end JsonFit
