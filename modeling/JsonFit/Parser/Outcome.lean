import JsonFit.Cursor
import JsonFit.Parser.Failure

/-!
# Outcomes of a parser

A run of a parser succeeds with a value and the cursor behind what it consumed,
fails, breaks a precondition, or gives up because its budget of rule calls or
repetitions is spent.  The last two are kept apart from failures: no combinator
recovers from them.
-/

namespace JsonFit.Parser

/-- The result of running a parser on a cursor. -/
inductive Outcome (α : Type) where
  /-- A value and the cursor behind the consumed input. -/
  | success (value : α) (next : Cursor)
  /-- The input does not match. -/
  | failure (e : Failure)
  /-- A precondition was broken. -/
  | fault (f : Fault)
  /-- The budget ran out before the run ended. -/
  | exhausted
  deriving DecidableEq, Repr

namespace Outcome

variable {α β : Type}

/-- Transforms the value of a success. -/
def map (f : α → β) : Outcome α → Outcome β
  | success value next => success (f value) next
  | failure e => failure e
  | fault f => fault f
  | exhausted => exhausted

/-- Goes on from a success. -/
def andThen (outcome : Outcome α) (k : α → Cursor → Outcome β) : Outcome β :=
  match outcome with
  | success value next => k value next
  | failure e => failure e
  | fault f => fault f
  | exhausted => exhausted

/-- Goes on from a failure. -/
def recover (outcome : Outcome α) (k : Failure → Outcome α) : Outcome α :=
  match outcome with
  | failure e => k e
  | other => other

/-- Transforms a failure. -/
def mapFailure (f : Failure → Failure) (outcome : Outcome α) : Outcome α :=
  outcome.recover fun e => failure (f e)

/-- Goes on with the result of a checked operation. -/
def checking (result : Except Fault α) (k : α → Outcome β) : Outcome β :=
  match result with
  | .ok value => k value
  | .error f => fault f

/-- Has the run ended, in whatever way? -/
def Ended : Outcome α → Prop
  | exhausted => False
  | _ => True

@[simp]
theorem map_id (outcome : Outcome α) : outcome.map id = outcome := by
  cases outcome <;> rfl

end Outcome

end JsonFit.Parser
