import JsonFit.Proofs.Cursor.Split
import JsonFit.Proofs.Parser.Success

/-!
# When parsers fail

For every combinator, the run of a part that its failure comes from.  Sequences
may change the standing of a failure, and attempts its offset as well; the cause
is always that of the part.  A list that fails behind its first element is
described by `BrokenItems`: the chain of delimiters and elements up to the
failure.
-/

namespace JsonFit.Parser

open Cursor (between)

variable {α β γ : Type} {p q : Parser α} {delimiter : Parser β} {c : Cursor} {e : Failure}

/-- Is the cause worded by a grammar? -/
def Cause.isWorded : Cause → Bool
  | worded _ => true
  | _ => false

/-- The parser fails only where it stands, not in words of a grammar, and leaves
the choice open. -/
def FailsHere (p : Parser α) : Prop :=
  ∀ ⦃before ahead e⦄, p (between before ahead) = .failure e →
    ∃ cause, e = ⟨cause, true, before.length⟩ ∧ cause.isWorded = false

/-- The operation that is checked does not fail itself. -/
theorem Outcome.checking_eq_failure_iff {result : Except Fault α} {k : α → Outcome β} :
    checking result k = .failure e ↔ ∃ value, result = .ok value ∧ k value = .failure e := by
  cases result <;> simp [checking]

/-- What texts and characters have in common: they compare what is ahead with
what is wanted. -/
private theorem comparison_failsHere (want : Bytes) (value : α) {cause : Bytes → Cause}
    (own : ∀ got, (cause got).isWorded = false) :
    FailsHere fun c =>
      if c.atEnd then failAt c .endOfInput
      else
        .checking (c.peek want.length) fun got =>
          if got = want then .checking (c.forward want.length) fun next => .success value next
          else failAt c (cause got) := by
  intro before ahead e failed
  dsimp only at failed
  split at failed
  · cases failed
    exact ⟨.endOfInput, rfl, rfl⟩
  · obtain ⟨got, _, failed⟩ := Outcome.checking_eq_failure_iff.mp failed
    split at failed
    · obtain ⟨_, _, failed⟩ := Outcome.checking_eq_failure_iff.mp failed
      contradiction
    · cases failed
      exact ⟨cause got, rfl, own got⟩

theorem literal_failsHere (text : Bytes) : FailsHere (literal text) :=
  comparison_failsHere text text fun _ => rfl

theorem char_failsHere (point : Int) : FailsHere (char point) :=
  comparison_failsHere (Utf8.encodeInt point) point fun _ => rfl

theorem upTo_failsHere (delimiter : Bytes) : FailsHere (upTo delimiter) := by
  intro before ahead e failed
  obtain ⟨rest, _, failed⟩ := Outcome.checking_eq_failure_iff.mp failed
  split at failed
  · cases failed
    exact ⟨_, rfl, rfl⟩
  · split at failed
    · cases failed
      exact ⟨_, rfl, rfl⟩
    · obtain ⟨next, _, failed⟩ := Outcome.checking_eq_failure_iff.mp failed
      obtain ⟨_, _, failed⟩ := Outcome.checking_eq_failure_iff.mp failed
      contradiction

theorem finish_failsHere : FailsHere finish := by
  intro before ahead e failed
  rw [finish] at failed
  split at failed
  · contradiction
  · obtain ⟨got, _, failed⟩ := Outcome.checking_eq_failure_iff.mp failed
    cases failed
    exact ⟨_, rfl, rfl⟩

/-- The same failure but for its standing. -/
structure Failure.Agrees (e e' : Failure) : Prop where
  cause : e'.cause = e.cause
  offset : e'.offset = e.offset

theorem Failure.agrees_commit (e : Failure) : e.Agrees e.commit :=
  ⟨rfl, rfl⟩

theorem Failure.agrees_commitIf (moved : Bool) (e : Failure) : e.Agrees (e.commitIf moved) := by
  cases moved <;> exact ⟨rfl, rfl⟩

theorem Outcome.map_eq_failure_iff {outcome : Outcome α} {f : α → γ} :
    outcome.map f = .failure e ↔ outcome = .failure e := by
  cases outcome <;> simp [Outcome.map]

theorem map_eq_failure_iff {f : α → γ} : map f p c = .failure e ↔ p c = .failure e :=
  Outcome.map_eq_failure_iff

theorem committing_failure_cases {start middle : Cursor} {outcome : Outcome α}
    (failed : committing start middle outcome = .failure e) :
    ∃ e', outcome = .failure e' ∧ e'.Agrees e := by
  cases outcome with
  | failure e' =>
      cases failed
      exact ⟨e', rfl, Failure.agrees_commitIf _ e'⟩
  | success value next => contradiction
  | fault f => contradiction
  | exhausted => contradiction

theorem Outcome.andThen_failure_cases {outcome : Outcome α} {k : α → Cursor → Outcome γ}
    (failed : outcome.andThen k = .failure e) :
    outcome = .failure e ∨
      ∃ first middle, outcome = .success first middle ∧ k first middle = .failure e := by
  cases outcome with
  | success first middle => exact .inr ⟨first, middle, rfl, failed⟩
  | failure e' =>
      cases failed
      exact .inl rfl
  | fault f => contradiction
  | exhausted => contradiction

theorem bind_failure_cases {f : α → Parser γ} (failed : bind p f c = .failure e) :
    p c = .failure e ∨
      ∃ first middle e', p c = .success first middle ∧ f first middle = .failure e' ∧
        e'.Agrees e := by
  rcases Outcome.andThen_failure_cases failed with failed | ⟨first, middle, taken, failed⟩
  · exact .inl failed
  · obtain ⟨e', failed, agrees⟩ := committing_failure_cases failed
    exact .inr ⟨first, middle, e', taken, failed, agrees⟩

theorem both_failure_cases (failed : both p delimiter c = .failure e) :
    p c = .failure e ∨
      ∃ first middle e', p c = .success first middle ∧ delimiter middle = .failure e' ∧
        e'.Agrees e := by
  rcases Outcome.andThen_failure_cases failed with failed | ⟨first, middle, taken, failed⟩
  · exact .inl failed
  · obtain ⟨e', failed, agrees⟩ := committing_failure_cases failed
    exact .inr ⟨first, middle, e', taken, Outcome.map_eq_failure_iff.mp failed, agrees⟩

/-- A choice fails as one of its alternatives does. -/
theorem orElse_failure_cases (failed : orElse p q c = .failure e) :
    p c = .failure e ∨ q c = .failure e := by
  rw [orElse] at failed
  cases first : p c with
  | failure e' =>
      rw [first, Outcome.recover] at failed
      split at failed
      · exact .inr failed
      · exact .inl failed
  | success value next => simp [first, Outcome.recover] at failed
  | fault f => simp [first, Outcome.recover] at failed
  | exhausted => simp [first, Outcome.recover] at failed

theorem attempt_failure_cases (failed : attempt p c = .failure e) :
    ∃ e', p c = .failure e' ∧ e = e'.restart c.offset := by
  rw [attempt] at failed
  cases inner : p c with
  | failure e' =>
      rw [inner] at failed
      cases failed
      exact ⟨e', rfl, rfl⟩
  | success value next => simp [inner, Outcome.mapFailure, Outcome.recover] at failed
  | fault f => simp [inner, Outcome.mapFailure, Outcome.recover] at failed
  | exhausted => simp [inner, Outcome.mapFailure, Outcome.recover] at failed

/-- The list that goes on at a cursor breaks off with a failure. -/
inductive BrokenItems (p : Parser α) (delimiter : Parser β) : Cursor → Failure → Prop where
  /-- The delimiter fails, and no other choice is left. -/
  | delimiter {c : Cursor} {e : Failure} (failed : delimiter c = .failure e)
      (committed : e.retry = false) : BrokenItems p delimiter c e
  /-- Behind a delimiter there is no item. -/
  | item {c middle : Cursor} {separator : β} {e : Failure}
      (delimited : delimiter c = .success separator middle) (failed : p middle = .failure e) :
      BrokenItems p delimiter c e.commit
  /-- A delimiter and an item stand here; the list breaks off behind them. -/
  | step {c middle next : Cursor} {separator : β} {value : α} {e : Failure}
      (delimited : delimiter c = .success separator middle)
      (item : p middle = .success value next) (others : BrokenItems p delimiter next e) :
      BrokenItems p delimiter c e

theorem brokenItems_of_sepByLoop {budget : Nat} {earlier : List α}
    (failed : sepByLoop p delimiter budget earlier c = .failure e) :
    BrokenItems p delimiter c e := by
  induction budget generalizing earlier c with
  | zero => contradiction
  | succ budget ih =>
      rw [sepByLoop] at failed
      cases delimited : delimiter c with
      | success separator middle =>
          cases item : p middle with
          | success value next =>
              simp only [delimited, item] at failed
              exact .step delimited item (ih failed)
          | failure e' =>
              simp only [delimited, item, Outcome.failure.injEq] at failed
              subst failed
              exact .item delimited item
          | fault f => simp [delimited, item] at failed
          | exhausted => simp [delimited, item] at failed
      | failure e' =>
          by_cases retry : e'.retry = true
          · simp [delimited, retry] at failed
          · simp only [delimited, retry, Bool.false_eq_true, if_false,
              Outcome.failure.injEq] at failed
            subst failed
            exact .delimiter delimited (by simpa using retry)
      | fault f => simp [delimited] at failed
      | exhausted => simp [delimited] at failed

/-- A list fails with its first element, or behind it. -/
theorem sepBy_failure_cases {budget : Nat}
    (failed : sepBy budget p delimiter c = .failure e) :
    p c = .failure e ∨
      ∃ value next, p c = .success value next ∧ BrokenItems p delimiter next e := by
  rw [sepBy] at failed
  cases first : p c with
  | success value next =>
      simp only [first] at failed
      exact .inr ⟨value, next, rfl, brokenItems_of_sepByLoop failed⟩
  | failure e' =>
      by_cases retry : e'.retry = true
      · simp [first, retry] at failed
      · simp only [first, retry, Bool.false_eq_true, if_false, Outcome.failure.injEq] at failed
        exact .inl (congrArg Outcome.failure failed)
  | fault f => simp [first] at failed
  | exhausted => simp [first] at failed

end JsonFit.Parser

namespace JsonFit.Grammar

variable {Rule : Type} {Result : Rule → Type} {α β : Type}
  {call : (r : Rule) → Parser (Result r)} {budget : Nat} {c : Cursor} {e : Parser.Failure}
  {p : Grammar Result α} {q : Grammar Result β}

theorem eval_andThen_failure_cases (failed : eval call budget (andThen p q) c = .failure e) :
    eval call budget p c = .failure e ∨
      ∃ first middle e', eval call budget p c = .success first middle ∧
        eval call budget q middle = .failure e' ∧ e'.Agrees e :=
  Parser.both_failure_cases (Parser.map_eq_failure_iff.mp failed)

theorem eval_skip_failure_cases (failed : eval call budget (skip p q) c = .failure e) :
    eval call budget p c = .failure e ∨
      ∃ first middle e', eval call budget p c = .success first middle ∧
        eval call budget q middle = .failure e' ∧ e'.Agrees e :=
  Parser.both_failure_cases (Parser.map_eq_failure_iff.mp failed)

end JsonFit.Grammar
