import JsonFit.Grammar
import JsonFit.Proofs.Parser.Atoms

/-!
# Orderly parsers

A run of a parser never goes back: where it succeeds, the next cursor is in the
same text and not before the start, and where it fails, the failure is reported
inside the text and not before the start.  The place of a failure tells its
standing: at the start it is retryable, further on it is committed.

This is one invariant, `Outcome.Orderly`, which every combinator keeps.  It has
a parameter for the faults that are let through, so that it also says when a run
is free of faults: a grammar faults only where it holds `abort`.
-/

namespace JsonFit

open Cursor (between)

namespace Parser

variable {α β : Type} {allowed : Fault → Prop} {start middle : Cursor}

/-! ## Outcomes -/

/-- A failure of a run from `start`: it lies in the text, and it is retryable at
the start and committed behind it. -/
structure Failure.Orderly (start : Cursor) (e : Failure) : Prop where
  inText : e.offset ≤ start.size
  standing : (e.retry = true ∧ e.offset = start.offset) ∨
    (e.retry = false ∧ start.offset < e.offset)

namespace Failure.Orderly

variable {e : Failure}

theorem notBefore (orderly : e.Orderly start) : start.offset ≤ e.offset := by
  rcases orderly.standing with ⟨_, atStart⟩ | ⟨_, behind⟩
  · exact Int.le_of_eq atStart.symm
  · exact Int.le_of_lt behind

theorem behind_of_committed (orderly : e.Orderly start) (committed : e.retry = false) :
    start.offset < e.offset := by
  rcases orderly.standing with ⟨retry, _⟩ | ⟨_, behind⟩
  · rw [committed] at retry
    contradiction
  · exact behind

/-- A failure behind a later cursor is behind the start as well. -/
theorem of_committed (orderly : e.Orderly middle) (reaches : start.Reaches middle)
    (committed : e.retry = false) : e.Orderly start where
  inText := reaches.sameSize ▸ orderly.inText
  standing :=
    .inr ⟨committed, Int.lt_of_le_of_lt reaches.notBefore (orderly.behind_of_committed committed)⟩

/-- Behind a cursor that has moved, every failure may be committed. -/
theorem commit (orderly : e.Orderly middle) (reaches : start.Reaches middle)
    (moved : middle.offset ≠ start.offset) : e.commit.Orderly start where
  inText := reaches.sameSize ▸ orderly.inText
  standing := by
    have low := reaches.notBefore
    have further := orderly.notBefore
    refine .inr ⟨rfl, ?_⟩
    simp only [Failure.commit]
    omega

theorem restart (inRange : start.InRange) (e : Failure) :
    (e.restart start.offset).Orderly start :=
  ⟨inRange.2, .inl ⟨rfl, rfl⟩⟩

end Failure.Orderly

namespace Outcome

/-- The outcomes that a run from `start` may have when only the faults in
`allowed` are let through. -/
def Orderly (allowed : Fault → Prop) (start : Cursor) : Outcome α → Prop
  | success _ next => start.Reaches next
  | failure e => e.Orderly start
  | fault f => allowed f
  | exhausted => True

@[simp]
theorem orderly_success (value : α) (next : Cursor) :
    (success value next).Orderly allowed start ↔ start.Reaches next :=
  Iff.rfl

@[simp]
theorem orderly_failure (e : Failure) :
    (failure e : Outcome α).Orderly allowed start ↔ e.Orderly start :=
  Iff.rfl

@[simp]
theorem orderly_fault (f : Fault) :
    (fault f : Outcome α).Orderly allowed start ↔ allowed f :=
  Iff.rfl

@[simp]
theorem orderly_exhausted : (exhausted : Outcome α).Orderly allowed start :=
  trivial

namespace Orderly

variable {outcome : Outcome α}

theorem failAt (inRange : start.InRange) (cause : Cause) :
    (Parser.failAt start cause : Outcome α).Orderly allowed start :=
  ⟨inRange.2, .inl ⟨rfl, rfl⟩⟩

theorem map (orderly : outcome.Orderly allowed start) (f : α → β) :
    (outcome.map f).Orderly allowed start := by
  cases outcome <;> exact orderly

theorem andThen {k : α → Cursor → Outcome β} (orderly : outcome.Orderly allowed start)
    (further : ∀ value middle, start.Reaches middle → (k value middle).Orderly allowed start) :
    (outcome.andThen k).Orderly allowed start := by
  cases outcome with
  | success value next => exact further value next orderly
  | failure e => exact orderly
  | fault f => exact orderly
  | exhausted => exact orderly

theorem recover {k : Failure → Outcome α} (orderly : outcome.Orderly allowed start)
    (further : ∀ e, e.Orderly start → (k e).Orderly allowed start) :
    (outcome.recover k).Orderly allowed start := by
  cases outcome with
  | success value next => exact orderly
  | failure e => exact further e orderly
  | fault f => exact orderly
  | exhausted => exact orderly

/-- The second part of a sequence is measured from the start of the first: this
is what committing achieves. -/
theorem committing (orderly : outcome.Orderly allowed middle) (reaches : start.Reaches middle) :
    (Parser.committing start middle outcome).Orderly allowed start := by
  by_cases unmoved : middle.offset = start.offset
  · obtain rfl := reaches.eq_of_offset_eq unmoved
    cases outcome with
    | failure e =>
        simpa [Parser.committing, mapFailure, Outcome.recover, Failure.commitIf] using orderly
    | success value next => exact orderly
    | fault f => exact orderly
    | exhausted => exact orderly
  · cases outcome with
    | failure e =>
        have moved := Failure.Orderly.commit orderly reaches unmoved
        simpa [Parser.committing, mapFailure, Outcome.recover, Failure.commitIf, unmoved]
          using moved
    | success value next => exact reaches.trans orderly
    | fault f => exact orderly
    | exhausted => exact orderly

end Orderly

end Outcome

/-! ## Parsers -/

/-- A parser whose runs from cursors in range are orderly. -/
def Orderly (allowed : Fault → Prop) (p : Parser α) : Prop :=
  ∀ ⦃c⦄, c.InRange → (p c).Orderly allowed c

/-- Where an orderly parser succeeds it has not gone back. -/
theorem Orderly.reaches {p : Parser α} (orderly : p.Orderly allowed) {c next : Cursor}
    {value : α} (inRange : c.InRange) (taken : p c = .success value next) : c.Reaches next := by
  simpa [taken] using orderly inRange

theorem literal_orderly (text : Bytes) : Orderly allowed (literal text) := by
  intro c inRange
  obtain ⟨before, ahead, rfl⟩ := inRange.exists_between
  rcases literal_cases before text ahead with ⟨rest, rfl, taken⟩ | ⟨cause, failed⟩
  · rw [taken]
    exact Cursor.reaches_between before text rest
  · rw [failed]
    exact .failAt inRange cause

theorem char_orderly (point : Int) : Orderly allowed (char point) := by
  intro c inRange
  obtain ⟨before, ahead, rfl⟩ := inRange.exists_between
  rcases char_cases before point ahead with ⟨rest, rfl, taken⟩ | ⟨cause, failed⟩
  · rw [taken]
    exact Cursor.reaches_between before (Utf8.encodeInt point) rest
  · rw [failed]
    exact .failAt inRange cause

theorem upTo_orderly (delimiter : Bytes) : Orderly allowed (upTo delimiter) := by
  intro c inRange
  obtain ⟨before, ahead, rfl⟩ := inRange.exists_between
  rcases upTo_cases before delimiter ahead with ⟨count, _, _, taken⟩ | ⟨cause, failed⟩
  · rw [taken]
    simpa using Cursor.reaches_between before (ahead.take count) (ahead.drop count)
  · rw [failed]
    exact .failAt inRange cause

theorem finish_orderly : Orderly allowed finish := by
  intro c inRange
  obtain ⟨before, ahead, rfl⟩ := inRange.exists_between
  rcases finish_cases before ahead with ⟨_, finished⟩ | ⟨cause, failed⟩
  · rw [finished]
    exact Cursor.Reaches.refl inRange
  · rw [failed]
    exact .failAt inRange cause

theorem succeed_orderly (value : α) : Orderly allowed (succeed value) :=
  fun _ inRange => Cursor.Reaches.refl inRange

theorem fail_orderly (message : Bytes) : Orderly allowed (fail message : Parser α) :=
  fun _ inRange => .failAt inRange _

namespace Orderly

variable {p q : Parser α} {delimiter : Parser β}

theorem map (orderly : p.Orderly allowed) (f : α → β) : (Parser.map f p).Orderly allowed :=
  fun _ inRange => (orderly inRange).map f

theorem bind {f : α → Parser β} (first : p.Orderly allowed)
    (second : ∀ value, (f value).Orderly allowed) : (Parser.bind p f).Orderly allowed := by
  intro c inRange
  apply (first inRange).andThen
  intro value middle reaches
  exact (second value (reaches.inRange inRange)).committing reaches

theorem both (first : p.Orderly allowed) (second : delimiter.Orderly allowed) :
    (Parser.both p delimiter).Orderly allowed := by
  intro c inRange
  apply (first inRange).andThen
  intro value middle reaches
  exact ((second (reaches.inRange inRange)).map _).committing reaches

theorem orElse (first : p.Orderly allowed) (second : q.Orderly allowed) :
    (Parser.orElse p q).Orderly allowed := by
  intro c inRange
  apply (first inRange).recover
  intro e failed
  split
  · exact second inRange
  · exact failed

theorem attempt (orderly : p.Orderly allowed) : (Parser.attempt p).Orderly allowed := by
  intro c inRange
  apply (orderly inRange).recover
  intro e _
  exact Failure.Orderly.restart inRange e

theorem optional (orderly : p.Orderly allowed) : (Parser.optional p).Orderly allowed := by
  intro c inRange
  apply ((orderly inRange).map some).recover
  intro e _
  exact Cursor.Reaches.refl inRange

/-- The loop of a repetition, measured from where the repetition began. -/
theorem manyLoop (orderly : p.Orderly allowed) (inRange : start.InRange) (budget : Nat)
    (values : List α) {c : Cursor} (reaches : start.Reaches c) :
    (Parser.manyLoop p budget values c).Orderly allowed start := by
  induction budget generalizing values c with
  | zero => trivial
  | succ budget ih =>
      have step := orderly (reaches.inRange inRange)
      rw [Parser.manyLoop]
      cases outcome : p c with
      | success value next =>
          rw [outcome] at step
          dsimp only
          split
          · exact reaches
          · exact ih (value :: values) (reaches.trans step)
      | failure e =>
          rw [outcome] at step
          dsimp only
          split
          · exact reaches
          · rename_i committed
            exact Failure.Orderly.of_committed step reaches (by simpa using committed)
      | fault f =>
          rw [outcome] at step
          exact step
      | exhausted => trivial

theorem many (orderly : p.Orderly allowed) : (Parser.many p).Orderly allowed :=
  fun _ inRange => orderly.manyLoop inRange _ [] (.refl inRange)

/-- The loop of a list, measured from where its first element began.  The element
parser has succeeded there, and so cannot fail there: a failure behind a delimiter
that is forced to be committed has moved. -/
theorem sepByLoop (item : p.Orderly allowed) (between : delimiter.Orderly allowed)
    (inRange : start.InRange) {first : α} {second : Cursor}
    (begun : p start = .success first second) (budget : Nat) (values : List α) {c : Cursor}
    (reaches : start.Reaches c) :
    (Parser.sepByLoop p delimiter budget values c).Orderly allowed start := by
  induction budget generalizing values c with
  | zero => trivial
  | succ budget ih =>
      have cInRange := reaches.inRange inRange
      have delimiterStep := between cInRange
      rw [Parser.sepByLoop]
      cases delimiterOutcome : delimiter c with
      | success separator middle =>
          rw [delimiterOutcome] at delimiterStep
          have middleReaches := reaches.trans delimiterStep
          have itemStep := item (middleReaches.inRange inRange)
          cases itemOutcome : p middle with
          | success value next =>
              rw [itemOutcome] at itemStep
              simpa [itemOutcome] using ih (value :: values) (middleReaches.trans itemStep)
          | failure e =>
              rw [itemOutcome] at itemStep
              have moved : middle.offset ≠ start.offset := by
                intro unmoved
                rw [middleReaches.eq_of_offset_eq unmoved, begun] at itemOutcome
                contradiction
              simpa [itemOutcome] using Failure.Orderly.commit itemStep middleReaches moved
          | fault f =>
              rw [itemOutcome] at itemStep
              simpa [itemOutcome] using itemStep
          | exhausted => simp [itemOutcome]
      | failure e =>
          rw [delimiterOutcome] at delimiterStep
          dsimp only
          split
          · exact reaches
          · rename_i committed
            exact Failure.Orderly.of_committed delimiterStep reaches (by simpa using committed)
      | fault f =>
          rw [delimiterOutcome] at delimiterStep
          exact delimiterStep
      | exhausted => trivial

theorem sepBy (item : p.Orderly allowed) (between : delimiter.Orderly allowed) (budget : Nat) :
    (Parser.sepBy budget p delimiter).Orderly allowed := by
  intro c inRange
  have step := item inRange
  rw [Parser.sepBy]
  cases outcome : p c with
  | success value next =>
      rw [outcome] at step
      exact item.sepByLoop between inRange outcome budget [value] step
  | failure e =>
      rw [outcome] at step
      dsimp only
      split
      · exact Cursor.Reaches.refl inRange
      · exact step
  | fault f =>
      rw [outcome] at step
      exact step
  | exhausted => trivial

end Orderly

end Parser

end JsonFit
