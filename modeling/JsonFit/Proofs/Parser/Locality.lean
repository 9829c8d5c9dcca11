import JsonFit.Proofs.Parser.Orderly

/-!
# Locality of parsers

What stands in a text before the start of a run has no influence on the run.  If
another text is put in front, then the run on the longer text is the same run:
the values, the causes and the standing of failures are equal, and every offset
is larger by the length of the text in front.

`Parser.Local` says this of one parser as an equation, which covers all four
ways in which a run can come out.  Every combinator keeps it.  Sequences and
loops go on from the cursor that a part has reached, so there the parts have to
be orderly as well: outside of its text a cursor has no place to be shifted
from.
-/

namespace JsonFit

open Cursor (between)

namespace Cursor

variable (x : Bytes)

/-- The same place when the text `x` is put in front. -/
def behind (c : Cursor) : Cursor :=
  ⟨x.toArray ++ c.input, x.length + c.offset⟩

@[simp]
theorem offset_behind (c : Cursor) : (c.behind x).offset = x.length + c.offset :=
  rfl

@[simp]
theorem size_behind (c : Cursor) : (c.behind x).size = x.length + c.size := by
  simp [size, behind]

/-- What is put in front comes to lie before the cursor. -/
@[simp]
theorem behind_between (before ahead : Bytes) :
    (between before ahead).behind x = between (x ++ before) ahead := by
  simp [behind, between]

@[simp]
theorem remaining_behind (c : Cursor) : (c.behind x).remaining = c.remaining := by
  simp only [remaining, size_behind, offset_behind]
  omega

end Cursor

namespace Parser

variable {α β : Type} (x : Bytes)

/-! ## Outcomes -/

/-- The same failure when the text `x` is put in front. -/
def Failure.behind (e : Failure) : Failure :=
  { e with offset := x.length + e.offset }

@[simp]
theorem Failure.retry_behind (e : Failure) : (e.behind x).retry = e.retry :=
  rfl

theorem Failure.behind_commitIf (moved : Bool) (e : Failure) :
    (e.commitIf moved).behind x = (e.behind x).commitIf moved := by
  cases moved <;> rfl

/-- The same outcome when the text `x` is put in front. -/
def Outcome.behind : Outcome α → Outcome α
  | success value next => success value (next.behind x)
  | failure e => failure (e.behind x)
  | fault f => fault f
  | exhausted => exhausted

namespace Outcome

@[simp]
theorem behind_success (value : α) (next : Cursor) :
    (success value next).behind x = success value (next.behind x) :=
  rfl

@[simp]
theorem behind_failure (e : Failure) :
    (failure e : Outcome α).behind x = failure (e.behind x) :=
  rfl

@[simp]
theorem behind_fault (f : Fault) : (fault f : Outcome α).behind x = fault f :=
  rfl

@[simp]
theorem behind_exhausted : (exhausted : Outcome α).behind x = exhausted :=
  rfl

@[simp]
theorem behind_failAt (c : Cursor) (cause : Cause) :
    (failAt c cause : Outcome α).behind x = failAt (c.behind x) cause :=
  rfl

theorem behind_map (outcome : Outcome α) (f : α → β) :
    (outcome.map f).behind x = (outcome.behind x).map f := by
  cases outcome <;> rfl

/-- It is enough to compare how two runs go on from where the first part has
ended. -/
theorem behind_andThen {outcome : Outcome α} {k k' : α → Cursor → Outcome β}
    (further : ∀ value next, outcome = success value next →
      k' value (next.behind x) = (k value next).behind x) :
    (outcome.andThen k).behind x = (outcome.behind x).andThen k' := by
  cases outcome with
  | success value next => exact (further value next rfl).symm
  | failure e => rfl
  | fault f => rfl
  | exhausted => rfl

theorem behind_recover {outcome : Outcome α} {k k' : Failure → Outcome α}
    (further : ∀ e, k' (e.behind x) = (k e).behind x) :
    (outcome.recover k).behind x = (outcome.behind x).recover k' := by
  cases outcome with
  | success value next => rfl
  | failure e => exact (further e).symm
  | fault f => rfl
  | exhausted => rfl

/-- Whether a part has moved does not depend on what stands in front. -/
theorem behind_committing (start middle : Cursor) (outcome : Outcome α) :
    (committing start middle outcome).behind x =
      committing (start.behind x) (middle.behind x) (outcome.behind x) := by
  have sameMove : decide ((middle.behind x).offset ≠ (start.behind x).offset) =
      decide (middle.offset ≠ start.offset) := by
    simp
  rw [committing, committing, sameMove]
  apply behind_recover
  intro e
  rw [behind_failure, Failure.behind_commitIf]

end Outcome

/-! ## Parsers -/

/-- The runs of the parser do not depend on what stands before their start. -/
def Local (p : Parser α) : Prop :=
  ∀ ⦃c⦄, c.InRange → ∀ x, p (c.behind x) = (p c).behind x

/-- It is enough to look at splits of a text. -/
theorem local_of_between {p : Parser α}
    (shifted : ∀ x before ahead,
      p (between (x ++ before) ahead) = (p (between before ahead)).behind x) :
    p.Local := by
  intro c inRange x
  obtain ⟨before, ahead, rfl⟩ := inRange.exists_between
  rw [Cursor.behind_between]
  exact shifted x before ahead

theorem literal_local (text : Bytes) : (literal text).Local := by
  apply local_of_between
  intro x before ahead
  by_cases atEnd : ahead = []
  · simp [literal, atEnd]
  · by_cases taken : ahead.take text.length = text
    · obtain ⟨rest, rfl⟩ := List.prefix_iff_eq_take.mpr taken.symm
      rw [literal_append before text rest atEnd, literal_append (x ++ before) text rest atEnd]
      simp
    · simp [literal, atEnd, taken, Outcome.checking]

theorem char_local (point : Int) : (char point).Local := by
  apply local_of_between
  intro x before ahead
  by_cases atEnd : ahead = []
  · simp [char, atEnd]
  · by_cases taken : ahead.take (Utf8.encodeInt point).length = Utf8.encodeInt point
    · obtain ⟨rest, rfl⟩ := List.prefix_iff_eq_take.mpr taken.symm
      rw [char_append before point rest, char_append (x ++ before) point rest]
      simp
    · simp [char, atEnd, taken, Outcome.checking]

theorem upTo_local (delimiter : Bytes) : (upTo delimiter).Local := by
  apply local_of_between
  intro x before ahead
  cases found : Bytes.find? delimiter ahead with
  | none => simp [upTo, found, Outcome.checking]
  | some count =>
      by_cases atEnd : ahead = []
      · subst atEnd
        simp [upTo, found, Outcome.checking]
      · rw [upTo_of_find? before atEnd found, upTo_of_find? (x ++ before) atEnd found]
        simp

theorem finish_local : finish.Local := by
  apply local_of_between
  intro x before ahead
  cases ahead with
  | nil => simp [finish_nil]
  | cons b rest =>
      have peekEq (text : Bytes) :
          (between text (b :: rest)).peek 4 = .ok ((b :: rest).take 4) :=
        Cursor.peek_between text (b :: rest) 4
      simp [finish, peekEq, Outcome.checking]

theorem succeed_local (value : α) : (succeed value).Local :=
  fun _ _ _ => rfl

theorem fail_local (message : Bytes) : (fail message : Parser α).Local :=
  fun _ _ _ => rfl

theorem abort_local (fault : Fault) : (abort fault : Parser α).Local :=
  fun _ _ _ => rfl

namespace Local

variable {p q : Parser α} {delimiter : Parser β} {allowed : Fault → Prop}

theorem map (shifts : p.Local) (f : α → β) : (Parser.map f p).Local := by
  intro c inRange x
  rw [Parser.map, Parser.map, shifts inRange, Outcome.behind_map]

theorem bind {f : α → Parser β} (orderly : p.Orderly allowed) (first : p.Local)
    (second : ∀ value, (f value).Local) : (Parser.bind p f).Local := by
  intro c inRange x
  rw [Parser.bind, Parser.bind, first inRange]
  symm
  apply Outcome.behind_andThen
  intro value middle taken
  have reaches := orderly.reaches inRange taken
  rw [second value (reaches.inRange inRange), Outcome.behind_committing]

theorem both (orderly : p.Orderly allowed) (first : p.Local) (second : delimiter.Local) :
    (Parser.both p delimiter).Local := by
  intro c inRange x
  rw [Parser.both, Parser.both, first inRange]
  symm
  apply Outcome.behind_andThen
  intro value middle taken
  have reaches := orderly.reaches inRange taken
  rw [second (reaches.inRange inRange), Outcome.behind_committing, Outcome.behind_map]

theorem orElse (first : p.Local) (second : q.Local) : (Parser.orElse p q).Local := by
  intro c inRange x
  rw [Parser.orElse, Parser.orElse, first inRange]
  symm
  apply Outcome.behind_recover
  intro e
  rw [Failure.retry_behind]
  split
  · exact second inRange x
  · rfl

theorem attempt (shifts : p.Local) : (Parser.attempt p).Local := by
  intro c inRange x
  rw [Parser.attempt, Parser.attempt, shifts inRange]
  symm
  apply Outcome.behind_recover
  intro e
  rfl

theorem optional (shifts : p.Local) : (Parser.optional p).Local := by
  intro c inRange x
  rw [Parser.optional, Parser.optional, shifts inRange, ← Outcome.behind_map]
  symm
  apply Outcome.behind_recover
  intro e
  rfl

/-- Both runs go through the loop in step: a repetition that moves in one of them
moves in the other. -/
theorem manyLoop (orderly : p.Orderly allowed) (shifts : p.Local) (budget : Nat)
    (values : List α) : (Parser.manyLoop p budget values).Local := by
  intro c inRange x
  induction budget generalizing values c with
  | zero => rfl
  | succ budget ih =>
      rw [Parser.manyLoop, Parser.manyLoop, shifts inRange]
      cases outcome : p c with
      | success value next =>
          have reaches := orderly.reaches inRange outcome
          by_cases unmoved : next.offset = c.offset
          · simp [unmoved]
          · simp [unmoved, ih (value :: values) (reaches.inRange inRange)]
      | failure e =>
          by_cases retry : e.retry = true <;> simp [retry]
      | fault f => rfl
      | exhausted => rfl

/-- The number of repetitions that are allowed for is that of the bytes ahead. -/
theorem many (orderly : p.Orderly allowed) (shifts : p.Local) : (Parser.many p).Local := by
  intro c inRange x
  rw [Parser.many, Parser.many, Cursor.remaining_behind]
  exact shifts.manyLoop orderly _ [] inRange x

theorem sepByLoop (itemOrderly : p.Orderly allowed) (delimiterOrderly : delimiter.Orderly allowed)
    (item : p.Local) (between : delimiter.Local) (budget : Nat) (values : List α) :
    (Parser.sepByLoop p delimiter budget values).Local := by
  intro c inRange x
  induction budget generalizing values c with
  | zero => rfl
  | succ budget ih =>
      rw [Parser.sepByLoop, Parser.sepByLoop, between inRange]
      cases delimited : delimiter c with
      | success separator middle =>
          have reaches := delimiterOrderly.reaches inRange delimited
          have middleInRange := reaches.inRange inRange
          simp only [Outcome.behind_success, item middleInRange]
          cases outcome : p middle with
          | success value next =>
              have further := itemOrderly.reaches middleInRange outcome
              exact ih (value :: values) (further.inRange middleInRange)
          | failure e => rfl
          | fault f => rfl
          | exhausted => rfl
      | failure e =>
          by_cases retry : e.retry = true <;> simp [retry]
      | fault f => rfl
      | exhausted => rfl

theorem sepBy (itemOrderly : p.Orderly allowed) (delimiterOrderly : delimiter.Orderly allowed)
    (item : p.Local) (between : delimiter.Local) (budget : Nat) :
    (Parser.sepBy budget p delimiter).Local := by
  intro c inRange x
  rw [Parser.sepBy, Parser.sepBy, item inRange]
  cases outcome : p c with
  | success value next =>
      have reaches := itemOrderly.reaches inRange outcome
      exact item.sepByLoop itemOrderly delimiterOrderly between budget [value]
        (reaches.inRange inRange) x
  | failure e =>
      by_cases retry : e.retry = true <;> simp [retry]
  | fault f => rfl
  | exhausted => rfl

end Local

end Parser

end JsonFit
