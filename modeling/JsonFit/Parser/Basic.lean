import JsonFit.Parser.Outcome
import JsonFit.Text.Utf8

/-!
# Parsers and their combinators

A parser is a function from a cursor to an outcome.  This file gives the
meaning of each atom and of each combinator; `JsonFit.Grammar` builds languages
from them.

Sequencing commits: when the first part of a sequence has consumed input, a
failure of the second part is final for enclosing choices.  When the first part
has consumed nothing, the failure of the second keeps its own standing.
`attempt` makes a whole parser retryable again.
-/

namespace JsonFit

/-- A parser consumes input from a cursor and produces a value. -/
abbrev Parser (α : Type) := Cursor → Parser.Outcome α

namespace Parser

variable {α β : Type}

/-- A retryable failure at the cursor. -/
def failAt (c : Cursor) (cause : Cause) : Outcome α :=
  .failure ⟨cause, true, c.offset⟩

/-- Consumes exactly the given text.  At the end of the input it fails, also
for the empty text. -/
def literal (text : Bytes) : Parser Bytes := fun c =>
  if c.atEnd then failAt c .endOfInput
  else
    .checking (c.peek text.length) fun got =>
      if got = text then .checking (c.forward text.length) fun next => .success text next
      else failAt c (.unexpectedText text got)

/-- Consumes one character, given by its code point and matched by its
encoding. -/
def char (point : Int) : Parser Int := fun c =>
  if c.atEnd then failAt c .endOfInput
  else
    let want := Utf8.encodeInt point
    .checking (c.peek want.length) fun got =>
      if got = want then .checking (c.forward want.length) fun next => .success point next
      else failAt c (.unexpectedChar point (Utf8.firstPoint got))

/-- Consumes the input before the first occurrence of a delimiter.  At the end
of the input it fails, also for the empty delimiter. -/
def upTo (delimiter : Bytes) : Parser Bytes := fun c =>
  .checking c.rest fun rest =>
    match Bytes.find? delimiter rest with
    | none => failAt c (.missingDelimiter delimiter)
    | some count =>
        if c.atEnd then failAt c (.missingDelimiter delimiter)
        else
          .checking (c.forward count) fun next =>
            .checking (next.since c) fun view => .success view next

/-- Succeeds, without consuming anything, at the end of the input only. -/
def finish : Parser Unit := fun c =>
  if c.atEnd then .success () c
  else .checking (c.peek 4) fun got => failAt c (.trailingInput (Utf8.firstPoint got))

/-- Yields a value and consumes nothing. -/
def succeed (value : α) : Parser α := fun c =>
  .success value c

/-- Fails with a message and consumes nothing. -/
def fail (message : Bytes) : Parser α := fun c =>
  failAt c (.worded message)

/-- Breaks a precondition. -/
def abort (fault : Fault) : Parser α := fun _ =>
  .fault fault

/-- What becomes of the second part of a sequence that began at one cursor and
whose first part ended at another: its failure is committed if the first part
moved. -/
def committing (start middle : Cursor) (outcome : Outcome α) : Outcome α :=
  outcome.mapFailure (Failure.commitIf (decide (middle.offset ≠ start.offset)))

/-- Transforms the value of a parser. -/
def map (f : α → β) (p : Parser α) : Parser β := fun c =>
  (p c).map f

/-- Runs a parser, and then the parser that its value selects. -/
def bind (p : Parser α) (f : α → Parser β) : Parser β := fun c =>
  (p c).andThen fun value middle => committing c middle (f value middle)

/-- Runs two parsers in sequence and keeps both values. -/
def both (p : Parser α) (q : Parser β) : Parser (α × β) := fun c =>
  (p c).andThen fun first middle =>
    committing c middle ((q middle).map fun second => (first, second))

/-- Runs the first parser, and if that fails retryably, the second one from the
same cursor. -/
def orElse (p q : Parser α) : Parser α := fun c =>
  (p c).recover fun e => if e.retry then q c else .failure e

/-- Makes every failure retryable and reports it where the parser started. -/
def attempt (p : Parser α) : Parser α := fun c =>
  (p c).mapFailure (Failure.restart c.offset)

/-- Succeeds without a value and without consuming anything where the parser
fails, for whatever reason. -/
def optional (p : Parser α) : Parser (Option α) := fun c =>
  ((p c).map some).recover fun _ => .success none c

/-- Repeats a parser at most `budget` times, with the values so far in reverse
order.  A retryable failure or a repetition that consumes nothing ends the
loop; a committed failure is reported. -/
def manyLoop (p : Parser α) : (budget : Nat) → (values : List α) → Parser (List α)
  | 0, _, _ => .exhausted
  | budget + 1, values, c =>
      match p c with
      | .success value next =>
          if next.offset = c.offset then .success values.reverse c
          else manyLoop p budget (value :: values) next
      | .failure e => if e.retry then .success values.reverse c else .failure e
      | .fault f => .fault f
      | .exhausted => .exhausted

/-- Repeats a parser as often as it consumes input.  One repetition more than
there are bytes left is always enough. -/
def many (p : Parser α) : Parser (List α) := fun c =>
  manyLoop p (c.remaining + 1) [] c

/-- Reads further elements of a list, each behind a delimiter, with the values
so far in reverse order.  Behind a delimiter an element must follow. -/
def sepByLoop (p : Parser α) (delimiter : Parser β) :
    (budget : Nat) → (values : List α) → Parser (List α)
  | 0, _, _ => .exhausted
  | budget + 1, values, c =>
      match delimiter c with
      | .success _ middle =>
          match p middle with
          | .success value next => sepByLoop p delimiter budget (value :: values) next
          | .failure e => .failure e.commit
          | .fault f => .fault f
          | .exhausted => .exhausted
      | .failure e => if e.retry then .success values.reverse c else .failure e
      | .fault f => .fault f
      | .exhausted => .exhausted

/-- Reads a list of elements with delimiters between them.  The list is empty
if the first element fails retryably.  At most `budget` delimiters are tried. -/
def sepBy (budget : Nat) (p : Parser α) (delimiter : Parser β) : Parser (List α) := fun c =>
  match p c with
  | .success value next => sepByLoop p delimiter budget [value] next
  | .failure e => if e.retry then .success [] c else .failure e
  | .fault f => .fault f
  | .exhausted => .exhausted

end Parser

end JsonFit
