import JsonFit.Command.Libraries
import JsonFit.Json.Fitted
import JsonFit.Json.Grammar
import JsonFit.Json.Path
import JsonFit.Number.Integer
import JsonFit.Text.Blank
import JsonFit.Text.Position
import JsonFit.Text.Quoted

/-!
# Printing one text

A text is read as JSON, followed along a path, and written fitted to a width.  A
text that does not parse is not an error of the command: what is written then is
a report with the place and the reason.

With relaxed input the text is standardized first.  Where that fails the text is
read as it is, so that the report is that of plain JSON; the report always shows
the text as it was given.
-/

namespace JsonFit.Command

open Json (Value Step PathError)

/-- How texts are printed. -/
structure Printer where
  /-- The line width. -/
  width : Int
  /-- May the text hold comments and commas behind last elements? -/
  relaxed : Bool
  /-- What to select from the value. -/
  path : List (Step Empty)

/-- A step of a path as it is given on the command line: an index if it is an
integer, and a key otherwise. -/
def stepOf (element : Bytes) : Step Empty :=
  match Integer.readDecimal? element with
  | some i => .index i
  | none => .key element

/-- The most bytes of the text that a report shows. -/
abbrev contextLength : Nat := 32

/-- The rest of a text behind an offset. -/
def textFrom (text : Bytes) (offset : Int) : Except Fault Bytes :=
  if 0 ≤ offset ∧ offset ≤ text.length then .ok (text.drop offset.toNat)
  else .error .outOfBounds

variable (libraries : Libraries)

/-- The report on a text that does not parse. -/
def report (text : Bytes) (e : Parser.Failure) : Except Fault Bytes := do
  let position := Text.Position.ofOffset text e.offset
  let context ← textFrom text e.offset
  return Bytes.ofString "ERROR\n" ++ Bytes.decimal position.line ++ Bytes.ofString ":" ++
    Bytes.decimal position.column ++ Bytes.ofString ": " ++ e.message ++
    Bytes.ofString "\n  offset " ++ Bytes.decimalInt e.offset ++
    Bytes.ofString (if e.retry then ", retryable" else ", committed") ++
    Bytes.ofString "\n  near " ++ Text.quoted (libraries.truncate context contextLength) ++
    [Ascii.lineFeed]

namespace Printer

/-- The text that is read in place of the one that is given. -/
def plainText (p : Printer) (text : Bytes) : Bytes :=
  if p.relaxed then (libraries.standardize? text).getD text else text

/-- What is written for a text, or why its path leads nowhere. -/
def print (p : Printer) (text : Bytes) : Except Fault (Except (PathError Empty) Bytes) :=
  match Json.parse (p.plainText libraries text) with
  | .success root _ =>
      match root.walk p.path with
      | .ok v => (v.format? p.width).map fun fitted => .ok (fitted ++ [Ascii.lineFeed])
      | .error e => .ok (.error e)
  | .failure e => (report libraries text e).map .ok
  | .fault f => .error f
  | .exhausted => .error .unbounded

end Printer

end JsonFit.Command
