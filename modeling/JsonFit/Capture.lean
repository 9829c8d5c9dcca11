import JsonFit.Grammar

/-!
# Captures

A capture is the value of a parser as a tree: what each atom matched at the
leaves, and options, pairs and lists above them.  It lets grammars that are put
together at run time share one type of values.  `Capture.flatten` reads the leaves
from left to right, which gives back the input for every parser that keeps all
it matches.
-/

namespace JsonFit

/-- The value of a parser as a tree. -/
inductive Capture where
  /-- A piece of text. -/
  | text (s : Bytes)
  /-- A character, by its code point. -/
  | char (point : Int)
  /-- A number. -/
  | number (n : Int)
  /-- A view of the input. -/
  | view (s : Bytes)
  /-- The end of the input. -/
  | unit
  /-- An optional part that was absent. -/
  | none
  /-- An optional part that was present. -/
  | some (value : Capture)
  /-- The values of a sequence. -/
  | pair (first second : Capture)
  /-- The values of a repetition. -/
  | list (values : List Capture)
  deriving Repr

namespace Capture

mutual

/-- The text of all leaves, in order. -/
def flatten : Capture → Bytes
  | text s => s
  | char point => Utf8.encodeInt point
  | number n => Bytes.decimalInt n
  | view s => s
  | unit => []
  | none => []
  | some value => value.flatten
  | pair first second => first.flatten ++ second.flatten
  | list values => flattenAll values

/-- The text of all leaves of several captures, in order. -/
def flattenAll : List Capture → Bytes
  | [] => []
  | value :: values => value.flatten ++ flattenAll values

end

end Capture

end JsonFit
