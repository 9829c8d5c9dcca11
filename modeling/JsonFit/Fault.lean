import JsonFit.Bytes

/-!
# Faults

A fault is a broken precondition: a move past the end of a text, a choice
without alternatives, a negative width.  It is different from a failure to
parse, which a grammar may recover from: nothing recovers from a fault.

Some faults have a message of their own; the others, such as violations of the
bounds of a view, carry none.
-/

namespace JsonFit

/-- The ways in which a precondition can be broken. -/
inductive Fault where
  /-- A cursor was moved backward or past the end of its text. -/
  | advance (count offset : Int) (size : Nat)
  /-- A choice was built from no alternatives. -/
  | noAlternatives
  /-- A document was laid out to a negative width. -/
  | negativeWidth (width : Int)
  /-- A document held a gap where an element was to be written. -/
  | missingElement
  /-- A document held a gap where an element was to be measured. -/
  | unmeasurable
  /-- A value of this type has no JSON form. -/
  | unsupportedType (name : Bytes)
  /-- A missing value was to be laid out. -/
  | missingValue
  /-- A missing value was to be written in compact form. -/
  | unwritable
  /-- A view was taken outside the bounds of its text. -/
  | outOfBounds
  /-- A rule called itself without end. -/
  | unbounded
  deriving DecidableEq, Repr

namespace Fault

/-- The message of a fault, for those that have one. -/
def message? : Fault → Option Bytes
  | advance count offset size =>
      some (Bytes.ofString "advance " ++ Bytes.decimalInt count ++
        Bytes.ofString " from offset " ++ Bytes.decimalInt offset ++
        Bytes.ofString " exceeds input length " ++ Bytes.decimal size)
  | noAlternatives => some (Bytes.ofString "pcomb.OrFrom: no alternatives")
  | negativeWidth width =>
      some (Bytes.ofString "pretty: negative width " ++ Bytes.decimalInt width)
  | missingElement => some (Bytes.ofString "pretty: unknown element type <nil>")
  | unsupportedType name => some (Bytes.ofString "ast.ToValue: unsupported type " ++ name)
  | missingValue => some (Bytes.ofString "ast.Doc: unexpected value type <nil>")
  | unmeasurable | unwritable | outOfBounds | unbounded => none

end Fault

end JsonFit
