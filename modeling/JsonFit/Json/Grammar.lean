import JsonFit.Grammar
import JsonFit.Json.Value

/-!
# The grammar of JSON texts

A text is one value with white space around it.  A value is an array, an object,
a string, a constant or a number, tried in that order.  Brackets, commas and
colons take the white space on both sides.  A string runs to the next quotation
mark, whatever stands between.  A number is the longest run of number
characters, and must be a numeral.

The only recursive rule is that of values.
-/

namespace JsonFit.Json

open Grammar

/-- White space of JSON. -/
def isSpace (b : UInt8) : Bool :=
  b == Ascii.space || b == Ascii.tab || b == Ascii.lineFeed || b == Ascii.carriageReturn

/-- Grammars that may call the rule of values. -/
abbrev Rules (α : Type) := Grammar (fun _ : Unit => Value) α

namespace Rules

/-- A value, by its rule. -/
def anyValue : Rules Value :=
  .rule ()

/-- A character of ASCII. -/
def byte (b : UInt8) : Rules Int :=
  .char b.toNat

/-- One character of white space. -/
def space : Rules Int :=
  firstOf [byte Ascii.space, byte Ascii.tab, byte Ascii.lineFeed, byte Ascii.carriageReturn]

/-- A character with white space around it. -/
def token (b : UInt8) : Rules Int :=
  surroundedBy (byte b) space

/-- A comma between elements. -/
def comma : Rules Int :=
  token Ascii.comma

/-- A colon between a key and its value. -/
def colon : Rules Int :=
  token Ascii.colon

/-- A string, as the raw text between its quotation marks. -/
def quoted : Rules Bytes :=
  skip (andThen (byte Ascii.quotationMark) (.upTo [Ascii.quotationMark]))
    (byte Ascii.quotationMark)

/-- A member of an object. -/
def member : Rules (Bytes × Value) :=
  .both (skip quoted colon) anyValue

/-- An array. -/
def arrayValue : Rules Value :=
  .map Value.array
    (skip (andThen (token Ascii.openBracket) (.sepBy anyValue comma))
      (token Ascii.closeBracket))

/-- An object. -/
def objectValue : Rules Value :=
  .map Value.object
    (skip (andThen (token Ascii.openBrace) (.sepBy member comma))
      (token Ascii.closeBrace))

/-- A string value. -/
def stringValue : Rules Value :=
  .map Value.string quoted

/-- The null constant. -/
def nullValue : Rules Value :=
  .map (fun _ => Value.null) (.literal Value.nullText)

/-- A truth value. -/
def boolValue : Rules Value :=
  .map (fun text => Value.bool (text == Value.boolText true))
    (.orElse (.literal (Value.boolText true)) (.literal (Value.boolText false)))

/-- The characters of numbers: signs, the point, the mark of an exponent and the
digits. -/
def numberBytes : Bytes :=
  Bytes.ofString "-+.eE0123456789"

/-- One character of a number. -/
def numberChar : Rules Int :=
  firstOf (numberBytes.map byte)

/-- What follows from the characters of a number. -/
def numberOf (points : List Int) : Rules Value :=
  if points.isEmpty then .fail (Bytes.ofString "expected a JSON value")
  else
    let text := points.flatMap Utf8.encodeInt
    match Decimal.read? text with
    | some x => .succeed (.number x)
    | none => .fail (Bytes.ofString "invalid number " ++ Text.quoted text)

/-- A number. -/
def numberValue : Rules Value :=
  .bind (.many numberChar) numberOf

/-- The rule of values. -/
def value : Rules Value :=
  .orElse (.orElse (.orElse (.orElse (.orElse arrayValue objectValue) stringValue) nullValue)
    boolValue) numberValue

/-- A whole text. -/
def document : Rules Value :=
  skip (andThen (.many space) anyValue) (andThen (.many space) .finish)

end Rules

/-- Reads a text from a cursor on, with a budget for nested values. -/
def parseWith (budget : Nat) : Parser Value :=
  Grammar.run (fun _ => Rules.value) budget Rules.document

/-- Reads a JSON text.  No text has more nested values than bytes, so the budget
is always enough. -/
def parse (text : Bytes) : Parser.Outcome Value :=
  parseWith (text.length + 1) (Cursor.ofBytes text)

end JsonFit.Json
