import JsonFit.Number.Decimal
import JsonFit.Word

/-!
# Integer literals

Two spellings of signed 64-bit integers are read here.  A decimal one has an
optional sign and decimal digits.  A literal may also have a base, given by
`0b`, `0o`, `0x` or, for octal digits, by a leading zero, and may have
underscores between its digits.  Neither is read when it is out of range.
-/

namespace JsonFit.Integer

/-- A signed number, if it is in the range of a word. -/
def ofParts? (negative : Bool) (n : Nat) : Option Int :=
  let value : Int := if negative then -n else n
  if Word.InRange value then some value else none

/-- Reads an optional sign and decimal digits. -/
def readDecimal? (text : Bytes) : Option Int :=
  let (negative, digits) := Decimal.takeSign text
  if digits.isEmpty || !digits.all Ascii.isDigit then none
  else ofParts? negative (Bytes.digitsValue digits)

/-- The value of a digit in some base; letters continue behind nine. -/
def digitValue? (b : UInt8) : Option Nat :=
  let lower := Ascii.toLower b
  if Ascii.isDigit b then some (Ascii.digitValue b)
  else if 97 ≤ lower ∧ lower ≤ 122 then some (lower.toNat - 87)
  else none

/-- The value of digits in a base, leaving out underscores. -/
def valueIn? (base : Nat) (digits : Bytes) : Option Nat :=
  digits.foldlM (fun n b =>
    if b = Ascii.underscore then some n
    else ((digitValue? b).filter (· < base)).map (base * n + ·)) 0

/-- The base that a letter behind a leading zero stands for. -/
def baseOfLetter? (b : UInt8) : Option Nat :=
  match Ascii.toLower b with
  | Ascii.letterB => some 2
  | Ascii.letterO => some 8
  | Ascii.letterX => some 16
  | _ => none

/-- The base of a literal without its sign, and its digits. -/
def base : Bytes → Nat × Bytes
  | Ascii.zero :: letter :: digit :: rest =>
      match baseOfLetter? letter with
      | some b => (b, digit :: rest)
      | none => (8, letter :: digit :: rest)
  | Ascii.zero :: rest => (8, rest)
  | text => (10, text)

/-- What was seen last in a literal. -/
inductive Seen where
  | nothing
  | digit
  | underscore
  | other
  deriving DecidableEq, Repr

/-- Does every underscore stand between two digits? -/
def underscoresFit (hexadecimal : Bool) : Seen → Bytes → Bool
  | seen, [] => seen ≠ .underscore
  | seen, b :: rest =>
      if Ascii.isDigit b || (hexadecimal && (Ascii.hexValue? b).isSome) then
        underscoresFit hexadecimal .digit rest
      else if b = Ascii.underscore then
        seen == .digit && underscoresFit hexadecimal .underscore rest
      else
        seen != .underscore && underscoresFit hexadecimal .other rest

/-- Are the underscores of a literal without its sign well placed?  The mark of
a base counts as a digit. -/
def underscoresOk : Bytes → Bool
  | Ascii.zero :: letter :: rest =>
      match baseOfLetter? letter with
      | some b => underscoresFit (b == 16) .digit rest
      | none => underscoresFit false .nothing (Ascii.zero :: letter :: rest)
  | text => underscoresFit false .nothing text

/-- Reads a literal. -/
def readLiteral? (text : Bytes) : Option Int := do
  let (negative, unsigned) := Decimal.takeSign text
  if unsigned.isEmpty then none
  let (b, digits) := base unsigned
  let n ← valueIn? b digits
  if digits.contains Ascii.underscore && !underscoresOk unsigned then none
  ofParts? negative n

end JsonFit.Integer
