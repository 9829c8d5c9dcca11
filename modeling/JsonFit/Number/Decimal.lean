import JsonFit.Number.Binary64

/-!
# Decimal numerals

A numeral has an optional sign, digits with at most one point and at least one
digit, and an optional exponent with a sign of its own.  It is read exactly and
then rounded once.  A numeral that is too large is not accepted; one that is too
small reads as zero, with its sign.

There is a limit to the places of a numeral: in front of the point only 800
digits have one, so that a longer numeral shrinks by the powers of ten of its
other whole digits.  This does not concern a numeral that is settled by its first
nineteen digits.
-/

namespace JsonFit.Decimal

/-- A numeral: `± digits * 10 ^ exponent`. -/
structure Numeral where
  /-- Is there a minus sign? -/
  negative : Bool
  /-- All digits, before and behind the point. -/
  digits : Bytes
  /-- The power of ten of the last digit. -/
  exponent : Int
  /-- The number of digits before the point, without zeros in front. -/
  whole : Nat
  deriving DecidableEq, Repr

/-- Takes an optional sign off a text. -/
def takeSign : Bytes → Bool × Bytes
  | Ascii.plus :: rest => (false, rest)
  | Ascii.hyphen :: rest => (true, rest)
  | text => (false, text)

/-- Exponents have no effect beyond this. -/
abbrev exponentLimit : Nat := 10000

/-- The value of the digits of an exponent.  Once the limit is reached, further
digits are ignored. -/
def exponentValue (digits : Bytes) : Nat :=
  digits.foldl (fun e d => if e < exponentLimit then 10 * e + Ascii.digitValue d else e) 0

/-- Reads what may follow the digits: nothing, or an exponent. -/
def readExponent? : Bytes → Option Int
  | [] => some 0
  | mark :: rest =>
      if mark = Ascii.letterE ∨ mark = Ascii.capitalE then
        let (negative, digits) := takeSign rest
        if digits.isEmpty || !digits.all Ascii.isDigit then none
        else if negative then some (-(exponentValue digits : Int))
        else some (exponentValue digits)
      else none

/-- The digits behind a point, and the rest of the text. -/
def takeFraction : Bytes → Bytes × Bytes
  | Ascii.point :: rest => (rest.takeWhile Ascii.isDigit, rest.dropWhile Ascii.isDigit)
  | text => ([], text)

/-- The digits from the first one that is not zero. -/
def significant (digits : Bytes) : Bytes :=
  digits.dropWhile (· == Ascii.zero)

namespace Numeral

/-- Reads a numeral. -/
def read? (text : Bytes) : Option Numeral :=
  let (negative, unsigned) := takeSign text
  let whole := unsigned.takeWhile Ascii.isDigit
  let (fraction, afterFraction) := takeFraction (unsigned.dropWhile Ascii.isDigit)
  if (whole ++ fraction).isEmpty then none
  else
    (readExponent? afterFraction).map fun e =>
      ⟨negative, whole ++ fraction, e - fraction.length, (significant whole).length⟩

/-- The number nearest to a numeral.  The two bounds on the position of the
first digit leave out only what is certainly too large, or certainly rounds to
zero. -/
def nearest? (n : Numeral) : Option Binary64 :=
  let count := (significant n.digits).length
  let first := (count : Int) + n.exponent
  if count = 0 ∨ first < -330 then some (.ofMagnitude n.negative 0)
  else if 310 < first then none
  else
    let (num, den) := Binary64.scaled 10 (Bytes.digitsValue n.digits) n.exponent
    Binary64.ofRatio? n.negative num den

/-- The number of leading digits that may settle a numeral. -/
abbrev settlingDigits : Nat := 19

/-- The numeral of the leading digits alone. -/
def leading (n : Numeral) : Numeral :=
  let digits := significant n.digits
  { n with
    digits := digits.take settlingDigits
    exponent := n.exponent + (digits.drop settlingDigits).length }

/-- The numeral with the next larger digits. -/
def next (n : Numeral) : Numeral :=
  { n with digits := Bytes.decimal (Bytes.digitsValue n.digits + 1) }

/-- Do the leading digits settle which number is nearest?  They do if only zeros
follow them, or if the next larger ones give the same number, or are too large as
well. -/
def isSettled (n : Numeral) : Bool :=
  let others := (significant n.digits).drop settlingDigits
  others.all (· == Ascii.zero) || n.leading.nearest? == n.leading.next.nearest?

/-- The number of digits before the point that have places. -/
abbrev wholePlaces : Nat := 800

/-- The numeral without the places of its other whole digits. -/
def shrunk (n : Numeral) : Numeral :=
  { n with exponent := n.exponent - (n.whole - wholePlaces : Nat) }

@[simp]
theorem shrunk_of_whole_le {n : Numeral} (h : n.whole ≤ wholePlaces) : n.shrunk = n := by
  simp [shrunk, Nat.sub_eq_zero_of_le h]

/-- The number that a numeral denotes. -/
def toBinary64? (n : Numeral) : Option Binary64 :=
  if n.whole ≤ wholePlaces || n.isSettled then n.nearest? else n.shrunk.nearest?

@[simp]
theorem toBinary64?_of_whole_le {n : Numeral} (h : n.whole ≤ wholePlaces) :
    n.toBinary64? = n.nearest? := by
  simp [toBinary64?, h]

end Numeral

/-- The number that a text denotes. -/
def read? (text : Bytes) : Option Binary64 :=
  (Numeral.read? text).bind Numeral.toBinary64?

end JsonFit.Decimal
