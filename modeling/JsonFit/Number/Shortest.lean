import JsonFit.Number.Decimal

/-!
# Shortest numerals

A finite number is written with the fewest digits that read back as the same
number; of several such numerals the nearest one is taken, and of two equally
near ones the even one.  Numbers from `1e-4` up to, but not including, `1e6` are
written without an exponent.

For a given count of digits only the two neighbours of the number on that
decimal grid can qualify, so they are tried in turn, the nearer first.  The test
is reading itself, so what is found reads back by construction.
-/

namespace JsonFit.Decimal

/-- Numbers whose first digit stands below this power of ten take an exponent. -/
abbrev lowestPositional : Int := -4

/-- Numbers whose first digit stands at this power of ten or above take an
exponent. -/
abbrev firstScientific : Int := 6

/-- An exponent with its sign, in at least two digits. -/
def writeExponent (e : Int) : Bytes :=
  let digits := Bytes.decimal e.natAbs
  (if e < 0 then Ascii.hyphen else Ascii.plus) ::
    (if digits.length < 2 then Ascii.zero :: digits else digits)

/-- Digits with a point behind the first one, and an exponent. -/
def scientific (digits : Bytes) (e : Int) : Bytes :=
  digits.take 1 ++ (if digits.length ≤ 1 then [] else Ascii.point :: digits.drop 1) ++
    Ascii.letterE :: writeExponent e

/-- Digits with the first one at the power of ten `e`, without an exponent. -/
def positional (digits : Bytes) (e : Int) : Bytes :=
  if e < 0 then
    Ascii.zero :: Ascii.point :: List.replicate (-e - 1).toNat Ascii.zero ++ digits
  else
    let whole := e.toNat + 1
    if digits.length ≤ whole then
      digits ++ List.replicate (whole - digits.length) Ascii.zero
    else digits.take whole ++ Ascii.point :: digits.drop whole

/-- The text of a number with the given digits, the first of them at the power
of ten `e`. -/
def layoutDigits (digits : Bytes) (e : Int) : Bytes :=
  if e < lowestPositional ∨ firstScientific ≤ e then scientific digits e
  else positional digits e

/-- The digits of a positive number without the zeros at its end. -/
def significand (n : Nat) : Bytes :=
  ((Bytes.decimal n).reverse.dropWhile (· == Ascii.zero)).reverse

/-- The text of `n * 10 ^ e` for positive `n`. -/
def layoutScaled (n : Nat) (e : Int) : Bytes :=
  layoutDigits (significand n) ((Bytes.decimal n).length - 1 + e)

/-- The power of ten of the first digit of a positive quotient. -/
def leadingExponent (num den : Nat) : Int :=
  let estimate : Int := ((Bytes.decimal num).length : Int) - (Bytes.decimal den).length
  let (powerNum, powerDen) := Binary64.scaled 10 den estimate
  if powerNum ≤ num * powerDen then estimate else estimate - 1

/-- The two neighbours of a positive quotient among the multiples of a power of
ten, the nearer one first and of two equally near ones the even one. -/
def neighbours (num den : Nat) (power : Int) : List Nat :=
  let (scaledNum, scale) := Binary64.scaled 10 num (-power)
  let total := den * scale
  let low := scaledNum / total
  let remainder := scaledNum % total
  if 2 * remainder < total ∨ (2 * remainder = total ∧ low % 2 = 0) then [low, low + 1]
  else [low + 1, low]

/-- The most digits that a number can need. -/
abbrev maximumDigits : Nat := 17

/-- A sign in front of the text of an absolute value. -/
def withSign (negative : Bool) (text : Bytes) : Bytes :=
  if negative then Ascii.hyphen :: text else text

/-- The numerals with `count + 1` digits that might stand for a number whose
first digit is at the power of ten `lead`. -/
def candidates (x : Binary64) (lead : Int) (count : Nat) : List Bytes :=
  let power := lead - count
  (neighbours x.ratio.1 x.ratio.2 power).map fun n =>
    withSign x.isNegative (layoutScaled n power)

/-- All digits of a finite number, and the power of ten of the last one. -/
def exactText (x : Binary64) : Bytes :=
  let (m, q) := x.parts
  withSign x.isNegative <|
    match q with
    | .ofNat q => Bytes.decimal (m * Nat.pow 2 q)
    | .negSucc q =>
        Bytes.decimal (m * Nat.pow 5 (q + 1)) ++
          Ascii.letterE :: Bytes.decimalInt (.negSucc q)

/-- The shortest numeral of a finite number other than zero. -/
def shortest (x : Binary64) : Bytes :=
  let lead := leadingExponent x.ratio.1 x.ratio.2
  ((List.range maximumDigits).findSome? fun count =>
    (candidates x lead count).find? fun text => read? text = some x).getD (exactText x)

/-- The text of a number. -/
def write (x : Binary64) : Bytes :=
  if x.isFinite then
    if x.magnitude = 0 then withSign x.isNegative [Ascii.zero] else shortest x
  else if x.magnitude = Binary64.infiniteMagnitude then
    Bytes.ofString (if x.isNegative then "-Inf" else "+Inf")
  else Bytes.ofString "NaN"

end JsonFit.Decimal
