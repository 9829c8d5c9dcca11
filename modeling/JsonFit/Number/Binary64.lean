import JsonFit.Bytes

/-!
# Double-precision numbers

A number is kept as its 64 bits: a sign, eleven bits of exponent and 52 bits of
fraction.  Everything about it is said in exact arithmetic on natural numbers: a
finite number is `m * 2 ^ q` for the pair `(m, q)` that `parts` gives, and
`ofRatio?` rounds a quotient to the nearest number, a tie to the even one.
-/

namespace JsonFit

/-- A double-precision number, by its bits. -/
structure Binary64 where
  /-- Sign, exponent and fraction, from high to low. -/
  bits : UInt64
  deriving DecidableEq, Repr

namespace Binary64

/-- The number of fractions, two to the power 52. -/
abbrev fractionCount : Nat := 0x10000000000000

/-- The sign bit, two to the power 63. -/
abbrev signBit : Nat := 0x8000000000000000

/-- Magnitudes from here on are infinite or no numbers. -/
abbrev infiniteMagnitude : Nat := 2047 * fractionCount

/-- Is the sign bit set? -/
def isNegative (x : Binary64) : Bool :=
  decide (signBit ≤ x.bits.toNat)

/-- The bits without the sign. -/
def magnitude (x : Binary64) : Nat :=
  x.bits.toNat % signBit

/-- Neither infinite nor undefined. -/
def isFinite (x : Binary64) : Bool :=
  decide (x.magnitude < infiniteMagnitude)

/-- The number with the given sign and magnitude bits. -/
def ofMagnitude (negative : Bool) (magnitude : Nat) : Binary64 :=
  ⟨UInt64.ofNat (magnitude + if negative then signBit else 0)⟩

/-- The significand and the exponent of a finite number: its absolute value is
`m * 2 ^ q`. -/
def parts (x : Binary64) : Nat × Int :=
  let biased : Nat := x.magnitude / fractionCount
  let fraction := x.magnitude % fractionCount
  if biased = 0 then (fraction, -1074) else (fractionCount + fraction, (biased : Int) - 1075)

/-- The product `n * base ^ e` as a quotient, for an exponent of either sign. -/
def scaled (base n : Nat) : (e : Int) → Nat × Nat
  | .ofNat e => (n * Nat.pow base e, 1)
  | .negSucc e => (n, Nat.pow base (e + 1))

/-- The absolute value of a finite number as a quotient. -/
def ratio (x : Binary64) : Nat × Nat :=
  scaled 2 x.parts.1 x.parts.2

/-- The quotient of two numbers, rounded to the nearest integer, a tie to the
even one. -/
def roundDiv (num den : Nat) : Nat :=
  let quotient := num / den
  let remainder := num % den
  if den < 2 * remainder ∨ (2 * remainder = den ∧ quotient % 2 = 1) then quotient + 1
  else quotient

/-- Is `num / den` below `2 ^ e`? -/
def belowPower (num den : Nat) : (e : Int) → Bool
  | .ofNat e => num < den * Nat.pow 2 e
  | .negSucc e => num * Nat.pow 2 (e + 1) < den

/-- The exponent of the last place of a positive quotient: the least one, not
below that of the smallest number, that leaves at most 53 bits before the
binary point. -/
def lastPlace (num den : Nat) : Int :=
  let estimate : Int := (Nat.log2 num : Int) - Nat.log2 den
  max (if belowPower num den estimate then estimate - 53 else estimate - 52) (-1074)

/-- The magnitude bits of the number nearest to a quotient, unless the quotient
is too large. -/
def magnitudeOfRatio? (num den : Nat) : Option Nat :=
  if num = 0 then some 0
  else
    let place := lastPlace num den
    let significand :=
      match place with
      | .ofNat q => roundDiv num (den * Nat.pow 2 q)
      | .negSucc q => roundDiv (num * Nat.pow 2 (q + 1)) den
    let magnitude := significand + (place + 1074).toNat * fractionCount
    if magnitude < infiniteMagnitude then some magnitude else none

/-- The number nearest to a quotient, with a sign. -/
def ofRatio? (negative : Bool) (num den : Nat) : Option Binary64 :=
  (magnitudeOfRatio? num den).map (ofMagnitude negative)

/-- The number nearest to an integer; one that is too large becomes infinite. -/
def ofInt (n : Int) : Binary64 :=
  ofMagnitude (decide (n < 0)) ((magnitudeOfRatio? n.natAbs 1).getD infiniteMagnitude)

/-- The double-precision number equal to a single-precision one, given by its
32 bits.  What is infinite or undefined stays so. -/
def ofBinary32 (bits : UInt32) : Binary64 :=
  let negative := decide (0x80000000 ≤ bits.toNat)
  let biased : Nat := bits.toNat / 0x800000 % 0x100
  let fraction := bits.toNat % 0x800000
  if biased = 255 then ofMagnitude negative (infiniteMagnitude + fraction * 0x20000000)
  else
    let (num, den) :=
      if biased = 0 then scaled 2 fraction (-149)
      else scaled 2 (0x800000 + fraction) ((biased : Int) - 150)
    ofMagnitude negative ((magnitudeOfRatio? num den).getD infiniteMagnitude)

end Binary64

end JsonFit
