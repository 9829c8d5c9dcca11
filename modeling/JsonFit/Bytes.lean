import JsonFit.Ascii

/-!
# Byte strings

Every text in this library is a list of bytes.  Nothing is assumed about its
encoding: offsets, lengths and widths count bytes, and a text that is not valid
UTF-8 is as good as any other.

The file supplies string constants, decimal numerals and substring search.
-/

namespace JsonFit

/-- A text is a list of bytes. -/
abbrev Bytes := List UInt8

namespace Bytes

/-- The UTF-8 bytes of a string constant. -/
def ofString (s : String) : Bytes :=
  s.toByteArray.data.toList

/-- The byte of an ASCII character. -/
def ofAscii (c : Char) : UInt8 :=
  UInt8.ofNat c.toNat

/-- Decimal numeral of a natural number, without leading zeros. -/
def decimal (n : Nat) : Bytes :=
  (Nat.toDigits 10 n).map ofAscii

/-- Decimal numeral of an integer, with a minus sign when it is negative. -/
def decimalInt : Int → Bytes
  | .ofNat n => decimal n
  | .negSucc n => Ascii.hyphen :: decimal (n + 1)

/-- The lowest `width` hexadecimal digits of `n`, most significant first. -/
def hex : (width : Nat) → (n : Nat) → Bytes
  | 0, _ => []
  | width + 1, n => hex width (n / 16) ++ [Ascii.hexDigit (n % 16)]

@[simp]
theorem hex_length (width n : Nat) : (hex width n).length = width := by
  induction width generalizing n with
  | zero => rfl
  | succ width ih => simp [hex, ih]

/-- The number that a run of decimal digits denotes. -/
def digitsValue (ds : Bytes) : Nat :=
  ds.foldl (fun n d => 10 * n + Ascii.digitValue d) 0

@[simp]
theorem digitsValue_nil : digitsValue [] = 0 :=
  rfl

theorem digitsValue_append_singleton (ds : Bytes) (d : UInt8) :
    digitsValue (ds ++ [d]) = 10 * digitsValue ds + Ascii.digitValue d := by
  simp [digitsValue]

/-- Offset of the first occurrence of `needle`, if there is one.  The empty
needle occurs at once. -/
def find? (needle : Bytes) : Bytes → Option Nat
  | [] => if needle.isEmpty then some 0 else none
  | b :: bs =>
      if needle.isPrefixOf (b :: bs) then some 0 else (find? needle bs).map (· + 1)

/-- An occurrence found lies inside the text. -/
theorem find?_le_length {needle text : Bytes} {i : Nat}
    (h : find? needle text = some i) : i ≤ text.length := by
  induction text generalizing i with
  | nil =>
      simp only [find?] at h
      split at h <;> simp_all
  | cons b bs ih =>
      simp only [find?] at h
      split at h
      · obtain rfl : 0 = i := Option.some.inj h
        exact Nat.zero_le _
      · obtain ⟨j, hj, rfl⟩ := Option.map_eq_some_iff.1 h
        simpa using ih hj

/-- Byte strings are ordered byte by byte; a proper initial part comes first. -/
def le (a b : Bytes) : Bool :=
  !decide (b < a)

theorem le_iff {a b : Bytes} : le a b = true ↔ a ≤ b := by
  rw [le, Bool.not_eq_true', decide_eq_false_iff_not, List.not_lt]

end Bytes

end JsonFit
