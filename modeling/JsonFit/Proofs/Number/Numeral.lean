import JsonFit.Number.Shortest
import JsonFit.Proofs.Number.Rounding
import Mathlib.Data.Nat.Cast.Order.Ring
import Mathlib.Data.Nat.Log

/-!
# Reading numerals

A decimal numeral has the digits of its number and no zero in front.  Digits with
a sign in front and an exponent behind are taken apart as they were put
together, and what they denote is the number nearest to their value.
-/

namespace JsonFit

namespace Bytes

private theorem digitChar_facts : ∀ d < 10,
    Ascii.isDigit (ofAscii (Nat.digitChar d)) = true ∧
      Ascii.digitValue (ofAscii (Nat.digitChar d)) = d ∧
      (ofAscii (Nat.digitChar d) = Ascii.zero → d = 0) := by
  decide

theorem decimal_of_lt_ten {d : Nat} (small : d < 10) :
    decimal d = [ofAscii (Nat.digitChar d)] := by
  simp [decimal, Nat.toDigits_of_lt_base small]

theorem decimal_append_digit {n d : Nat} (positive : 0 < n) (small : d < 10) :
    decimal (10 * n + d) = decimal n ++ [ofAscii (Nat.digitChar d)] := by
  rw [decimal, ← Nat.toDigits_append_toDigits (by decide) positive small,
    Nat.toDigits_of_lt_base small, List.map_append]
  rfl

theorem decimal_ne_nil (n : Nat) : decimal n ≠ [] := by
  simp [decimal, Nat.toDigits_ne_nil]

theorem isDigit_of_mem_decimal (n : Nat) : ∀ b ∈ decimal n, Ascii.isDigit b = true := by
  induction n using Nat.base_induction 10 (by decide) with
  | single d small =>
      rw [decimal_of_lt_ten small]
      simpa using (digitChar_facts d small).1
  | digit n d small positive ih =>
      rw [decimal_append_digit positive small]
      simpa [or_imp, forall_and] using ⟨ih, (digitChar_facts d small).1⟩

/-- A numeral denotes its number. -/
@[simp]
theorem digitsValue_decimal (n : Nat) : digitsValue (decimal n) = n := by
  induction n using Nat.base_induction 10 (by decide) with
  | single d small =>
      rw [decimal_of_lt_ten small]
      simpa [digitsValue] using (digitChar_facts d small).2.1
  | digit n d small positive ih =>
      rw [decimal_append_digit positive small, digitsValue_append_singleton, ih,
        (digitChar_facts d small).2.1]

/-- A positive number has no zero in front. -/
theorem significant_decimal {n : Nat} (positive : 0 < n) :
    Decimal.significant (decimal n) = decimal n := by
  induction n using Nat.base_induction 10 (by decide) with
  | single d small =>
      rw [decimal_of_lt_ten small]
      have notZero : ofAscii (Nat.digitChar d) ≠ Ascii.zero := fun zero =>
        positive.ne' ((digitChar_facts d small).2.2 zero)
      simp [Decimal.significant, notZero]
  | digit n d small nPositive ih =>
      have kept : (decimal n).dropWhile (· == Ascii.zero) = decimal n := ih nPositive
      rw [decimal_append_digit nPositive small, Decimal.significant, List.dropWhile_append, kept]
      simp [decimal_ne_nil]

/-- The count of digits of a positive number, as bounds on the number. -/
theorem length_decimal_bounds {n : Nat} (positive : 0 < n) :
    10 ^ ((decimal n).length - 1) ≤ n ∧ n < 10 ^ (decimal n).length := by
  induction n using Nat.base_induction 10 (by decide) with
  | single d small =>
      rw [decimal_of_lt_ten small]
      exact ⟨positive, small⟩
  | digit n d small nPositive ih =>
      obtain ⟨low, high⟩ := ih nPositive
      obtain ⟨length, lengthEq⟩ :=
        Nat.exists_eq_succ_of_ne_zero (List.length_pos_of_ne_nil (decimal_ne_nil n)).ne'
      rw [decimal_append_digit nPositive small, List.length_append, List.length_singleton,
        Nat.add_sub_cancel]
      rw [lengthEq] at low high ⊢
      rw [Nat.succ_sub_one] at low
      rw [Nat.pow_succ] at high ⊢
      constructor <;> omega

end Bytes

namespace Decimal

theorem takeSign_withSign (negative : Bool) {b : UInt8} (digit : Ascii.isDigit b = true)
    (rest : Bytes) : takeSign (withSign negative (b :: rest)) = (negative, b :: rest) := by
  cases negative with
  | true => rfl
  | false =>
      have notPlus : b ≠ Ascii.plus := by rintro rfl; contradiction
      have notHyphen : b ≠ Ascii.hyphen := by rintro rfl; contradiction
      simp [withSign, takeSign, notPlus, notHyphen]

/-- An exponent below the limit is read in full. -/
theorem exponentValue_eq_digitsValue {digits : Bytes}
    (small : Bytes.digitsValue digits < exponentLimit) :
    exponentValue digits = Bytes.digitsValue digits := by
  induction digits using List.reverseRecOn with
  | nil => rfl
  | append_singleton digits d ih =>
      rw [Bytes.digitsValue_append_singleton] at small ⊢
      have smaller : Bytes.digitsValue digits < exponentLimit := by omega
      have value : exponentValue digits = Bytes.digitsValue digits := ih smaller
      rw [exponentValue, List.foldl_append, List.foldl_cons, List.foldl_nil]
      rw [exponentValue] at value
      rw [value, if_pos smaller]

/-- A negative exponent is read back. -/
theorem readExponent?_negative {k : Nat} (small : k < exponentLimit) :
    readExponent? (Ascii.letterE :: Ascii.hyphen :: Bytes.decimal k) = some (-(k : Int)) := by
  have digits : (Bytes.decimal k).all Ascii.isDigit = true :=
    List.all_eq_true.mpr (Bytes.isDigit_of_mem_decimal k)
  have value : exponentValue (Bytes.decimal k) = k := by
    rw [exponentValue_eq_digitsValue] <;> simp [small]
  have signed : takeSign (Ascii.hyphen :: Bytes.decimal k) = (true, Bytes.decimal k) := rfl
  simp [readExponent?, signed, digits, value, Bytes.decimal_ne_nil]

/-- What may stand in front of an exponent does not go on with digits. -/
theorem takeFraction_of_readExponent? {rest : Bytes} {e : Int}
    (exponent : readExponent? rest = some e) :
    rest.takeWhile Ascii.isDigit = [] ∧ rest.dropWhile Ascii.isDigit = rest ∧
      takeFraction rest = ([], rest) := by
  cases rest with
  | nil => exact ⟨rfl, rfl, rfl⟩
  | cons mark rest =>
      have isMark : mark = Ascii.letterE ∨ mark = Ascii.capitalE := by
        by_contra other
        simp [readExponent?, other] at exponent
      rcases isMark with rfl | rfl <;> exact ⟨rfl, rfl, rfl⟩

/-- A sign, digits and an exponent are taken apart as they were put together. -/
theorem Numeral.read?_withSign (negative : Bool) {digits rest : Bytes} {e : Int}
    (nonempty : digits ≠ []) (isDigits : ∀ b ∈ digits, Ascii.isDigit b = true)
    (exponent : readExponent? rest = some e) :
    Numeral.read? (withSign negative (digits ++ rest)) =
      some ⟨negative, digits, e, (significant digits).length⟩ := by
  obtain ⟨noDigits, allRest, noFraction⟩ := takeFraction_of_readExponent? exponent
  have signed : takeSign (withSign negative (digits ++ rest)) = (negative, digits ++ rest) := by
    obtain ⟨b, others, rfl⟩ := List.exists_cons_of_ne_nil nonempty
    exact takeSign_withSign negative (isDigits b List.mem_cons_self) (others ++ rest)
  have taken : (digits ++ rest).takeWhile Ascii.isDigit = digits := by
    rw [List.takeWhile_append_of_pos isDigits, noDigits, List.append_nil]
  have dropped : (digits ++ rest).dropWhile Ascii.isDigit = rest := by
    rw [List.dropWhile_append_of_pos isDigits, allRest]
  simp [Numeral.read?, signed, taken, dropped, noFraction, nonempty, exponent]

private theorem ten_pow_lt_two_pow : (10 : ℚ) ^ (-330 : Int) < 2 ^ (-1074 : Int) := by
  have compared : 2 ^ 1074 < 10 ^ 330 := by decide +kernel
  rw [zpow_neg, zpow_neg]
  apply inv_strictAnti₀ (by positivity)
  exact_mod_cast compared

private theorem two_pow_lt_ten_pow : (2 : ℚ) ^ (1024 : Int) < 10 ^ (310 : Int) := by
  have compared : 2 ^ 1024 < 10 ^ 310 := by decide +kernel
  exact_mod_cast compared

/-- The first digit of a numeral of a finite number other than zero is in reach. -/
theorem length_decimal_add_bounds {x : Binary64} (finite : x.isFinite = true)
    (nonzero : x.magnitude ≠ 0) {n : Nat} (positive : 0 < n) {e : Int}
    (value : (n : ℚ) * 10 ^ e = x.absValue) :
    -330 < ((Bytes.decimal n).length : Int) + e ∧ ((Bytes.decimal n).length : Int) + e ≤ 310 := by
  obtain ⟨low, high⟩ := Binary64.absValue_bounds finite nonzero
  obtain ⟨long, short⟩ := Bytes.length_decimal_bounds positive
  have some : 0 < (Bytes.decimal n).length := List.length_pos_of_ne_nil (Bytes.decimal_ne_nil n)
  generalize (Bytes.decimal n).length = length at long short some ⊢
  have short' : (n : ℚ) < 10 ^ (length : Int) := by exact_mod_cast short
  have long' : (10 : ℚ) ^ ((length : Int) - 1) ≤ n := by
    rw [← Int.natCast_one, ← Int.natCast_sub some]
    exact_mod_cast long
  constructor
  · apply (zpow_lt_zpow_iff_right₀ (by norm_num : (1 : ℚ) < 10)).mp
    calc (10 : ℚ) ^ (-330 : Int)
        < 2 ^ (-1074 : Int) := ten_pow_lt_two_pow
      _ ≤ n * 10 ^ e := value ▸ low
      _ < 10 ^ (length : Int) * 10 ^ e := by gcongr
      _ = 10 ^ ((length : Int) + e) := (zpow_add₀ (by norm_num) _ _).symm
  · have first : (length : Int) - 1 + e < 310 := by
      apply (zpow_lt_zpow_iff_right₀ (by norm_num : (1 : ℚ) < 10)).mp
      calc (10 : ℚ) ^ ((length : Int) - 1 + e)
          = 10 ^ ((length : Int) - 1) * 10 ^ e := zpow_add₀ (by norm_num) _ _
        _ ≤ n * 10 ^ e := by gcongr
        _ < 2 ^ (1024 : Int) := value ▸ high
        _ < 10 ^ (310 : Int) := two_pow_lt_ten_pow
    omega

/-- A numeral of a finite number other than zero denotes that number. -/
theorem Numeral.nearest?_eq {x : Binary64} (finite : x.isFinite = true)
    (nonzero : x.magnitude ≠ 0) {n whole : Nat} (positive : 0 < n) {e : Int}
    (value : (n : ℚ) * 10 ^ e = x.absValue) :
    Numeral.nearest? ⟨x.isNegative, Bytes.decimal n, e, whole⟩ = some x := by
  obtain ⟨low, high⟩ := length_decimal_add_bounds finite nonzero positive value
  have notTiny : ¬ (Bytes.decimal n).length + e < -330 := not_lt.mpr low.le
  simp only [Numeral.nearest?, Bytes.significant_decimal positive, Bytes.digitsValue_decimal,
    List.length_eq_zero_iff, Bytes.decimal_ne_nil, notTiny, or_self, not_lt.mpr high, if_false]
  apply Binary64.ofRatio?_absValue finite nonzero (Binary64.scaled_den_pos (by decide) n e)
  rw [Binary64.scaled_cast (by decide), ← value]
  norm_num

/-- The text is a numeral all of whose digits have places, and the number is the
nearest to it. -/
def ReadsNearest (text : Bytes) (x : Binary64) : Prop :=
  ∃ n, Numeral.read? text = some n ∧ n.whole ≤ Numeral.wholePlaces ∧ n.nearest? = some x

theorem ReadsNearest.read?_eq {text : Bytes} {x : Binary64} (reads : ReadsNearest text x) :
    read? text = some x := by
  obtain ⟨n, taken, whole, nearest⟩ := reads
  rw [read?, taken, Option.bind_some, Numeral.toBinary64?_of_whole_le whole, nearest]

/-- Digits and an exponent that make up the value of a number are read as that
number. -/
theorem readsNearest_withSign {x : Binary64} (finite : x.isFinite = true)
    (nonzero : x.magnitude ≠ 0) {n : Nat} (positive : 0 < n)
    (short : n < 10 ^ Numeral.wholePlaces) {e : Int} {rest : Bytes}
    (exponent : readExponent? rest = some e) (value : (n : ℚ) * 10 ^ e = x.absValue) :
    ReadsNearest (withSign x.isNegative (Bytes.decimal n ++ rest)) x := by
  have whole : (Bytes.decimal n).length ≤ Numeral.wholePlaces := by
    have low := (Bytes.length_decimal_bounds positive).1.trans_lt short
    have less := (Nat.pow_lt_pow_iff_right (by decide)).mp low
    omega
  have taken := Numeral.read?_withSign x.isNegative (Bytes.decimal_ne_nil n)
    (Bytes.isDigit_of_mem_decimal n) exponent
  rw [Bytes.significant_decimal positive] at taken
  exact ⟨_, taken, whole, Numeral.nearest?_eq finite nonzero positive value⟩

/-- Only finite numbers are read. -/
theorem isFinite_of_read? {text : Bytes} {x : Binary64} (read : read? text = some x) :
    x.isFinite = true := by
  have nearest {n : Numeral} (found : n.nearest? = some x) : x.isFinite = true := by
    rw [Numeral.nearest?] at found
    split at found
    · cases found
      exact Binary64.isFinite_ofMagnitude _ (by decide)
    · split at found
      · contradiction
      · exact Binary64.isFinite_of_ofRatio? found
  obtain ⟨n, _, denotes⟩ := Option.bind_eq_some_iff.mp read
  rw [Numeral.toBinary64?] at denotes
  split at denotes <;> exact nearest denotes

end Decimal

end JsonFit
