import JsonFit.Number.Binary64
import Mathlib.Algebra.Order.Field.Power
import Mathlib.Data.Rat.Cast.Order
import Mathlib.Tactic.FieldSimp
import Mathlib.Tactic.Positivity
import Mathlib.Tactic.Ring
import Mathlib.Tactic.Linarith
import Mathlib.Tactic.NormNum

/-!
# Rounding an exact value

Rounding a quotient gives a finite number back if the quotient is the absolute
value of that number.  The quotient need not be in lowest terms, so everything
about it is said by its value as a rational number; `lastPlace` depends on that
value only.
-/

namespace JsonFit.Binary64

/-- The absolute value of a finite number. -/
def absValue (x : Binary64) : ℚ :=
  x.parts.1 * 2 ^ x.parts.2

theorem toNat_ofMagnitude (negative : Bool) {m : Nat} (small : m < signBit) :
    (ofMagnitude negative m).bits.toNat = m + if negative then signBit else 0 := by
  have fits : m + (if negative then signBit else 0) < 2 ^ 64 := by
    cases negative with
    | false => exact small.trans (by decide)
    | true => exact Nat.add_lt_add_right small signBit
  exact (UInt64.toNat_ofNat' ..).trans (Nat.mod_eq_of_lt fits)

theorem magnitude_ofMagnitude (negative : Bool) {m : Nat} (small : m < signBit) :
    (ofMagnitude negative m).magnitude = m := by
  rw [magnitude, toNat_ofMagnitude negative small]
  cases negative with
  | false => exact Nat.mod_eq_of_lt small
  | true => exact (Nat.add_mod_right m signBit).trans (Nat.mod_eq_of_lt small)

/-- A number is made of its sign and its magnitude. -/
theorem ofMagnitude_magnitude (x : Binary64) : ofMagnitude x.isNegative x.magnitude = x := by
  have fits : x.bits.toNat < 2 * signBit := x.bits.toNat_lt
  rcases x with ⟨bits⟩
  simp only [ofMagnitude, magnitude, isNegative, decide_eq_true_eq, mk.injEq]
  by_cases negative : signBit ≤ bits.toNat
  · have magnitudeEq : bits.toNat % signBit = bits.toNat - signBit := by
      rw [Nat.mod_eq_sub_mod negative]
      exact Nat.mod_eq_of_lt (Nat.sub_lt_left_of_lt_add negative (by omega))
    rw [if_pos negative, magnitudeEq, Nat.sub_add_cancel negative]
    exact UInt64.ofNat_toNat
  · rw [if_neg negative, Nat.mod_eq_of_lt (Nat.lt_of_not_ge negative), Nat.add_zero]
    exact UInt64.ofNat_toNat

theorem isFinite_ofMagnitude (negative : Bool) {m : Nat} (small : m < infiniteMagnitude) :
    (ofMagnitude negative m).isFinite = true := by
  have magnitudeEq := magnitude_ofMagnitude negative (small.trans (by decide : _ < signBit))
  simpa [isFinite, magnitudeEq] using small

/-- Rounding never gives an infinite number. -/
theorem isFinite_of_ofRatio? {negative : Bool} {num den : Nat} {x : Binary64}
    (rounded : ofRatio? negative num den = some x) : x.isFinite = true := by
  obtain ⟨m, found, rfl⟩ := Option.map_eq_some_iff.mp rounded
  apply isFinite_ofMagnitude
  by_cases zero : num = 0
  · rw [magnitudeOfRatio?, if_pos zero] at found
    cases found
    decide
  · rw [magnitudeOfRatio?, if_neg zero] at found
    obtain ⟨small, equal⟩ := Option.ite_none_right_eq_some.mp found
    cases equal
    exact small

/-- A number has the least exponent and any fraction, or a leading bit in front of
its fraction. -/
theorem parts_cases (x : Binary64) :
    (x.magnitude < fractionCount ∧ x.parts = (x.magnitude, -1074)) ∨
    ∃ place fraction, fraction < fractionCount ∧
      x.magnitude = (place + 1) * fractionCount + fraction ∧
      x.parts = (fractionCount + fraction, (place : Int) - 1074) := by
  have whole := Nat.div_add_mod' x.magnitude fractionCount
  have fits : x.magnitude % fractionCount < fractionCount := Nat.mod_lt _ (by decide)
  unfold parts
  cases exponent : x.magnitude / fractionCount with
  | zero =>
      rw [exponent, Nat.zero_mul, Nat.zero_add] at whole
      rw [whole] at fits ⊢
      exact .inl ⟨fits, rfl⟩
  | succ place =>
      rw [exponent] at whole
      refine .inr ⟨place, x.magnitude % fractionCount, fits, whole.symm, ?_⟩
      simp only [Nat.add_eq_zero_iff, Nat.one_ne_zero, and_false, ↓reduceIte, Prod.mk.injEq,
        true_and]
      omega

/-- The significand and the exponent of a finite number are in their ranges, and
the significand has all its bits unless the exponent is the least one. -/
theorem parts_bounds {x : Binary64} (finite : x.isFinite = true) :
    x.parts.1 < 2 ^ 53 ∧ (2 ^ 52 ≤ x.parts.1 ∨ x.parts.2 = -1074) ∧
      -1074 ≤ x.parts.2 ∧ x.parts.2 ≤ 971 := by
  have small : x.magnitude < 2047 * fractionCount := of_decide_eq_true finite
  rcases parts_cases x with ⟨fits, partsEq⟩ | ⟨place, fraction, fits, magnitudeEq, partsEq⟩
  · rw [partsEq]
    exact ⟨fits.trans (by decide), .inr rfl, le_refl _, (by decide : (-1074 : Int) ≤ 971)⟩
  · have placeFits : place + 1 < 2047 :=
      Nat.lt_of_mul_lt_mul_right (Nat.lt_of_add_right_lt (magnitudeEq ▸ small))
    rw [partsEq]
    exact ⟨Nat.add_lt_add_left fits _, .inl (Nat.le_add_right _ _), by omega, by omega⟩

/-- The magnitude bits count the places of the significand. -/
theorem magnitude_eq (x : Binary64) :
    x.magnitude = x.parts.1 + (x.parts.2 + 1074).toNat * fractionCount := by
  rcases parts_cases x with ⟨_, partsEq⟩ | ⟨place, fraction, _, magnitudeEq, partsEq⟩
  · simp [partsEq]
  · simp only [partsEq, magnitudeEq, Int.sub_add_cancel, Int.toNat_natCast]
    ring

theorem parts_pos {x : Binary64} (nonzero : x.magnitude ≠ 0) : 0 < x.parts.1 := by
  rcases parts_cases x with ⟨_, partsEq⟩ | ⟨place, fraction, _, _, partsEq⟩
  · simpa [partsEq] using Nat.pos_of_ne_zero nonzero
  · rw [partsEq]
    exact Nat.add_pos_left (by decide) fraction

/-- The finite numbers other than zero lie between two powers of two. -/
theorem absValue_bounds {x : Binary64} (finite : x.isFinite = true) (nonzero : x.magnitude ≠ 0) :
    2 ^ (-1074 : Int) ≤ x.absValue ∧ x.absValue < 2 ^ (1024 : Int) := by
  obtain ⟨small, _, low, high⟩ := parts_bounds finite
  have positive : (1 : ℚ) ≤ x.parts.1 := by exact_mod_cast parts_pos nonzero
  have small' : (x.parts.1 : ℚ) < 2 ^ (53 : Int) := by exact_mod_cast small
  constructor
  · calc (2 : ℚ) ^ (-1074 : Int)
        ≤ 2 ^ x.parts.2 := zpow_le_zpow_right₀ one_le_two low
      _ ≤ x.parts.1 * 2 ^ x.parts.2 := le_mul_of_one_le_left (by positivity) positive
  · calc (x.parts.1 : ℚ) * 2 ^ x.parts.2
        < 2 ^ (53 : Int) * 2 ^ x.parts.2 := by gcongr
      _ = 2 ^ (53 + x.parts.2) := (zpow_add₀ two_ne_zero _ _).symm
      _ ≤ 2 ^ (1024 : Int) := zpow_le_zpow_right₀ one_le_two (by omega)

/-! ## Quotients -/

theorem scaled_den_pos {base : Nat} (positive : 0 < base) (n : Nat) (e : Int) :
    0 < (scaled base n e).2 := by
  cases e with
  | ofNat e => exact Nat.one_pos
  | negSucc e => exact Nat.pow_pos positive

/-- The value of a scaled number. -/
theorem scaled_cast {base : Nat} (positive : 0 < base) (n : Nat) (e : Int) :
    ((scaled base n e).1 : ℚ) = n * base ^ e * (scaled base n e).2 := by
  cases e with
  | ofNat e => simp [scaled]
  | negSucc e =>
      have nonzero : (base : ℚ) ^ (e + 1) ≠ 0 := by positivity
      simp [scaled, zpow_negSucc, nonzero]

theorem belowPower_iff {num den : Nat} (e : Int) :
    belowPower num den e = true ↔ (num : ℚ) < den * 2 ^ e := by
  cases e with
  | ofNat e =>
      simp only [belowPower, decide_eq_true_eq, Int.ofNat_eq_natCast, zpow_natCast]
      exact_mod_cast Iff.rfl
  | negSucc e =>
      have positive : (0 : ℚ) < 2 ^ (e + 1) := by positivity
      rw [zpow_negSucc, lt_mul_inv_iff₀ positive]
      simp only [belowPower, decide_eq_true_eq]
      exact_mod_cast Iff.rfl

/-- The quotient of the two highest powers of two is at most one place above the
first place of the quotient, and not below it. -/
theorem log2_sub_log2_bounds {num den : Nat} (numPositive : 0 < num) (denPositive : 0 < den) :
    (den : ℚ) * 2 ^ ((Nat.log2 num : Int) - Nat.log2 den - 1) < num ∧
      (num : ℚ) < den * 2 ^ ((Nat.log2 num : Int) - Nat.log2 den + 1) := by
  have numLow : (2 : ℚ) ^ Nat.log2 num ≤ num := by
    exact_mod_cast Nat.log2_self_le numPositive.ne'
  have numHigh : (num : ℚ) < 2 ^ (Nat.log2 num + 1) := by
    exact_mod_cast Nat.lt_log2_self
  have denLow : (2 : ℚ) ^ Nat.log2 den ≤ den := by
    exact_mod_cast Nat.log2_self_le denPositive.ne'
  have denHigh : (den : ℚ) < 2 ^ (Nat.log2 den + 1) := by
    exact_mod_cast Nat.lt_log2_self
  constructor
  · calc (den : ℚ) * 2 ^ ((Nat.log2 num : Int) - Nat.log2 den - 1)
        < 2 ^ (Nat.log2 den + 1) * 2 ^ ((Nat.log2 num : Int) - Nat.log2 den - 1) := by
          gcongr
      _ = 2 ^ Nat.log2 num := by
          rw [← zpow_natCast, ← zpow_natCast, ← zpow_add₀ two_ne_zero]
          congr 1
          push_cast
          ring
      _ ≤ num := numLow
  · calc (num : ℚ) < 2 ^ (Nat.log2 num + 1) := numHigh
      _ = 2 ^ Nat.log2 den * 2 ^ ((Nat.log2 num : Int) - Nat.log2 den + 1) := by
          rw [← zpow_natCast, ← zpow_natCast, ← zpow_add₀ two_ne_zero]
          congr 1
          push_cast
          ring
      _ ≤ den * 2 ^ ((Nat.log2 num : Int) - Nat.log2 den + 1) := by
          gcongr

/-- The last place is 52 places behind the first one, but not behind the last
place of the smallest number. -/
theorem lastPlace_eq {num den : Nat} (denPositive : 0 < den) {first : Int}
    (low : (den : ℚ) * 2 ^ first ≤ num) (high : (num : ℚ) < den * 2 ^ (first + 1)) :
    lastPlace num den = max (first - 52) (-1074) := by
  have denPositive' : (0 : ℚ) < den := by exact_mod_cast denPositive
  have numPositive' : (0 : ℚ) < num := low.trans_lt' (by positivity)
  have numPositive : 0 < num := by exact_mod_cast numPositive'
  obtain ⟨below, above⟩ := log2_sub_log2_bounds numPositive denPositive
  have compare {a b : Int} (less : (den : ℚ) * 2 ^ a < den * 2 ^ b) : a < b :=
    (zpow_lt_zpow_iff_right₀ one_lt_two).mp (lt_of_mul_lt_mul_left less denPositive'.le)
  have estimateLe : (Nat.log2 num : Int) - Nat.log2 den - 1 < first + 1 :=
    compare (below.trans high)
  have leEstimate : first < (Nat.log2 num : Int) - Nat.log2 den + 1 :=
    compare (low.trans_lt above)
  unfold lastPlace
  by_cases less : belowPower num den ((Nat.log2 num : Int) - Nat.log2 den) = true
  · have above : first < (Nat.log2 num : Int) - Nat.log2 den :=
      compare (low.trans_lt ((belowPower_iff _).mp less))
    simp only [less, ↓reduceIte]
    congr 1
    omega
  · have notAbove : ¬ first < (Nat.log2 num : Int) - Nat.log2 den := by
      intro above
      apply less
      apply (belowPower_iff _).mpr
      refine high.trans_le (mul_le_mul_of_nonneg_left ?_ denPositive'.le)
      exact zpow_le_zpow_right₀ one_le_two (by omega)
    simp only [less, Bool.false_eq_true, ↓reduceIte]
    congr 1
    omega

theorem roundDiv_mul (m : Nat) {den : Nat} (positive : 0 < den) :
    roundDiv (m * den) den = m := by
  simp [roundDiv, Nat.mul_div_cancel m positive, positive.ne]

/-- A quotient that is a whole number of units of its last place is rounded to
that number of units. -/
theorem magnitudeOfRatio?_exact {num den m : Nat} (denPositive : 0 < den) (positive : 0 < m)
    (value : (num : ℚ) = m * 2 ^ lastPlace num den * den)
    (fits : m + (lastPlace num den + 1074).toNat * fractionCount < infiniteMagnitude) :
    magnitudeOfRatio? num den = some (m + (lastPlace num den + 1074).toNat * fractionCount) := by
  have nonzero : num ≠ 0 := by
    rintro rfl
    have zero : (m : ℚ) * 2 ^ lastPlace 0 den * den ≠ 0 := by positivity
    exact zero (by simpa using value.symm)
  rw [magnitudeOfRatio?, if_neg nonzero]
  generalize lastPlace num den = place at value fits ⊢
  cases place with
  | ofNat q =>
      have numEq : num = m * (den * 2 ^ q) := by
        have value' : (num : ℚ) = m * (den * 2 ^ q) := by
          rw [value, Int.ofNat_eq_natCast, zpow_natCast]
          ring
        exact_mod_cast value'
      have rounded : roundDiv num (den * Nat.pow 2 q) = m :=
        numEq ▸ roundDiv_mul m (Nat.mul_pos denPositive (Nat.two_pow_pos q))
      simp only [rounded]
      exact if_pos fits
  | negSucc q =>
      have numEq : num * 2 ^ (q + 1) = m * den := by
        have value' : (num : ℚ) * 2 ^ (q + 1) = m * den := by
          rw [value, zpow_negSucc]
          field_simp
        exact_mod_cast value'
      have rounded : roundDiv (num * Nat.pow 2 (q + 1)) den = m :=
        (congrArg (roundDiv · den) numEq).trans (roundDiv_mul m denPositive)
      simp only [rounded]
      exact if_pos fits

/-- The last place of the absolute value of a finite number is its exponent. -/
theorem lastPlace_absValue {x : Binary64} (finite : x.isFinite = true)
    (nonzero : x.magnitude ≠ 0) {num den : Nat} (denPositive : 0 < den)
    (value : (num : ℚ) = x.absValue * den) : lastPlace num den = x.parts.2 := by
  obtain ⟨small, normal, low, _⟩ := parts_bounds finite
  have positive := parts_pos nonzero
  have denPositive' : (0 : ℚ) < den := by exact_mod_cast denPositive
  have mLow : (2 : ℚ) ^ Nat.log2 x.parts.1 ≤ x.parts.1 := by
    exact_mod_cast Nat.log2_self_le positive.ne'
  have mHigh : (x.parts.1 : ℚ) < 2 ^ (Nat.log2 x.parts.1 + 1) := by
    exact_mod_cast Nat.lt_log2_self
  have power (e : Nat) : (den : ℚ) * 2 ^ (x.parts.2 + e) = 2 ^ e * 2 ^ x.parts.2 * den := by
    rw [zpow_add₀ two_ne_zero, zpow_natCast]
    ring
  have place : lastPlace num den = max (x.parts.2 + Nat.log2 x.parts.1 - 52) (-1074) := by
    apply lastPlace_eq denPositive
    · rw [power, value, absValue]
      gcongr
    · rw [add_assoc, ← Nat.cast_add_one, power, value, absValue]
      gcongr
  have bits : Nat.log2 x.parts.1 < 53 := (Nat.log2_lt positive.ne').mpr small
  rw [place]
  rcases normal with normal | least
  · have bits' : 52 ≤ Nat.log2 x.parts.1 := (Nat.le_log2 positive.ne').mpr normal
    omega
  · omega

/-- A quotient equal to the absolute value of a finite number is rounded to that
number. -/
theorem ofRatio?_absValue {x : Binary64} (finite : x.isFinite = true)
    (nonzero : x.magnitude ≠ 0) {num den : Nat} (denPositive : 0 < den)
    (value : (num : ℚ) = x.absValue * den) :
    ofRatio? x.isNegative num den = some x := by
  have placeEq := lastPlace_absValue finite nonzero denPositive value
  have magnitudeEq := magnitude_eq x
  rw [← placeEq] at magnitudeEq
  have fits : x.magnitude < infiniteMagnitude := of_decide_eq_true finite
  have rounded : magnitudeOfRatio? num den = some x.magnitude := by
    rw [magnitudeEq] at fits ⊢
    exact magnitudeOfRatio?_exact denPositive (parts_pos nonzero) (placeEq ▸ value) fits
  rw [ofRatio?, rounded]
  exact congrArg some (ofMagnitude_magnitude x)

end JsonFit.Binary64
