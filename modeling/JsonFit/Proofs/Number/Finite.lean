import JsonFit.Proofs.Number.Rounding

/-!
# Rounding into range

A quotient below `2 ^ 1023` is rounded to a finite number.  So integers of a
machine word and the finite single-precision numbers become finite numbers.
-/

namespace JsonFit.Binary64

/-- A positive quotient has a first binary place. -/
theorem exists_firstPlace {num den : Nat} (numPositive : 0 < num) (denPositive : 0 < den) :
    ∃ first : Int, (den : ℚ) * 2 ^ first ≤ num ∧ (num : ℚ) < den * 2 ^ (first + 1) := by
  obtain ⟨below, above⟩ := log2_sub_log2_bounds numPositive denPositive
  by_cases less : (num : ℚ) < den * 2 ^ ((Nat.log2 num : Int) - Nat.log2 den)
  · exact ⟨_, below.le, by rwa [Int.sub_add_cancel]⟩
  · exact ⟨_, not_lt.mp less, above⟩

theorem roundDiv_le {num den m : Nat} (below : num < den * m) : roundDiv num den ≤ m := by
  have quotient : num / den < m := Nat.div_lt_of_lt_mul below
  rw [roundDiv]
  split <;> omega

/-- A quotient that is not too large has a magnitude. -/
theorem exists_magnitudeOfRatio? {num den : Nat} (denPositive : 0 < den)
    (small : (num : ℚ) < den * 2 ^ (1023 : Int)) :
    ∃ m < infiniteMagnitude, magnitudeOfRatio? num den = some m := by
  by_cases zero : num = 0
  · exact ⟨0, by decide, by rw [magnitudeOfRatio?, if_pos zero]⟩
  · have denPositive' : (0 : ℚ) < den := by exact_mod_cast denPositive
    obtain ⟨first, low, high⟩ := exists_firstPlace (Nat.pos_of_ne_zero zero) denPositive
    have firstLt : first < 1023 :=
      (zpow_lt_zpow_iff_right₀ one_lt_two).mp
        (lt_of_mul_lt_mul_left (low.trans_lt small) denPositive'.le)
    have placeEq := lastPlace_eq denPositive low high
    have below : (num : ℚ) < den * 2 ^ (lastPlace num den + 53) := by
      refine high.trans_le (mul_le_mul_of_nonneg_left ?_ denPositive'.le)
      exact zpow_le_zpow_right₀ one_le_two (by omega)
    have placeLe : (lastPlace num den + 1074).toNat ≤ 2044 := by omega
    rw [magnitudeOfRatio?, if_neg zero]
    generalize lastPlace num den = place at below placeLe ⊢
    rw [zpow_add₀ two_ne_zero] at below
    have fits {significand : Nat} (le : significand ≤ 2 ^ 53) :
        significand + (place + 1074).toNat * fractionCount < infiniteMagnitude := by
      have places := Nat.mul_le_mul_right fractionCount placeLe
      norm_num [fractionCount, infiniteMagnitude] at places le ⊢
      omega
    cases place with
    | ofNat q =>
        have below' : num < den * 2 ^ q * 2 ^ 53 := by
          rw [Int.ofNat_eq_natCast, zpow_natCast, ← mul_assoc] at below
          exact_mod_cast below
        have le := roundDiv_le below'
        exact ⟨_, fits le, if_pos (fits le)⟩
    | negSucc q =>
        have below' : num * 2 ^ (q + 1) < den * 2 ^ 53 := by
          rw [zpow_negSucc, mul_left_comm, ← div_eq_inv_mul, lt_div_iff₀ (by positivity)] at below
          exact_mod_cast below
        have le := roundDiv_le below'
        exact ⟨_, fits le, if_pos (fits le)⟩

theorem isFinite_getD {num den : Nat} (denPositive : 0 < den)
    (small : (num : ℚ) < den * 2 ^ (1023 : Int)) (negative : Bool) :
    (ofMagnitude negative ((magnitudeOfRatio? num den).getD infiniteMagnitude)).isFinite =
      true := by
  obtain ⟨m, finite, found⟩ := exists_magnitudeOfRatio? denPositive small
  rw [found]
  exact isFinite_ofMagnitude negative finite

/-- Integers of a machine word become finite numbers. -/
theorem isFinite_ofInt {n : Int} (small : n.natAbs ≤ 2 ^ 64) : (ofInt n).isFinite = true := by
  apply isFinite_getD Nat.one_pos
  have small' : (n.natAbs : ℚ) ≤ 2 ^ (64 : Int) := by exact_mod_cast small
  have less : (2 : ℚ) ^ (64 : Int) < 2 ^ (1023 : Int) :=
    (zpow_lt_zpow_iff_right₀ one_lt_two).mpr (by decide)
  rw [Nat.cast_one, one_mul]
  exact small'.trans_lt less

/-- Finite single-precision numbers become finite numbers. -/
theorem isFinite_ofBinary32 {bits : UInt32} (finite : bits.toNat / 0x800000 % 0x100 ≠ 255) :
    (ofBinary32 bits).isFinite = true := by
  have rounds {m : Nat} {e : Int} (short : m < 2 ^ 24) (low : e ≤ 999) (negative : Bool) :
      (ofMagnitude negative ((magnitudeOfRatio? (scaled 2 m e).1 (scaled 2 m e).2).getD
        infiniteMagnitude)).isFinite = true := by
    have denPositive := scaled_den_pos Nat.two_pos m e
    have short' : (m : ℚ) < 2 ^ (24 : Int) := by exact_mod_cast short
    have value : (m : ℚ) * 2 ^ e < 2 ^ (1023 : Int) :=
      calc (m : ℚ) * 2 ^ e
          < 2 ^ (24 : Int) * 2 ^ e := by gcongr
        _ ≤ 2 ^ (24 : Int) * 2 ^ (999 : Int) := by gcongr; exact one_le_two
        _ = 2 ^ (1023 : Int) := (zpow_add₀ two_ne_zero _ _).symm
    apply isFinite_getD denPositive
    have denPositive' : (0 : ℚ) < (scaled 2 m e).2 := by exact_mod_cast denPositive
    rw [scaled_cast Nat.two_pos, Nat.cast_ofNat, mul_comm]
    exact mul_lt_mul_of_pos_left value denPositive'
  have fraction : bits.toNat % 0x800000 < 2 ^ 23 := Nat.mod_lt _ (by decide)
  have biased : bits.toNat / 0x800000 % 0x100 < 0x100 := Nat.mod_lt _ (by decide)
  rw [ofBinary32]
  dsimp only
  rw [if_neg finite]
  split
  · exact rounds (by omega) (by decide) _
  · exact rounds (by omega) (by omega) _

end JsonFit.Binary64
