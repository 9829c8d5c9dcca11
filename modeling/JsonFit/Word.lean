/-!
# Signed 64-bit arithmetic

Offsets, indentations and widths are signed 64-bit numbers whose sums and
differences wrap around.  They are kept as integers in the range of the word;
`wrap` brings a result back into it.
-/

namespace JsonFit.Word

/-- The number of values of a word, two to the power 64. -/
abbrev modulus : Nat := 18446744073709551616

/-- The least word. -/
abbrev minimum : Int := -9223372036854775808

/-- The greatest word. -/
abbrev maximum : Int := 9223372036854775807

/-- The word congruent to `n` modulo `2 ^ 64`. -/
def wrap (n : Int) : Int :=
  Int.bmod n modulus

/-- Is `n` in the range of a word? -/
def InRange (n : Int) : Prop :=
  minimum ≤ n ∧ n ≤ maximum

instance (n : Int) : Decidable (InRange n) :=
  inferInstanceAs (Decidable (_ ∧ _))

/-- Of a number that is not negative, only the upper bound matters. -/
theorem inRange_of_nonneg {n : Int} (nonneg : 0 ≤ n) (le : n ≤ maximum) : InRange n :=
  ⟨Int.le_trans (by decide) nonneg, le⟩

/-- Wrapping leaves a number in range as it is. -/
theorem wrap_of_inRange {n : Int} (h : InRange n) : wrap n = n := by
  obtain ⟨low, high⟩ := h
  unfold wrap modulus
  simp only [minimum, maximum] at low high
  rw [Int.bmod_def]
  split <;> omega

/-- Wrapping takes the modulus off a number just above the range. -/
theorem wrap_of_maximum_lt {n : Int} (above : maximum < n) (near : n ≤ maximum + modulus) :
    wrap n = n - modulus := by
  unfold wrap modulus
  simp only [maximum, modulus] at above near
  rw [Int.bmod_def]
  split <;> omega

/-- A wrapped number is in range. -/
theorem inRange_wrap (n : Int) : InRange (wrap n) := by
  unfold InRange wrap modulus minimum maximum
  rw [Int.bmod_def]
  constructor <;> split <;> omega

/-- Wrapping a part of a sum first does not change the word of the sum. -/
theorem wrap_wrap_add (m n : Int) : wrap (wrap m + n) = wrap (m + n) :=
  Int.bmod_add_bmod

end JsonFit.Word
