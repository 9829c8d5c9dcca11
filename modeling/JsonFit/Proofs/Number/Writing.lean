import JsonFit.Proofs.Number.Numeral

/-!
# Reading back what is written

The shortest numeral is found by reading, so it is read as its number unless none
of the numerals that are tried is; then all digits are written, and these are
always enough.  Either way the text has only the characters of numerals.
-/

namespace JsonFit.Decimal

/-- All digits of a number are read as that number. -/
theorem readsNearest_exactText {x : Binary64} (finite : x.isFinite = true)
    (nonzero : x.magnitude ≠ 0) : ReadsNearest (exactText x) x := by
  obtain ⟨small, _, low, high⟩ := Binary64.parts_bounds finite
  have positive := Binary64.parts_pos nonzero
  have valueEq : x.absValue = x.parts.1 * 2 ^ x.parts.2 := rfl
  unfold exactText
  rcases partsEq : x.parts with ⟨m, q⟩
  rw [partsEq] at small low high positive valueEq
  cases q with
  | ofNat q =>
      have bound : q ≤ 971 := Int.ofNat_le.mp high
      have short : m * 2 ^ q < 10 ^ Numeral.wholePlaces :=
        calc m * 2 ^ q ≤ 2 ^ 53 * 2 ^ 971 :=
              Nat.mul_le_mul small.le (Nat.pow_le_pow_right (by decide) bound)
          _ < 10 ^ Numeral.wholePlaces := by decide +kernel
      have value : ((m * 2 ^ q : Nat) : ℚ) * 10 ^ (0 : Int) = x.absValue := by
        simp [valueEq]
      have reads := readsNearest_withSign finite nonzero
        (Nat.mul_pos positive (Nat.two_pow_pos q)) short (rfl : readExponent? [] = some 0) value
      rw [List.append_nil] at reads
      exact reads
  | negSucc q =>
      have bound : q + 1 ≤ 1074 := by omega
      have short : m * 5 ^ (q + 1) < 10 ^ Numeral.wholePlaces :=
        calc m * 5 ^ (q + 1) ≤ 2 ^ 53 * 5 ^ 1074 :=
              Nat.mul_le_mul small.le (Nat.pow_le_pow_right (by decide) bound)
          _ < 10 ^ Numeral.wholePlaces := by decide +kernel
      have value : ((m * 5 ^ (q + 1) : Nat) : ℚ) * 10 ^ (-((q + 1 : Nat) : Int)) =
          x.absValue := by
        have split : (10 : ℚ) ^ (q + 1) = 5 ^ (q + 1) * 2 ^ (q + 1) := by
          rw [← mul_pow]
          norm_num
        rw [valueEq, zpow_neg, zpow_natCast, zpow_negSucc, split]
        push_cast
        field_simp
      exact readsNearest_withSign finite nonzero
        (Nat.mul_pos positive (Nat.pow_pos (by decide))) short
        (readExponent?_negative (bound.trans_lt (by decide))) value

/-- The shortest numeral is one that has been tried, or has all digits. -/
theorem shortest_cases (x : Binary64) :
    (read? (shortest x) = some x ∧ ∃ lead count, shortest x ∈ candidates x lead count) ∨
      shortest x = exactText x := by
  unfold shortest
  generalize leadingExponent x.ratio.1 x.ratio.2 = lead
  dsimp only
  cases found : (List.range maximumDigits).findSome? fun count =>
      (candidates x lead count).find? fun text => read? text = some x with
  | none => exact .inr rfl
  | some text =>
      obtain ⟨count, _, first⟩ := List.exists_of_findSome?_eq_some found
      have passes := List.find?_some first
      simp only [decide_eq_true_eq] at passes
      exact .inl ⟨passes, lead, count, List.mem_of_find?_eq_some first⟩

/-- The text of a finite number is read as that number. -/
theorem read?_write {x : Binary64} (finite : x.isFinite = true) :
    read? (write x) = some x := by
  rw [write, if_pos finite]
  by_cases zero : x.magnitude = 0
  · rw [if_pos zero]
    have whole := Binary64.ofMagnitude_magnitude x
    rw [zero] at whole
    rw [← whole]
    cases x.isNegative <;> rfl
  · rw [if_neg zero]
    rcases shortest_cases x with ⟨read, _⟩ | allDigits
    · exact read
    · rw [allDigits]
      exact (readsNearest_exactText finite zero).read?_eq

/-- The bytes of numerals: digits, signs, the point and the mark of an
exponent. -/
def IsNumeralByte (b : UInt8) : Prop :=
  Ascii.isDigit b = true ∨
    b = Ascii.hyphen ∨ b = Ascii.plus ∨ b = Ascii.point ∨ b = Ascii.letterE

instance : DecidablePred IsNumeralByte :=
  fun _ => inferInstanceAs (Decidable (_ ∨ _))

/-- A text of such bytes only. -/
def IsNumeralText (text : Bytes) : Prop :=
  ∀ b ∈ text, IsNumeralByte b

namespace IsNumeralText

@[simp]
theorem nil : IsNumeralText [] :=
  List.forall_mem_nil _

@[simp]
theorem cons_iff {b : UInt8} {text : Bytes} :
    IsNumeralText (b :: text) ↔ IsNumeralByte b ∧ IsNumeralText text :=
  List.forall_mem_cons

@[simp]
theorem append_iff {text text' : Bytes} :
    IsNumeralText (text ++ text') ↔ IsNumeralText text ∧ IsNumeralText text' :=
  List.forall_mem_append

theorem mono {text text' : Bytes} (numeral : IsNumeralText text') (subset : text ⊆ text') :
    IsNumeralText text :=
  fun b member => numeral b (subset member)

@[simp]
theorem zeros (n : Nat) : IsNumeralText (List.replicate n Ascii.zero) := by
  intro b member
  rw [List.eq_of_mem_replicate member]
  exact .inl rfl

@[simp]
theorem decimal (n : Nat) : IsNumeralText (Bytes.decimal n) :=
  fun b member => .inl (Bytes.isDigit_of_mem_decimal n b member)

theorem withSign {text : Bytes} (numeral : IsNumeralText text) (negative : Bool) :
    IsNumeralText (withSign negative text) := by
  cases negative with
  | false => exact numeral
  | true => exact cons_iff.mpr ⟨by decide, numeral⟩

theorem writeExponent (e : Int) : IsNumeralText (writeExponent e) := by
  have sign : IsNumeralByte (if e < 0 then Ascii.hyphen else Ascii.plus) := by
    split <;> decide
  have digits : IsNumeralText
      (if (Bytes.decimal e.natAbs).length < 2 then Ascii.zero :: Bytes.decimal e.natAbs
        else Bytes.decimal e.natAbs) := by
    split
    · exact cons_iff.mpr ⟨by decide, decimal e.natAbs⟩
    · exact decimal e.natAbs
  exact cons_iff.mpr ⟨sign, digits⟩

theorem scientific {digits : Bytes} (numeral : IsNumeralText digits) (e : Int) :
    IsNumeralText (scientific digits e) := by
  have fraction : IsNumeralText
      (if digits.length ≤ 1 then [] else Ascii.point :: digits.drop 1) := by
    split
    · exact nil
    · exact cons_iff.mpr ⟨by decide, numeral.mono (List.drop_subset 1 digits)⟩
  have exponent : IsNumeralText (Ascii.letterE :: Decimal.writeExponent e) :=
    cons_iff.mpr ⟨by decide, writeExponent e⟩
  exact append_iff.mpr
    ⟨append_iff.mpr ⟨numeral.mono (List.take_subset 1 digits), fraction⟩, exponent⟩

theorem positional {digits : Bytes} (numeral : IsNumeralText digits) (e : Int) :
    IsNumeralText (positional digits e) := by
  unfold Decimal.positional
  split
  · exact append_iff.mpr
      ⟨cons_iff.mpr ⟨by decide, cons_iff.mpr ⟨by decide, zeros _⟩⟩, numeral⟩
  · dsimp only
    split
    · exact append_iff.mpr ⟨numeral, zeros _⟩
    · exact append_iff.mpr ⟨numeral.mono (List.take_subset _ digits),
        cons_iff.mpr ⟨by decide, numeral.mono (List.drop_subset _ digits)⟩⟩

theorem layoutScaled (n : Nat) (e : Int) : IsNumeralText (layoutScaled n e) := by
  have digits : IsNumeralText (significand n) := by
    intro b member
    have kept := List.dropWhile_subset _ (List.mem_reverse.mp member)
    exact decimal n b (List.mem_reverse.mp kept)
  unfold Decimal.layoutScaled layoutDigits
  split
  · exact scientific digits _
  · exact positional digits _

theorem candidates (x : Binary64) (lead : Int) (count : Nat) {text : Bytes}
    (tried : text ∈ candidates x lead count) : IsNumeralText text := by
  obtain ⟨n, _, rfl⟩ := List.mem_map.mp tried
  exact (layoutScaled n _).withSign x.isNegative

theorem exactText (x : Binary64) : IsNumeralText (exactText x) := by
  unfold Decimal.exactText
  rcases x.parts with ⟨m, q⟩
  apply withSign
  cases q with
  | ofNat q => exact decimal _
  | negSucc q =>
      have exponent : IsNumeralText (Bytes.decimalInt (.negSucc q)) :=
        cons_iff.mpr ⟨by decide, decimal _⟩
      exact append_iff.mpr ⟨decimal _, cons_iff.mpr ⟨by decide, exponent⟩⟩

end IsNumeralText

/-- A finite number is written with the characters of numerals. -/
theorem isNumeralText_write {x : Binary64} (finite : x.isFinite = true) :
    IsNumeralText (write x) := by
  rw [write, if_pos finite]
  split
  · exact IsNumeralText.withSign (IsNumeralText.cons_iff.mpr ⟨by decide, .nil⟩) x.isNegative
  · rcases shortest_cases x with ⟨_, lead, count, tried⟩ | allDigits
    · exact .candidates x lead count tried
    · exact allDigits ▸ .exactText x

end JsonFit.Decimal
