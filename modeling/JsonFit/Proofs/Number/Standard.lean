import JsonFit.Proofs.Number.Writing
import Mathlib.Data.List.DropRight

/-!
# Numbers of the standard grammar

The standard has a narrower grammar of numbers than the reader: no plus sign in
front, digits on both sides of a point, and no zero in front of other digits.
Every finite number is written by that grammar.

The numerals that are tried for a number may be misshapen, since a neighbour of the
number may be zero and zero has no digits to lay out.  Such a numeral does not read
as the number, so it is never chosen.
-/

namespace JsonFit.Decimal

/-- One or more digits. -/
def IsDigits (t : Bytes) : Prop :=
  t ≠ [] ∧ ∀ b ∈ t, Ascii.isDigit b = true

/-- Digits without a zero in front, or a single zero. -/
def IsWhole (t : Bytes) : Prop :=
  IsDigits t ∧ (t = [Ascii.zero] ∨ t.head? ≠ some Ascii.zero)

/-- Nothing, or digits behind a point. -/
def IsFraction (t : Bytes) : Prop :=
  t = [] ∨ ∃ digits, IsDigits digits ∧ t = Ascii.point :: digits

/-- Nothing, or digits behind the mark of an exponent and an optional sign. -/
def IsExponent (t : Bytes) : Prop :=
  t = [] ∨ ∃ mark sign digits, (mark = Ascii.letterE ∨ mark = Ascii.capitalE) ∧
    (sign = [] ∨ sign = [Ascii.plus] ∨ sign = [Ascii.hyphen]) ∧ IsDigits digits ∧
    t = mark :: (sign ++ digits)

/-- A number without a sign. -/
def IsUnsigned (t : Bytes) : Prop :=
  ∃ whole fraction exponent, IsWhole whole ∧ IsFraction fraction ∧ IsExponent exponent ∧
    t = whole ++ (fraction ++ exponent)

/-- A number: an optional minus sign, digits, an optional fraction and an optional
exponent. -/
def IsStandard (t : Bytes) : Prop :=
  ∃ negative unsigned, IsUnsigned unsigned ∧ t = withSign negative unsigned

theorem isDigits_decimal (n : Nat) : IsDigits (Bytes.decimal n) :=
  ⟨Bytes.decimal_ne_nil n, Bytes.isDigit_of_mem_decimal n⟩

theorem isDigit_of_mem_zeros (count : Nat) :
    ∀ b ∈ List.replicate count Ascii.zero, Ascii.isDigit b = true :=
  List.forall_mem_replicate.mpr (.inr rfl)

theorem head?_decimal_ne_zero {n : Nat} (positive : 0 < n) :
    (Bytes.decimal n).head? ≠ some Ascii.zero := by
  have kept := Bytes.significant_decimal positive
  intro zeroFirst
  obtain ⟨others, split⟩ := List.head?_eq_some_iff.mp zeroFirst
  rw [split, significant, List.dropWhile_cons_of_pos (by simp)] at kept
  have shorter := (List.dropWhile_suffix (p := (· == Ascii.zero)) (l := others)).length_le
  rw [kept, List.length_cons] at shorter
  omega

theorem isWhole_zero : IsWhole [Ascii.zero] :=
  ⟨⟨List.cons_ne_nil _ _, List.forall_mem_singleton.mpr rfl⟩, .inl rfl⟩

theorem isWhole_decimal {n : Nat} (positive : 0 < n) : IsWhole (Bytes.decimal n) :=
  ⟨isDigits_decimal n, .inr (head?_decimal_ne_zero positive)⟩

/-- The digits of a positive number without the zeros at its end still begin with
its first digit. -/
theorem exists_significand {n : Nat} (positive : 0 < n) :
    ∃ d ds, significand n = d :: ds ∧ d ≠ Ascii.zero ∧
      ∀ b ∈ d :: ds, Ascii.isDigit b = true := by
  obtain ⟨d, others, decimalEq⟩ := List.exists_cons_of_ne_nil (Bytes.decimal_ne_nil n)
  have notZero : d ≠ Ascii.zero := by
    intro zero
    apply head?_decimal_ne_zero positive
    rw [decimalEq, zero, List.head?_cons]
  obtain ⟨dropped, split⟩ : significand n <+: Bytes.decimal n :=
    List.rdropWhile_prefix (· == Ascii.zero) _
  have digits : ∀ b ∈ significand n, Ascii.isDigit b = true := by
    intro b inside
    apply Bytes.isDigit_of_mem_decimal n
    rw [← split]
    exact List.mem_append_left dropped inside
  cases kept : significand n with
  | nil =>
      have allZeros : ∀ b ∈ Bytes.decimal n, (b == Ascii.zero) = true :=
        List.rdropWhile_eq_nil_iff.mp kept
      have zero := allZeros d (by rw [decimalEq]; exact List.mem_cons_self)
      exact absurd (by simpa using zero) notZero
  | cons d' ds =>
      rw [kept, decimalEq, List.cons_append] at split
      obtain ⟨rfl, _⟩ := List.cons.inj split
      exact ⟨d', ds, rfl, notZero, kept ▸ digits⟩

section Layouts

variable {d : UInt8} {ds : Bytes}

theorem isExponent_writeExponent (e : Int) : IsExponent (Ascii.letterE :: writeExponent e) := by
  refine .inr ⟨Ascii.letterE, [if e < 0 then Ascii.hyphen else Ascii.plus],
    if (Bytes.decimal e.natAbs).length < 2 then Ascii.zero :: Bytes.decimal e.natAbs
    else Bytes.decimal e.natAbs, .inl rfl, ?_, ?_, rfl⟩
  · split
    · exact .inr (.inr rfl)
    · exact .inr (.inl rfl)
  · split
    · exact ⟨List.cons_ne_nil _ _,
        List.forall_mem_cons.mpr ⟨by decide, Bytes.isDigit_of_mem_decimal _⟩⟩
    · exact isDigits_decimal _

theorem isUnsigned_scientific (notZero : d ≠ Ascii.zero)
    (digits : ∀ b ∈ d :: ds, Ascii.isDigit b = true) (e : Int) :
    IsUnsigned (scientific (d :: ds) e) := by
  rw [List.forall_mem_cons] at digits
  have first : IsWhole [d] :=
    ⟨⟨List.cons_ne_nil _ _, List.forall_mem_singleton.mpr digits.1⟩, .inr (by simpa using notZero)⟩
  refine ⟨[d], if (d :: ds).length ≤ 1 then [] else Ascii.point :: ds, _, first, ?_,
    isExponent_writeExponent e, ?_⟩
  · split
    · exact .inl rfl
    · rename_i long
      refine .inr ⟨ds, ⟨?_, digits.2⟩, rfl⟩
      rintro rfl
      exact long (Nat.le_refl 1)
  · simp [scientific]

theorem isUnsigned_positional (notZero : d ≠ Ascii.zero)
    (digits : ∀ b ∈ d :: ds, Ascii.isDigit b = true) (e : Int) :
    IsUnsigned (positional (d :: ds) e) := by
  have whole {t : Bytes} (digits : ∀ b ∈ d :: t, Ascii.isDigit b = true) : IsWhole (d :: t) :=
    ⟨⟨List.cons_ne_nil _ _, digits⟩, .inr (by simpa using notZero)⟩
  rw [positional]
  split
  · have behind : IsDigits (List.replicate (-e - 1).toNat Ascii.zero ++ d :: ds) :=
      ⟨by simp, List.forall_mem_append.mpr ⟨isDigit_of_mem_zeros _, digits⟩⟩
    exact ⟨_, _, [], isWhole_zero, .inr ⟨_, behind, rfl⟩, .inl rfl, by simp⟩
  · dsimp only
    split
    · have all : ∀ b ∈ d :: (ds ++ List.replicate (e.toNat + 1 - (d :: ds).length) Ascii.zero),
          Ascii.isDigit b = true := by
        rw [← List.cons_append]
        exact List.forall_mem_append.mpr ⟨digits, isDigit_of_mem_zeros _⟩
      exact ⟨_, [], [], whole all, .inl rfl, .inl rfl, by simp⟩
    · rename_i long
      rw [List.length_cons, Nat.add_le_add_iff_right, Nat.not_le] at long
      have front : ∀ b ∈ d :: ds.take e.toNat, Ascii.isDigit b = true := by
        intro b inside
        exact digits b (List.cons_subset_cons d (List.take_subset _ ds) inside)
      have behind : IsDigits (ds.drop e.toNat) := by
        refine ⟨by simpa using long, ?_⟩
        intro b inside
        exact digits b (List.mem_cons_of_mem d (List.drop_subset _ ds inside))
      exact ⟨_, _, [], whole front, .inr ⟨_, behind, rfl⟩, .inl rfl, by simp⟩

/-- Positive numbers are laid out by the grammar. -/
theorem isUnsigned_layoutScaled {n : Nat} (positive : 0 < n) (e : Int) :
    IsUnsigned (layoutScaled n e) := by
  obtain ⟨d, ds, significandEq, notZero, digits⟩ := exists_significand positive
  rw [layoutScaled, layoutDigits, significandEq]
  split
  · exact isUnsigned_scientific notZero digits _
  · exact isUnsigned_positional notZero digits _

end Layouts

/-! ## Written numbers -/

theorem significant_replicate_zero (count : Nat) :
    significant (List.replicate count Ascii.zero) = [] := by
  simp [significant]

/-- Digits that are all zero denote zero. -/
theorem magnitude_of_significant {negative : Bool} {digits : Bytes} {e : Int} {x : Binary64}
    (zeros : significant digits = [])
    (denotes : Numeral.toBinary64? ⟨negative, digits, e, 0⟩ = some x) : x.magnitude = 0 := by
  rw [Numeral.toBinary64?_of_whole_le (Nat.zero_le _), Numeral.nearest?, zeros] at denotes
  cases denotes
  exact Binary64.magnitude_ofMagnitude negative (by decide)

theorem read?_zeros (negative : Bool) (count : Nat) :
    Numeral.read? (withSign negative (List.replicate (count + 1) Ascii.zero)) =
      some ⟨negative, List.replicate (count + 1) Ascii.zero, 0, 0⟩ := by
  have read := Numeral.read?_withSign negative (by simp) (isDigit_of_mem_zeros (count + 1))
    (rfl : readExponent? [] = some 0)
  rwa [List.append_nil, significant_replicate_zero] at read

theorem read?_zeroFraction (negative : Bool) (count : Nat) :
    Numeral.read? (withSign negative
        (Ascii.zero :: Ascii.point :: List.replicate count Ascii.zero)) =
      some ⟨negative, List.replicate (count + 1) Ascii.zero, -count, 0⟩ := by
  have isDigit : Ascii.isDigit Ascii.zero = true := rfl
  have notDigit : Ascii.isDigit Ascii.point = false := rfl
  have fraction : takeFraction (Ascii.point :: List.replicate count Ascii.zero) =
      (List.replicate count Ascii.zero, []) := by
    change (List.takeWhile _ _, List.dropWhile _ _) = _
    simp [isDigit]
  rw [Numeral.read?, takeSign_withSign negative isDigit]
  simp [isDigit, notDigit, fraction, significant, readExponent?, List.replicate_succ]

/-- A numeral that has been laid out for zero is read as zero if at all. -/
theorem magnitude_eq_zero_of_read? {negative : Bool} {e : Int} {x : Binary64}
    (read : read? (withSign negative (layoutScaled 0 e)) = some x) : x.magnitude = 0 := by
  have noDigits : significand 0 = [] := by decide
  rw [layoutScaled, noDigits] at read
  generalize ((Bytes.decimal 0).length : Int) - 1 + e = first at read
  rw [layoutDigits] at read
  split at read
  · have unread (rest : Bytes) : read? (withSign negative (Ascii.letterE :: rest)) = none := by
      cases negative <;> rfl
    rw [scientific] at read
    exact absurd read (by simp [unread])
  · rw [positional] at read
    split at read
    · rw [List.append_nil, read?, read?_zeroFraction, Option.bind_some] at read
      exact magnitude_of_significant (significant_replicate_zero _) read
    · dsimp only at read
      rw [List.length_nil, if_pos (Nat.zero_le _), List.nil_append, Nat.sub_zero, read?,
        read?_zeros, Option.bind_some] at read
      exact magnitude_of_significant (significant_replicate_zero _) read

theorem isUnsigned_decimal {n : Nat} (positive : 0 < n) : IsUnsigned (Bytes.decimal n) :=
  ⟨_, [], [], isWhole_decimal positive, .inl rfl, .inl rfl, by simp⟩

theorem isStandard_exactText {x : Binary64} (nonzero : x.magnitude ≠ 0) :
    IsStandard (exactText x) := by
  have positive := Binary64.parts_pos nonzero
  unfold exactText
  rcases partsEq : x.parts with ⟨m, q⟩
  rw [partsEq] at positive
  refine ⟨_, _, ?_, rfl⟩
  cases q with
  | ofNat q => exact isUnsigned_decimal (Nat.mul_pos positive (Nat.two_pow_pos q))
  | negSucc q =>
      have exponent : IsExponent (Ascii.letterE :: Bytes.decimalInt (.negSucc q)) :=
        .inr ⟨_, [Ascii.hyphen], _, .inl rfl, .inr (.inr rfl), isDigits_decimal (q + 1), rfl⟩
      exact ⟨_, [], _, isWhole_decimal (Nat.mul_pos positive (Nat.pow_pos (by decide))), .inl rfl,
        exponent, rfl⟩

/-- Finite numbers are written by the standard grammar. -/
theorem isStandard_write {x : Binary64} (finite : x.isFinite = true) : IsStandard (write x) := by
  rw [write, if_pos finite]
  split
  · exact ⟨x.isNegative, [Ascii.zero], ⟨_, [], [], isWhole_zero, .inl rfl, .inl rfl, rfl⟩, rfl⟩
  · rename_i nonzero
    rcases shortest_cases x with ⟨read, lead, count, tried⟩ | allDigits
    · obtain ⟨n, _, textEq⟩ := List.mem_map.mp tried
      rw [← textEq] at read ⊢
      rcases Nat.eq_zero_or_pos n with rfl | positive
      · exact absurd (magnitude_eq_zero_of_read? read) nonzero
      · exact ⟨_, _, isUnsigned_layoutScaled positive _, rfl⟩
    · rw [allDigits]
      exact isStandard_exactText nonzero

/-! ## Places of written numbers -/

theorem length_takeWhile_le {cls : UInt8 → Bool} {b : UInt8} (outside : cls b = false)
    (front rest : Bytes) : ((front ++ b :: rest).takeWhile cls).length ≤ front.length := by
  induction front with
  | nil => simp [outside]
  | cons a front ih =>
      rw [List.cons_append, List.takeWhile_cons]
      split
      · simpa using ih
      · exact Nat.zero_le _

/-- No more digits have places in front of the point than stand there. -/
theorem whole_le_of_read? {negative : Bool} {b : UInt8} (isDigit : Ascii.isDigit b = true)
    {rest : Bytes} {n : Numeral} (read : Numeral.read? (withSign negative (b :: rest)) = some n) :
    n.whole ≤ ((b :: rest).takeWhile Ascii.isDigit).length := by
  rw [Numeral.read?, takeSign_withSign negative isDigit] at read
  dsimp only at read
  split at read
  · contradiction
  · obtain ⟨e, _, rfl⟩ := Option.map_eq_some_iff.mp read
    exact (List.dropWhile_suffix _).length_le

/-- At most six digits are laid out in front of a point. -/
theorem length_digits_layoutScaled {n : Nat} (positive : 0 < n) (e : Int) :
    ((layoutScaled n e).takeWhile Ascii.isDigit).length ≤ 6 := by
  have point : Ascii.isDigit Ascii.point = false := rfl
  have letterE : Ascii.isDigit Ascii.letterE = false := rfl
  obtain ⟨d, ds, significandEq, -, -⟩ := exists_significand positive
  rw [layoutScaled, layoutDigits, significandEq]
  generalize ((Bytes.decimal n).length : Int) - 1 + e = first
  split
  · rw [scientific]
    split
    · have short := length_takeWhile_le letterE [d] (writeExponent first)
      simpa using short.trans (by decide : 1 ≤ 6)
    · have short := length_takeWhile_le point [d] (ds ++ Ascii.letterE :: writeExponent first)
      simpa using short.trans (by decide : 1 ≤ 6)
  · rename_i notScientific
    rw [positional]
    split
    · have short := length_takeWhile_le point [Ascii.zero]
        (List.replicate (-first - 1).toNat Ascii.zero ++ d :: ds)
      simpa using short.trans (by decide : 1 ≤ 6)
    · have small : first.toNat + 1 ≤ 6 := by
        simp only [firstScientific] at notScientific
        omega
      dsimp only
      split
      · have all := (List.takeWhile_prefix (p := Ascii.isDigit) (l := d :: ds ++
          List.replicate (first.toNat + 1 - (d :: ds).length) Ascii.zero)).length_le
        simp only [List.length_append, List.length_replicate] at all
        omega
      · have short := length_takeWhile_le point ((d :: ds).take (first.toNat + 1))
          ((d :: ds).drop (first.toNat + 1))
        have taken := List.length_take_le (first.toNat + 1) (d :: ds)
        omega

theorem IsUnsigned.exists_cons {t : Bytes} (isUnsigned : IsUnsigned t) :
    ∃ b rest, t = b :: rest ∧ Ascii.isDigit b = true := by
  obtain ⟨whole, fraction, exponent, ⟨⟨some, digits⟩, _⟩, _, _, rfl⟩ := isUnsigned
  obtain ⟨b, rest, rfl⟩ := List.exists_cons_of_ne_nil some
  exact ⟨b, _, rfl, digits b List.mem_cons_self⟩

/-- A finite number is nearest to its text. -/
theorem readsNearest_write {x : Binary64} (finite : x.isFinite = true) :
    ReadsNearest (write x) x := by
  have ofWhole {negative : Bool} {t : Bytes} (isUnsigned : IsUnsigned t)
      (short : (t.takeWhile Ascii.isDigit).length ≤ 6)
      (read : read? (withSign negative t) = some x) : ReadsNearest (withSign negative t) x := by
    obtain ⟨b, rest, rfl, isDigit⟩ := isUnsigned.exists_cons
    obtain ⟨n, taken, denotes⟩ := Option.bind_eq_some_iff.mp read
    have whole : n.whole ≤ Numeral.wholePlaces :=
      ((whole_le_of_read? isDigit taken).trans short).trans (by decide)
    rw [Numeral.toBinary64?_of_whole_le whole] at denotes
    exact ⟨n, taken, whole, denotes⟩
  have read := read?_write finite
  rw [write, if_pos finite] at read ⊢
  split
  · rename_i zero
    rw [if_pos zero] at read
    exact ofWhole ⟨_, [], [], isWhole_zero, .inl rfl, .inl rfl, rfl⟩ (by decide) read
  · rename_i nonzero
    rw [if_neg nonzero] at read
    rcases shortest_cases x with ⟨_, lead, count, tried⟩ | allDigits
    · obtain ⟨n, _, textEq⟩ := List.mem_map.mp tried
      rw [← textEq] at read ⊢
      rcases Nat.eq_zero_or_pos n with rfl | positive
      · exact absurd (magnitude_eq_zero_of_read? read) nonzero
      · exact ofWhole (isUnsigned_layoutScaled positive _) (length_digits_layoutScaled positive _)
          read
    · rw [allDigits]
      exact readsNearest_exactText finite nonzero

end JsonFit.Decimal
