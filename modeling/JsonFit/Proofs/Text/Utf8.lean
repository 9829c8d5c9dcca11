import JsonFit.Text.Utf8

/-!
# Symbols and their bytes

A text is made of the bytes of its symbols: what is read as a character is the
encoding of that character.  Bytes below `0x80` stand for themselves wherever they
are, so a text holds such a byte exactly if the character is one of its symbols.
-/

namespace JsonFit.Utf8

theorem ofNat_eq_of_toNat_eq {n : Nat} {b : UInt8} (value : n = b.toNat) : UInt8.ofNat n = b := by
  rw [value, UInt8.ofNat_toNat]

theorem trailByte_eq {n : Nat} {b : UInt8} (value : 0x80 + n % 64 = b.toNat) : trailByte n = b :=
  ofNat_eq_of_toNat_eq value

theorem isScalar_iff {point : Nat} :
    isScalar point = true ↔ point < 0xD800 ∨ 0xE000 ≤ point ∧ point ≤ 0x10FFFF := by
  simp only [isScalar, Bool.or_eq_true, Bool.and_eq_true, decide_eq_true_eq]

theorem encode_of_lt {point : Nat} (small : point < 0x80) :
    encode point = [UInt8.ofNat point] := by
  have scalar : isScalar point = true := isScalar_iff.mpr (.inl (by omega))
  rw [encode, if_neg (by simp [scalar]), if_pos small]

theorem isTrail_iff {b : UInt8} : isTrail b = true ↔ 0x80 ≤ b.toNat ∧ b.toNat ≤ 0xBF := by
  simp only [isTrail, Bool.and_eq_true, decide_eq_true_eq, UInt8.le_iff_toNat_le,
    UInt8.reduceToNat]

/-- The bounds on a second byte, in numbers. -/
theorem bounds_of_mayFollow {lead second : UInt8} (follows : mayFollow lead second = true) :
    0x80 ≤ second.toNat ∧ second.toNat ≤ 0xBF ∧
      (lead.toNat = 0xE0 → 0xA0 ≤ second.toNat) ∧ (lead.toNat = 0xF0 → 0x90 ≤ second.toNat) ∧
      (lead.toNat = 0xED → second.toNat ≤ 0x9F) ∧ (lead.toNat = 0xF4 → second.toNat ≤ 0x8F) := by
  simp only [mayFollow, Bool.and_eq_true, decide_eq_true_eq, UInt8.le_iff_toNat_le,
    apply_ite UInt8.toNat, ← UInt8.toNat_inj, UInt8.reduceToNat] at follows
  obtain ⟨low, high⟩ := follows
  -- `omega` does not look into a choice
  have low' : 0x80 ≤ second.toNat ∧ (lead.toNat = 0xE0 → 0xA0 ≤ second.toNat) ∧
      (lead.toNat = 0xF0 → 0x90 ≤ second.toNat) := by
    split at low
    · omega
    · split at low <;> omega
  have high' : second.toNat ≤ 0xBF ∧ (lead.toNat = 0xED → second.toNat ≤ 0x9F) ∧
      (lead.toNat = 0xF4 → second.toNat ≤ 0x8F) := by
    split at high
    · omega
    · split at high <;> omega
  omega

/-- Two bytes that are read as a character are its encoding. -/
theorem encode_pair {b b₁ : UInt8} (low : 0xC2 ≤ b.toNat) (high : b.toNat ≤ 0xDF)
    (trail : isTrail b₁ = true) :
    encode ((b.toNat - 0xC0) * 64 + trailBits b₁) = [b, b₁] := by
  rw [isTrail_iff] at trail
  unfold trailBits
  obtain ⟨point, pointEq⟩ : ∃ point, point = (b.toNat - 0xC0) * 64 + (b₁.toNat - 0x80) :=
    ⟨_, rfl⟩
  rw [← pointEq]
  have scalar : isScalar point = true := isScalar_iff.mpr (.inl (by omega))
  have lead : UInt8.ofNat (0xC0 + point / 64) = b := ofNat_eq_of_toNat_eq (by omega)
  have last : trailByte point = b₁ := trailByte_eq (by omega)
  rw [encode, if_neg (by simp [scalar]), if_neg (by omega), if_pos (by omega), lead, last]

/-- Three bytes that are read as a character are its encoding. -/
theorem encode_triple {b b₁ b₂ : UInt8} (low : 0xE0 ≤ b.toNat) (high : b.toNat ≤ 0xEF)
    (second : mayFollow b b₁ = true) (trail : isTrail b₂ = true) :
    encode ((b.toNat - 0xE0) * 4096 + trailBits b₁ * 64 + trailBits b₂) = [b, b₁, b₂] := by
  rw [isTrail_iff] at trail
  obtain ⟨low₁, high₁, notShort, _, notSurrogate, _⟩ := bounds_of_mayFollow second
  unfold trailBits
  obtain ⟨point, pointEq⟩ : ∃ point,
      point = (b.toNat - 0xE0) * 4096 + (b₁.toNat - 0x80) * 64 + (b₂.toNat - 0x80) := ⟨_, rfl⟩
  rw [← pointEq]
  have scalar : isScalar point = true := isScalar_iff.mpr (by omega)
  have lead : UInt8.ofNat (0xE0 + point / 4096) = b := ofNat_eq_of_toNat_eq (by omega)
  have middle : trailByte (point / 64) = b₁ := trailByte_eq (by omega)
  have last : trailByte point = b₂ := trailByte_eq (by omega)
  rw [encode, if_neg (by simp [scalar]), if_neg (by omega), if_neg (by omega), if_pos (by omega),
    lead, middle, last]

/-- Four bytes that are read as a character are its encoding. -/
theorem encode_quadruple {b b₁ b₂ b₃ : UInt8} (low : 0xF0 ≤ b.toNat) (high : b.toNat ≤ 0xF4)
    (second : mayFollow b b₁ = true) (trail : isTrail b₂ = true) (trail' : isTrail b₃ = true) :
    encode ((b.toNat - 0xF0) * 262144 + trailBits b₁ * 4096 + trailBits b₂ * 64 + trailBits b₃) =
      [b, b₁, b₂, b₃] := by
  rw [isTrail_iff] at trail trail'
  obtain ⟨low₁, high₁, _, notShort, _, notLarge⟩ := bounds_of_mayFollow second
  unfold trailBits
  obtain ⟨point, pointEq⟩ : ∃ point, point = (b.toNat - 0xF0) * 262144 +
      (b₁.toNat - 0x80) * 4096 + (b₂.toNat - 0x80) * 64 + (b₃.toNat - 0x80) := ⟨_, rfl⟩
  rw [← pointEq]
  have scalar : isScalar point = true := isScalar_iff.mpr (by omega)
  have lead : UInt8.ofNat (0xF0 + point / 262144) = b := ofNat_eq_of_toNat_eq (by omega)
  have second : trailByte (point / 4096) = b₁ := trailByte_eq (by omega)
  have third : trailByte (point / 64) = b₂ := trailByte_eq (by omega)
  have last : trailByte point = b₃ := trailByte_eq (by omega)
  rw [encode, if_neg (by simp [scalar]), if_neg (by omega), if_neg (by omega), if_neg (by omega),
    lead, second, third, last]

/-- What is read as a character is the encoding of that character, and a byte is
stray only beyond ASCII. -/
theorem first_cases (b : UInt8) (rest : Bytes) :
    (∃ point, first b rest = .char point ∧ encode point <+: b :: rest) ∨
      first b rest = .stray b ∧ 0x80 ≤ b.toNat := by
  unfold first
  simp only [UInt8.lt_iff_toNat_lt, UInt8.le_iff_toNat_le, UInt8.reduceToNat]
  split
  · rename_i ascii
    refine .inl ⟨b.toNat, rfl, ?_⟩
    rw [encode_of_lt ascii, UInt8.ofNat_toNat]
    exact ⟨rest, rfl⟩
  · rename_i notAscii
    have beyond : 0x80 ≤ b.toNat := by omega
    split
    · rename_i lead
      split
      · split
        · rename_i rest b₁ rest' trail
          exact .inl ⟨_, rfl, rest', by rw [encode_pair lead.1 lead.2 trail]; rfl⟩
        · exact .inr ⟨rfl, beyond⟩
      · exact .inr ⟨rfl, beyond⟩
    · split
      · rename_i lead
        split
        · split
          · rename_i rest b₁ b₂ rest' trails
            obtain ⟨second, trail⟩ := Bool.and_eq_true_iff.mp trails
            exact .inl ⟨_, rfl, rest', by rw [encode_triple lead.1 lead.2 second trail]; rfl⟩
          · exact .inr ⟨rfl, beyond⟩
        · exact .inr ⟨rfl, beyond⟩
      · split
        · rename_i lead
          split
          · split
            · rename_i rest b₁ b₂ b₃ rest' trails
              obtain ⟨others, trail'⟩ := Bool.and_eq_true_iff.mp trails
              obtain ⟨second, trail⟩ := Bool.and_eq_true_iff.mp others
              exact .inl ⟨_, rfl, rest', by
                rw [encode_quadruple lead.1 lead.2 second trail trail']; rfl⟩
            · exact .inr ⟨rfl, beyond⟩
          · exact .inr ⟨rfl, beyond⟩
        · exact .inr ⟨rfl, beyond⟩

theorem bytes_first_append (b : UInt8) (rest : Bytes) :
    (first b rest).bytes ++ (b :: rest).drop (first b rest).width = b :: rest := by
  rcases first_cases b rest with ⟨point, symbolEq, others, split⟩ | ⟨symbolEq, _⟩
  · rw [symbolEq, Symbol.width, Symbol.bytes, ← split, List.drop_left]
  · rw [symbolEq]
    rfl

/-- Induction along the symbols of a text. -/
theorem symbols_induction {motive : Bytes → Prop} (nil : motive [])
    (cons : ∀ b rest, motive ((b :: rest).drop (first b rest).width) → motive (b :: rest))
    (text : Bytes) : motive text := by
  match text with
  | [] => exact nil
  | b :: rest =>
      have some := (first b rest).width_pos
      have shorter : ((b :: rest).drop (first b rest).width).length < rest.length + 1 := by
        rw [List.length_drop, List.length_cons]
        omega
      exact cons b rest (symbols_induction nil cons _)
termination_by text.length

/-- A text is made of the bytes of its symbols. -/
theorem flatMap_bytes_symbols (text : Bytes) : (symbols text).flatMap Symbol.bytes = text := by
  induction text using symbols_induction with
  | nil => rfl
  | cons b rest ih => rw [symbols_cons, List.flatMap_cons, ih, bytes_first_append]

/-- The symbols of a text are characters, and stray bytes beyond ASCII. -/
theorem beyond_of_stray_mem {text : Bytes} {b : UInt8} (inside : .stray b ∈ symbols text) :
    0x80 ≤ b.toNat := by
  induction text using symbols_induction with
  | nil => cases inside
  | cons b' rest ih =>
      rw [symbols_cons, List.mem_cons] at inside
      rcases inside with here | later
      · rcases first_cases b' rest with ⟨point, symbolEq, _⟩ | ⟨symbolEq, beyond⟩
        · rw [symbolEq] at here
          cases here
        · rw [symbolEq] at here
          cases here
          exact beyond
      · exact ih later

theorem toNat_ofNat_of_lt {n : Nat} (small : n < 256) : (UInt8.ofNat n).toNat = n := by
  rw [UInt8.toNat_ofNat']
  exact Nat.mod_eq_of_lt small

theorem beyond_trailByte (n : Nat) : 0x80 ≤ (trailByte n).toNat := by
  rw [trailByte, toNat_ofNat_of_lt (by omega)]
  omega

/-- The encodings of characters beyond ASCII consist of bytes beyond ASCII. -/
theorem beyond_of_mem_encode {point : Nat} (beyond : 0x80 ≤ point) :
    ∀ b ∈ encode point, 0x80 ≤ b.toNat := by
  rw [encode]
  split
  · simp
  · rename_i scalar
    rw [Bool.not_eq_true, Bool.not_eq_false', isScalar_iff] at scalar
    rw [if_neg (by omega)]
    split
    · simp only [List.forall_mem_cons, beyond_trailByte, UInt8.toNat_ofNat']
      exact ⟨by omega, trivial, List.forall_mem_nil _⟩
    · split
      · simp only [List.forall_mem_cons, beyond_trailByte, UInt8.toNat_ofNat']
        exact ⟨by omega, trivial, trivial, List.forall_mem_nil _⟩
      · simp only [List.forall_mem_cons, beyond_trailByte, UInt8.toNat_ofNat']
        exact ⟨by omega, trivial, trivial, trivial, List.forall_mem_nil _⟩

/-- A byte of ASCII is in no encoding but that of its own character. -/
theorem mem_encode_iff {point : Nat} {b : UInt8} (ascii : b.toNat < 0x80) :
    b ∈ encode point ↔ point = b.toNat := by
  constructor
  · intro inside
    by_cases beyond : 0x80 ≤ point
    · have high := beyond_of_mem_encode beyond b inside
      omega
    · rw [encode_of_lt (by omega), List.mem_singleton] at inside
      rw [inside, toNat_ofNat_of_lt (by omega)]
  · rintro rfl
    rw [encode_of_lt ascii, UInt8.ofNat_toNat]
    exact List.mem_singleton_self b

/-- A text holds a byte of ASCII exactly if its character is one of its symbols. -/
theorem mem_iff_char_mem_symbols {text : Bytes} {b : UInt8} (ascii : b.toNat < 0x80) :
    b ∈ text ↔ .char b.toNat ∈ symbols text := by
  rw [← flatMap_bytes_symbols text, List.mem_flatMap, flatMap_bytes_symbols]
  constructor
  · rintro ⟨symbol, inside, here⟩
    cases symbol with
    | char point =>
        rw [Symbol.bytes, mem_encode_iff ascii] at here
        rw [← here]
        exact inside
    | stray b' =>
        have beyond := beyond_of_stray_mem inside
        rw [Symbol.bytes, List.mem_singleton] at here
        subst here
        omega
  · intro inside
    exact ⟨_, inside, (mem_encode_iff ascii).mpr rfl⟩

end JsonFit.Utf8
