import JsonFit.Proofs.Text.Utf8

/-!
# Encoded characters are read back

An encoding tells where it ends: whatever follows the encoding of a character, the
first symbol is that character.  So the text that encodes some characters has just
these characters as its symbols, and two such texts are equal only if the
characters are.

A text is valid exactly if it is made of encodings.  Every text can be repaired by
putting the replacement character for each of its stray bytes.
-/

namespace JsonFit.Utf8

/-! ## Reading an encoding -/

theorem toNat_trailByte (n : Nat) : (trailByte n).toNat = 0x80 + n % 64 :=
  toNat_ofNat_of_lt (by omega)

theorem isTrail_trailByte (n : Nat) : isTrail (trailByte n) = true := by
  rw [isTrail_iff, toNat_trailByte]
  omega

@[simp]
theorem trailBits_trailByte (n : Nat) : trailBits (trailByte n) = n % 64 := by
  have value := toNat_trailByte n
  unfold trailBits
  omega

/-- The second bytes that may follow a first byte, in numbers. -/
theorem mayFollow_of_bounds {lead second : UInt8} (trail : isTrail second = true)
    (notShort : (lead.toNat = 0xE0 → 0xA0 ≤ second.toNat) ∧
      (lead.toNat = 0xF0 → 0x90 ≤ second.toNat))
    (notBeyond : (lead.toNat = 0xED → second.toNat ≤ 0x9F) ∧
      (lead.toNat = 0xF4 → second.toNat ≤ 0x8F)) : mayFollow lead second = true := by
  rw [isTrail_iff] at trail
  simp only [mayFollow, Bool.and_eq_true, decide_eq_true_eq, UInt8.le_iff_toNat_le,
    apply_ite UInt8.toNat, ← UInt8.toNat_inj, UInt8.reduceToNat]
  constructor
  · split
    · omega
    · split <;> omega
  · split
    · omega
    · split <;> omega

section Lengths

variable {point : Nat} (rest : Bytes)

theorem first_single (high : point < 0x80) :
    first (UInt8.ofNat point) rest = .char point := by
  have lead : (UInt8.ofNat point).toNat = point := toNat_ofNat_of_lt (by omega)
  unfold first
  rw [if_pos (by rw [UInt8.lt_iff_toNat_lt, lead]; exact high), lead]

theorem first_pair (low : 0x80 ≤ point) (high : point < 0x800) :
    first (UInt8.ofNat (0xC0 + point / 64)) (trailByte point :: rest) = .char point := by
  have lead : (UInt8.ofNat (0xC0 + point / 64)).toNat = 0xC0 + point / 64 :=
    toNat_ofNat_of_lt (by omega)
  unfold first
  simp only [UInt8.lt_iff_toNat_lt, UInt8.le_iff_toNat_le, UInt8.reduceToNat, lead,
    isTrail_trailByte, trailBits_trailByte]
  rw [if_neg (by omega), if_pos (by omega), if_pos trivial]
  congr 1
  omega

theorem first_triple (low : 0x800 ≤ point) (high : point < 0x10000)
    (scalar : isScalar point = true) :
    first (UInt8.ofNat (0xE0 + point / 4096)) (trailByte (point / 64) :: trailByte point :: rest) =
      .char point := by
  rw [isScalar_iff] at scalar
  have lead : (UInt8.ofNat (0xE0 + point / 4096)).toNat = 0xE0 + point / 4096 :=
    toNat_ofNat_of_lt (by omega)
  have follows :
      mayFollow (UInt8.ofNat (0xE0 + point / 4096)) (trailByte (point / 64)) = true := by
    apply mayFollow_of_bounds (isTrail_trailByte _)
    · rw [lead, toNat_trailByte]
      omega
    · rw [lead, toNat_trailByte]
      omega
  unfold first
  simp only [UInt8.lt_iff_toNat_lt, UInt8.le_iff_toNat_le, UInt8.reduceToNat, lead, follows,
    isTrail_trailByte, trailBits_trailByte, Bool.and_self]
  rw [if_neg (by omega), if_neg (by omega), if_pos (by omega), if_pos trivial]
  congr 1
  omega

theorem first_quadruple (low : 0x10000 ≤ point) (high : point ≤ 0x10FFFF) :
    first (UInt8.ofNat (0xF0 + point / 262144))
        (trailByte (point / 4096) :: trailByte (point / 64) :: trailByte point :: rest) =
      .char point := by
  have lead : (UInt8.ofNat (0xF0 + point / 262144)).toNat = 0xF0 + point / 262144 :=
    toNat_ofNat_of_lt (by omega)
  have follows :
      mayFollow (UInt8.ofNat (0xF0 + point / 262144)) (trailByte (point / 4096)) = true := by
    apply mayFollow_of_bounds (isTrail_trailByte _)
    · rw [lead, toNat_trailByte]
      omega
    · rw [lead, toNat_trailByte]
      omega
  unfold first
  simp only [UInt8.lt_iff_toNat_lt, UInt8.le_iff_toNat_le, UInt8.reduceToNat, lead, follows,
    isTrail_trailByte, trailBits_trailByte, Bool.and_self]
  rw [if_neg (by omega), if_neg (by omega), if_neg (by omega), if_pos (by omega), if_pos trivial]
  congr 1
  omega

end Lengths

/-- An encoding is read as its character, whatever follows. -/
theorem exists_first_eq {point : Nat} (scalar : isScalar point = true) :
    ∃ b bytes, encode point = b :: bytes ∧ ∀ rest, first b (bytes ++ rest) = .char point := by
  rw [encode, if_neg (by simp [scalar])]
  split
  · rename_i one
    exact ⟨_, _, rfl, fun rest => first_single rest one⟩
  · split
    · exact ⟨_, _, rfl, fun rest => first_pair rest (by omega) (by omega)⟩
    · split
      · exact ⟨_, _, rfl, fun rest => first_triple rest (by omega) (by omega) scalar⟩
      · rw [isScalar_iff] at scalar
        exact ⟨_, _, rfl, fun rest => first_quadruple rest (by omega) (by omega)⟩

theorem symbols_encode_append {point : Nat} (scalar : isScalar point = true) (rest : Bytes) :
    symbols (encode point ++ rest) = .char point :: symbols rest := by
  obtain ⟨b, bytes, encoded, read⟩ := exists_first_eq scalar
  have dropped : (b :: (bytes ++ rest)).drop (encode point).length = rest := by
    rw [encoded, ← List.cons_append]
    exact List.drop_left
  rw [encoded, List.cons_append, symbols_cons, read, Symbol.width, Symbol.bytes, dropped]

/-- No encoding is a first part of another one. -/
theorem encode_append_inj {point point' : Nat} (scalar : isScalar point = true)
    (scalar' : isScalar point' = true) {rest rest' : Bytes}
    (same : encode point ++ rest = encode point' ++ rest') : point = point' ∧ rest = rest' := by
  have symbolsEq := congrArg symbols same
  rw [symbols_encode_append scalar, symbols_encode_append scalar'] at symbolsEq
  have pointEq : point = point' := Symbol.char.inj (List.cons.inj symbolsEq).1
  subst pointEq
  exact ⟨rfl, List.append_cancel_left same⟩

/-- The text that encodes some characters. -/
def encodeAll (points : List Nat) : Bytes :=
  points.flatMap encode

@[simp]
theorem encodeAll_nil : encodeAll [] = [] :=
  rfl

@[simp]
theorem encodeAll_cons (point : Nat) (points : List Nat) :
    encodeAll (point :: points) = encode point ++ encodeAll points :=
  rfl

theorem encodeAll_singleton (point : Nat) : encodeAll [point] = encode point := by
  rw [encodeAll_cons, encodeAll_nil, List.append_nil]

theorem symbols_encodeAll_append {points : List Nat}
    (scalars : ∀ point ∈ points, isScalar point = true) (rest : Bytes) :
    symbols (encodeAll points ++ rest) = points.map .char ++ symbols rest := by
  induction points with
  | nil => rfl
  | cons point points ih =>
      obtain ⟨scalar, scalars⟩ := List.forall_mem_cons.mp scalars
      rw [encodeAll_cons, List.append_assoc, symbols_encode_append scalar, ih scalars]
      rfl

/-- What is read as a character can be encoded. -/
theorem isScalar_of_first {b : UInt8} {rest : Bytes} {point : Nat}
    (read : first b rest = .char point) : isScalar point = true := by
  rcases first_cases b rest with ⟨point', read', others, split⟩ | ⟨stray, _⟩
  · obtain rfl : point' = point := Symbol.char.inj (read'.symm.trans read)
    cases scalar : isScalar point' with
    | true => rfl
    | false =>
        -- What has no encoding is written as the replacement character, and read as that.
        have written : encode point' = encode replacement := by
          rw [encode, if_pos (by simp [scalar])]
          rfl
        have symbolsEq := congrArg symbols split
        rw [written, symbols_encode_append (by rfl), symbols_cons, read] at symbolsEq
        obtain rfl : replacement = point' := Symbol.char.inj (List.cons.inj symbolsEq).1
        exact scalar.symm.trans (by rfl)
  · rw [stray] at read
    contradiction

/-- The code points of the symbols of a text can be encoded. -/
theorem isScalar_point_of_mem {text : Bytes} {s : Symbol} (inside : s ∈ symbols text) :
    isScalar s.point = true := by
  cases s with
  | stray b => rfl
  | char point =>
      induction text using symbols_induction with
      | nil => cases inside
      | cons b rest ih =>
          rw [symbols_cons] at inside
          rcases List.mem_cons.mp inside with here | later
          · exact isScalar_of_first here.symm
          · exact ih later

/-- A text encodes one list of characters only. -/
theorem encodeAll_inj {points points' : List Nat} (scalars : ∀ point ∈ points, isScalar point = true)
    (scalars' : ∀ point ∈ points', isScalar point = true)
    (same : encodeAll points = encodeAll points') : points = points' := by
  have read := symbols_encodeAll_append scalars []
  rw [same, symbols_encodeAll_append scalars', symbols_nil, List.append_nil, List.append_nil] at read
  exact ((List.map_inj_right fun _ _ => Symbol.char.inj).mp read).symm

/-- A text is valid exactly if it encodes some characters. -/
theorem isValid_iff_exists {text : Bytes} :
    isValid text = true ↔
      ∃ points, (∀ point ∈ points, isScalar point = true) ∧ text = encodeAll points := by
  constructor
  · intro valid
    refine ⟨(symbols text).map Symbol.point, ?_, ?_⟩
    · intro point inside
      obtain ⟨s, inText, rfl⟩ := List.mem_map.mp inside
      exact isScalar_point_of_mem inText
    · have bytesEq : ∀ s ∈ symbols text, s.bytes = encode s.point := by
        intro s inside
        have isChar : s.isChar = true := List.all_eq_true.mp valid s inside
        cases s with
        | char point => rfl
        | stray b => contradiction
      calc
        text = (symbols text).flatMap Symbol.bytes := (flatMap_bytes_symbols text).symm
        _ = (symbols text).flatMap fun s => encode s.point := by
          rw [List.flatMap_def, List.flatMap_def, List.map_congr_left bytesEq]
        _ = encodeAll ((symbols text).map Symbol.point) := by rw [encodeAll, List.flatMap_map]
  · rintro ⟨points, scalars, rfl⟩
    have read := symbols_encodeAll_append scalars []
    rw [List.append_nil] at read
    rw [isValid, read]
    simp [Symbol.isChar]

theorem isValid_encodeAll {points : List Nat} (scalars : ∀ point ∈ points, isScalar point = true) :
    isValid (encodeAll points) = true :=
  isValid_iff_exists.mpr ⟨points, scalars, rfl⟩

theorem isValid_append {text text' : Bytes} (valid : isValid text = true)
    (valid' : isValid text' = true) : isValid (text ++ text') = true := by
  obtain ⟨points, scalars, rfl⟩ := isValid_iff_exists.mp valid
  obtain ⟨points', scalars', rfl⟩ := isValid_iff_exists.mp valid'
  rw [encodeAll, encodeAll, ← List.flatMap_append]
  exact isValid_encodeAll (List.forall_mem_append.mpr ⟨scalars, scalars'⟩)

theorem isValid_encode {point : Nat} (scalar : isScalar point = true) :
    isValid (encode point) = true := by
  rw [← encodeAll_singleton]
  exact isValid_encodeAll (List.forall_mem_singleton.mpr scalar)

/-- Bytes of ASCII are valid. -/
theorem isValid_of_ascii {text : Bytes} (ascii : ∀ b ∈ text, b.toNat < 0x80) :
    isValid text = true := by
  induction text with
  | nil => rfl
  | cons b text ih =>
      obtain ⟨here, others⟩ := List.forall_mem_cons.mp ascii
      have scalar : isScalar b.toNat = true := isScalar_iff.mpr (.inl (by omega))
      have single : isValid (encode b.toNat) = true := isValid_encode scalar
      rw [encode_of_lt here, UInt8.ofNat_toNat] at single
      exact isValid_append single (ih others)

/-! ## Repaired texts -/

/-- The text with the replacement character in place of each stray byte. -/
def repair (text : Bytes) : Bytes :=
  encodeAll ((symbols text).map Symbol.point)

/-- A character in a text is kept. -/
theorem repair_encode_append {point : Nat} (scalar : isScalar point = true) (rest : Bytes) :
    repair (encode point ++ rest) = encode point ++ repair rest := by
  rw [repair, symbols_encode_append scalar, List.map_cons, encodeAll_cons, Symbol.point, repair]

/-- A byte at which no character is encoded is replaced. -/
theorem repair_cons_of_stray {b : UInt8} {rest : Bytes}
    (stray : ∀ point, isScalar point = true → ¬ encode point <+: b :: rest) :
    repair (b :: rest) = encode replacement ++ repair rest := by
  have read : first b rest = .stray b := by
    rcases first_cases b rest with ⟨point, read, encoded⟩ | ⟨read, _⟩
    · exact absurd encoded (stray point (isScalar_of_first read))
    · exact read
  rw [repair, symbols_cons, read, List.map_cons, encodeAll_cons]
  rfl

/-- A valid text needs no repair. -/
theorem repair_of_isValid {text : Bytes} (valid : isValid text = true) : repair text = text := by
  obtain ⟨points, scalars, rfl⟩ := isValid_iff_exists.mp valid
  have read := symbols_encodeAll_append scalars []
  rw [List.append_nil] at read
  rw [repair, read]
  simp [Function.comp_def, Symbol.point]

/-- The second text is the first one with the replacement character in place of each
byte at which no character is encoded. -/
inductive Repairs : Bytes → Bytes → Prop where
  /-- Nothing. -/
  | nil : Repairs [] []
  /-- An encoded character is kept. -/
  | char {point : Nat} {rest repaired : Bytes} (scalar : isScalar point = true)
      (others : Repairs rest repaired) : Repairs (encode point ++ rest) (encode point ++ repaired)
  /-- A byte at which none is encoded is replaced. -/
  | stray {b : UInt8} {rest repaired : Bytes}
      (none : ∀ point, isScalar point = true → ¬ encode point <+: b :: rest)
      (others : Repairs rest repaired) : Repairs (b :: rest) (encode replacement ++ repaired)

theorem repairs_repair (text : Bytes) : Repairs text (repair text) := by
  induction text using symbols_induction with
  | nil => exact .nil
  | cons b rest ih =>
      rcases first_cases b rest with ⟨point, read, others, split⟩ | ⟨read, _⟩
      · have scalar := isScalar_of_first read
        have dropped : (b :: rest).drop (first b rest).width = others := by
          rw [read, Symbol.width, Symbol.bytes, ← split, List.drop_left]
        rw [dropped] at ih
        rw [← split, repair_encode_append scalar]
        exact .char scalar ih
      · have none : ∀ point, isScalar point = true → ¬ encode point <+: b :: rest := by
          rintro point scalar ⟨others, split⟩
          have symbolsEq := symbols_encode_append scalar others
          rw [split, symbols_cons, read] at symbolsEq
          cases (List.cons.inj symbolsEq).1
        rw [read] at ih
        rw [repair_cons_of_stray none]
        exact .stray none ih

/-- There is one way to repair a text. -/
theorem repairs_iff {text repaired : Bytes} : Repairs text repaired ↔ repaired = repair text := by
  constructor
  · intro repairs
    induction repairs with
    | nil => rfl
    | char scalar _ ih => rw [repair_encode_append scalar, ← ih]
    | stray none _ ih => rw [repair_cons_of_stray none, ← ih]
  · rintro rfl
    exact repairs_repair text

end JsonFit.Utf8
