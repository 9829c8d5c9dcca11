import JsonFit.Bytes

/-!
# UTF-8

A text is read as a sequence of symbols.  A symbol is a character, which takes
the one to four bytes of its shortest encoding, or a stray byte, which is not
part of any encoded character and stands alone.  Surrogates and numbers above
`0x10FFFF` have no encoding of their own: they are written as the replacement
character.

`symbols` splits every text, and `symbols_cons` says where the next symbol
begins.
-/

namespace JsonFit.Utf8

/-- The replacement character, which stands for whatever cannot be encoded. -/
abbrev replacement : Nat := 0xFFFD

/-- One step of reading a text. -/
inductive Symbol where
  /-- A character, by its code point. -/
  | char (point : Nat)
  /-- A byte that belongs to no encoded character. -/
  | stray (byte : UInt8)
  deriving DecidableEq, Repr

/-- The code points that have an encoding. -/
def isScalar (point : Nat) : Bool :=
  point < 0xD800 || (0xE000 ≤ point && point ≤ 0x10FFFF)

/-- A continuation byte that carries the lowest six bits of `n`. -/
def trailByte (n : Nat) : UInt8 :=
  UInt8.ofNat (0x80 + n % 64)

/-- The shortest encoding of a code point; one without an encoding is written
as the replacement character. -/
def encode (point : Nat) : Bytes :=
  if !isScalar point then [0xEF, 0xBF, 0xBD]
  else if point < 0x80 then [UInt8.ofNat point]
  else if point < 0x800 then [UInt8.ofNat (0xC0 + point / 64), trailByte point]
  else if point < 0x10000 then
    [UInt8.ofNat (0xE0 + point / 4096), trailByte (point / 64), trailByte point]
  else
    [UInt8.ofNat (0xF0 + point / 262144), trailByte (point / 4096),
      trailByte (point / 64), trailByte point]

/-- The encoding of an arbitrary integer taken as a code point. -/
def encodeInt : Int → Bytes
  | .ofNat n => encode n
  | .negSucc _ => encode replacement

/-- A byte of the form `10xxxxxx`. -/
def isTrail (b : UInt8) : Bool :=
  0x80 ≤ b && b ≤ 0xBF

/-- The second bytes that may follow a given first byte.  They exclude
encodings that are too long, surrogates, and numbers above `0x10FFFF`. -/
def mayFollow (lead second : UInt8) : Bool :=
  (if lead = 0xE0 then 0xA0 else if lead = 0xF0 then 0x90 else 0x80) ≤ second &&
    second ≤ (if lead = 0xED then 0x9F else if lead = 0xF4 then 0x8F else 0xBF)

/-- The six bits that a continuation byte carries. -/
def trailBits (b : UInt8) : Nat :=
  b.toNat - 0x80

/-- The first symbol of the text `b :: rest`. -/
def first (b : UInt8) (rest : Bytes) : Symbol :=
  if b < 0x80 then .char b.toNat
  else if 0xC2 ≤ b ∧ b ≤ 0xDF then
    match rest with
    | b₁ :: _ =>
        if isTrail b₁ then .char ((b.toNat - 0xC0) * 64 + trailBits b₁) else .stray b
    | [] => .stray b
  else if 0xE0 ≤ b ∧ b ≤ 0xEF then
    match rest with
    | b₁ :: b₂ :: _ =>
        if mayFollow b b₁ && isTrail b₂ then
          .char ((b.toNat - 0xE0) * 4096 + trailBits b₁ * 64 + trailBits b₂)
        else .stray b
    | _ => .stray b
  else if 0xF0 ≤ b ∧ b ≤ 0xF4 then
    match rest with
    | b₁ :: b₂ :: b₃ :: _ =>
        if mayFollow b b₁ && isTrail b₂ && isTrail b₃ then
          .char ((b.toNat - 0xF0) * 262144 + trailBits b₁ * 4096 + trailBits b₂ * 64 +
            trailBits b₃)
        else .stray b
    | _ => .stray b
  else .stray b

namespace Symbol

/-- The bytes that a symbol takes in a text. -/
def bytes : Symbol → Bytes
  | char point => encode point
  | stray byte => [byte]

/-- The number of bytes that a symbol takes in a text. -/
def width (s : Symbol) : Nat :=
  s.bytes.length

/-- The code point of a symbol; a stray byte counts as the replacement
character. -/
def point : Symbol → Nat
  | char point => point
  | stray _ => replacement

/-- Is this a character rather than a stray byte? -/
def isChar : Symbol → Bool
  | char _ => true
  | stray _ => false

/-- Every symbol takes at least one byte. -/
theorem width_pos (s : Symbol) : 0 < s.width := by
  cases s with
  | stray byte => simp [width, bytes]
  | char point =>
      simp only [width, bytes, encode]
      split
      · simp
      · split
        · simp
        · split
          · simp
          · split <;> simp

end Symbol

/-- The symbols of a text, leaving out its first `skip` bytes. -/
def symbolsFrom : (skip : Nat) → Bytes → List Symbol
  | _, [] => []
  | skip + 1, _ :: rest => symbolsFrom skip rest
  | 0, b :: rest => first b rest :: symbolsFrom ((first b rest).width - 1) rest

/-- The symbols of a text, from left to right. -/
def symbols (text : Bytes) : List Symbol :=
  symbolsFrom 0 text

theorem symbolsFrom_eq_symbols_drop (skip : Nat) (text : Bytes) :
    symbolsFrom skip text = symbols (text.drop skip) := by
  induction skip generalizing text with
  | zero => rfl
  | succ skip ih =>
      cases text with
      | nil => rfl
      | cons b rest => simpa [symbolsFrom] using ih rest

@[simp]
theorem symbols_nil : symbols [] = [] :=
  rfl

/-- The second symbol begins where the bytes of the first one end. -/
theorem symbols_cons (b : UInt8) (rest : Bytes) :
    symbols (b :: rest) =
      first b rest :: symbols ((b :: rest).drop (first b rest).width) := by
  obtain ⟨n, hn⟩ : ∃ n, (first b rest).width = n + 1 :=
    ⟨(first b rest).width - 1, by have := (first b rest).width_pos; omega⟩
  rw [hn, List.drop_succ_cons, ← symbolsFrom_eq_symbols_drop]
  simp [symbols, symbolsFrom, hn]

/-- The code point at the start of a text; of no text it is the replacement
character. -/
def firstPoint : Bytes → Nat
  | [] => replacement
  | b :: rest => (first b rest).point

/-- Is every byte of the text part of a character? -/
def isValid (text : Bytes) : Bool :=
  (symbols text).all Symbol.isChar

end JsonFit.Utf8
