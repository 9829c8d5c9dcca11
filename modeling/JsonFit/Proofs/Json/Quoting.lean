import JsonFit.Proofs.Json.Decoding

/-!
# Quoted and unquoted strings

What `quote` writes for a text is the inside of a standard string and stands for the
characters of the text.  `unquote` takes such an inside apart into pieces: a byte
that is no backslash, a letter behind a backslash, or the mark of digits with four
bytes.  `Unquotes t decoded` says that `t` is made of whole pieces that are decoded as
`decoded`, so that it does not matter what follows.

Two results rest on this.  A quoted text is unquoted as the text with its stray bytes
replaced, and a valid text comes back as it was.  And the inside of a standard string
is unquoted as the characters that it stands for, as long as no character is written
as a surrogate pair: each half of a pair is a piece of its own, and is decoded as the
replacement character.
-/

namespace JsonFit.Json

namespace Escape

open Utf8 (Symbol)

theorem hexValue?_hexDigit {n : Nat} (small : n < 16) :
    Ascii.hexValue? (Ascii.hexDigit n) = some n := by
  have table : ∀ n < 16, Ascii.hexValue? (Ascii.hexDigit n) = some n := by decide
  exact table n small

theorem fourDigits_hex {point : Nat} (small : point < 0x10000) :
    FourDigits (Bytes.hex 4 point) point := by
  have digit (n : Nat) : Ascii.hexValue? (Ascii.hexDigit (n % 16)) = some (n % 16) :=
    hexValue?_hexDigit (Nat.mod_lt n (by decide))
  have four := FourDigits.mk (digit (point / 16 / 16 / 16)) (digit (point / 16 / 16))
    (digit (point / 16)) (digit point)
  have value : ((point / 16 / 16 / 16 % 16 * 16 + point / 16 / 16 % 16) * 16 +
      point / 16 % 16) * 16 + point % 16 = point := by
    omega
  rw [value] at four
  exact four

/-- The letter that is written for a character stands for it. -/
theorem mem_letterEscapes_of_letterOf? {point : Nat} {letter : UInt8}
    (written : letterOf? point = some letter) : (letter, point) ∈ letterEscapes := by
  unfold letterOf? at written
  split at written
  case h_8 => contradiction
  all_goals
    cases written
    decide

/-- Every symbol is written as its character. -/
theorem charText_quoteSymbol {s : Symbol} (scalar : Utf8.isScalar s.point = true) :
    CharText (quoteSymbol s) s.point := by
  rw [quoteSymbol]
  cases found : letterOf? s.point with
  | some letter => exact .escape (.letter (mem_letterEscapes_of_letterOf? found))
  | none =>
      dsimp only
      split
      · rename_i needed
        refine .escape (.digits (fourDigits_hex ?_) scalar)
        have replacementEq : Utf8.replacement = 0xFFFD := rfl
        simp only [needsUnicodeEscape, Bool.or_eq_true, decide_eq_true_eq, beq_iff_eq] at needed
        omega
      · rename_i notNeeded
        simp only [needsUnicodeEscape, Bool.or_eq_true, decide_eq_true_eq, beq_iff_eq,
          not_or] at notNeeded
        refine .plain scalar ?_ ?_ ?_
        · exact Nat.not_lt.mp notNeeded.1.1.1
        · intro isMark
          rw [isMark] at found
          contradiction
        · intro isBackslash
          rw [isBackslash] at found
          contradiction

/-- A quoted text stands for the characters of the text, and for a replacement
character for each stray byte. -/
theorem stringDenotes_quote (text : Bytes) :
    StringDenotes (quote text) ((Utf8.symbols text).map Symbol.point) := by
  have all {symbols : List Symbol} (scalars : ∀ s ∈ symbols, Utf8.isScalar s.point = true) :
      StringDenotes (symbols.flatMap quoteSymbol) (symbols.map Symbol.point) := by
    induction symbols with
    | nil => exact .nil
    | cons s symbols ih =>
        obtain ⟨scalar, scalars⟩ := List.forall_mem_cons.mp scalars
        exact .cons (charText_quoteSymbol scalar) (ih scalars)
  exact all fun _ => Utf8.isScalar_point_of_mem

/-! ## Pieces -/

/-- In front of any text, `t` is decoded on its own, as `decoded`. -/
def Unquotes (t decoded : Bytes) : Prop :=
  ∀ rest, unquote (t ++ rest) = (unquote rest).map (decoded ++ ·)

theorem unquotes_nil : Unquotes [] [] := by
  intro rest
  rw [List.nil_append]
  cases unquote rest <;> rfl

/-- A byte that is no backslash stands for itself. -/
theorem unquotes_byte {b : UInt8} (plain : b ≠ Ascii.backslash) : Unquotes [b] [b] := by
  intro rest
  rw [List.singleton_append, unquote.eq_def]
  exact if_pos plain

theorem unquotes_letter {letter decoded : UInt8} (known : ofLetter? letter = some decoded) :
    Unquotes [Ascii.backslash, letter] [decoded] := by
  intro rest
  rw [List.cons_append, List.singleton_append, unquote.eq_def]
  simp [known]

/-- Four bytes behind the mark of digits are decoded, whatever they are. -/
theorem unquotes_digits (a b c d : UInt8) :
    Unquotes [Ascii.backslash, Ascii.letterU, a, b, c, d] (Utf8.encode (hexPoint a b c d)) := by
  intro rest
  have noLetter : ofLetter? Ascii.letterU = none := by rfl
  rw [List.cons_append, List.cons_append, unquote.eq_def]
  simp [noLetter]

namespace Unquotes

variable {α : Type} {t t' decoded decoded' : Bytes}

theorem append (first : Unquotes t decoded) (second : Unquotes t' decoded') :
    Unquotes (t ++ t') (decoded ++ decoded') := by
  intro rest
  rw [List.append_assoc, first, second]
  cases unquote rest with
  | ok further => simp [Except.map]
  | error e => rfl

theorem flatMap {f g : α → Bytes} {as : List α} (each : ∀ a ∈ as, Unquotes (f a) (g a)) :
    Unquotes (as.flatMap f) (as.flatMap g) := by
  induction as with
  | nil => exact unquotes_nil
  | cons a as ih =>
      obtain ⟨here, others⟩ := List.forall_mem_cons.mp each
      exact here.append (ih others)

theorem unquote_eq (unquotes : Unquotes t decoded) : unquote t = .ok decoded := by
  have whole := unquotes []
  rw [List.append_nil, unquote, Except.map, List.append_nil] at whole
  exact whole

end Unquotes

/-- A text without a backslash stands for itself. -/
theorem unquotes_of_notMem {t : Bytes} (plain : Ascii.backslash ∉ t) : Unquotes t t := by
  induction t with
  | nil => exact unquotes_nil
  | cons b t ih =>
      obtain ⟨here, others⟩ := not_or.mp (plain ∘ List.mem_cons.mpr)
      exact (unquotes_byte (Ne.symm here)).append (ih others)

theorem hexValue?_lt {d : UInt8} {n : Nat} (digit : Ascii.hexValue? d = some n) : n < 16 := by
  simp only [Ascii.hexValue?, UInt8.le_iff_toNat_le, UInt8.reduceToNat] at digit
  split at digit
  · cases digit
    omega
  split at digit
  · cases digit
    omega
  split at digit
  · cases digit
    omega
  · cases digit

theorem fourDigits_lt {ds : Bytes} {point : Nat} (four : FourDigits ds point) :
    point < 0x10000 := by
  obtain ⟨first, second, third, fourth⟩ := four
  have := hexValue?_lt first
  have := hexValue?_lt second
  have := hexValue?_lt third
  have := hexValue?_lt fourth
  omega

/-- An escape with digits is decoded as its number, even where that is half a pair. -/
theorem unquotes_fourDigits {ds : Bytes} {point : Nat} (four : FourDigits ds point) :
    Unquotes (Ascii.backslash :: Ascii.letterU :: ds) (Utf8.encode point) := by
  obtain @⟨a, b, c, d, i, j, k, l, first, second, third, fourth⟩ := four
  have value : hexPoint a b c d = ((i * 16 + j) * 16 + k) * 16 + l := by
    simp only [hexPoint, first, second, third, fourth]
  rw [← value]
  exact unquotes_digits a b c d

/-- Is the character written as a surrogate pair?  This is the only way to write one
above U+FFFF with escapes. -/
def IsPaired (part : Bytes × Nat) : Prop :=
  0xFFFF < part.2 ∧ part.1 ≠ Utf8.encode part.2

instance (part : Bytes × Nat) : Decidable (IsPaired part) :=
  inferInstanceAs (Decidable (_ ∧ _))

/-- The characters that come of one if every escape is taken on its own: half a pair
has no encoding. -/
def pointsAlone (part : Bytes × Nat) : List Nat :=
  if IsPaired part then [Utf8.replacement, Utf8.replacement] else [part.2]

theorem not_isPaired_of_le {part : Bytes × Nat} (small : part.2 ≤ 0xFFFF) : ¬ IsPaired part :=
  fun paired => Nat.not_le.mpr paired.1 small

/-- No encoding holds a backslash but that of the backslash. -/
theorem isPaired_of_mem {t : Bytes} {point : Nat} (beyond : 0xFFFF < point)
    (escaped : Ascii.backslash ∈ t) : IsPaired (t, point) := by
  refine ⟨beyond, fun standsForItself => ?_⟩
  have inside : Ascii.backslash ∈ Utf8.encode point := standsForItself ▸ escaped
  have pointEq : point = 92 := (Utf8.mem_encode_iff (by decide)).mp inside
  omega

theorem pointsAlone_of_not_isPaired {part : Bytes × Nat} (single : ¬ IsPaired part) :
    pointsAlone part = [part.2] :=
  if_neg single

theorem encode_of_surrogate {point : Nat} (low : 0xD800 ≤ point) (high : point < 0xE000) :
    Utf8.encode point = Utf8.encode Utf8.replacement := by
  have noScalar : Utf8.isScalar point = false := by
    simp only [Utf8.isScalar, Bool.or_eq_false_iff, decide_eq_false_iff_not, Bool.and_eq_false_iff]
    omega
  rw [Utf8.encode, if_pos (by simp [noScalar])]
  rfl

/-- Each letter is decoded as the character that it stands for. -/
theorem unquotes_letterEscape {b : UInt8} {point : Nat} (known : (b, point) ∈ letterEscapes) :
    point < 0x80 ∧ Unquotes [Ascii.backslash, b] (Utf8.encode point) := by
  have table : ∀ e ∈ letterEscapes,
      e.2 < 0x80 ∧ ofLetter? e.1 = some (UInt8.ofNat e.2) := by decide
  obtain ⟨ascii, found⟩ := table _ known
  rw [Utf8.encode_of_lt ascii]
  exact ⟨ascii, unquotes_letter found⟩

/-- A character is decoded as itself, and a surrogate pair as two replacement
characters. -/
theorem unquotes_charText {t : Bytes} {point : Nat} (here : CharText t point) :
    Unquotes t (Utf8.encodeAll (pointsAlone (t, point))) := by
  have single (notPaired : ¬ IsPaired (t, point)) :
      Utf8.encodeAll (pointsAlone (t, point)) = Utf8.encode point := by
    rw [pointsAlone_of_not_isPaired notPaired, Utf8.encodeAll_singleton]
  cases here with
  | plain scalar notControl notMark notBackslash =>
      rw [single fun paired => paired.2 rfl]
      apply unquotes_of_notMem
      rw [Utf8.mem_encode_iff (by decide)]
      exact notBackslash
  | escape escaped =>
      cases escaped with
      | letter known =>
          obtain ⟨ascii, piece⟩ := unquotes_letterEscape known
          rw [single (not_isPaired_of_le (by dsimp only; omega))]
          exact piece
      | digits four scalar =>
          rw [single (not_isPaired_of_le (Nat.le_of_lt_succ (fourDigits_lt four)))]
          exact unquotes_fourDigits four
      | @pair ds ds' high low first isHigh second isLow =>
          have halves := (unquotes_fourDigits first).append (unquotes_fourDigits second)
          rw [encode_of_surrogate isHigh.1 (by omega), encode_of_surrogate (by omega) isLow.2]
            at halves
          rw [pointsAlone, if_pos]
          · exact halves
          · exact isPaired_of_mem (by omega) List.mem_cons_self

/-! ## Quoted texts come back -/

theorem letterOf?_eq_none {point : Nat} (beyond : 92 < point) : letterOf? point = none := by
  unfold letterOf?
  split
  case h_8 => rfl
  all_goals omega

theorem quoteSymbol_of_beyond {s : Symbol} (beyond : 0xFFFF < s.point) :
    quoteSymbol s = Utf8.encode s.point := by
  have notNeeded : ¬ needsUnicodeEscape s.point = true := by
    have replacementEq : Utf8.replacement = 0xFFFD := rfl
    simp only [needsUnicodeEscape, Bool.or_eq_true, decide_eq_true_eq, beq_iff_eq]
    omega
  rw [quoteSymbol, letterOf?_eq_none (by omega)]
  exact if_neg notNeeded

/-- No character is quoted as a surrogate pair. -/
theorem unquotes_quoteSymbol {s : Symbol} (scalar : Utf8.isScalar s.point = true) :
    Unquotes (quoteSymbol s) (Utf8.encode s.point) := by
  have single : ¬ IsPaired (quoteSymbol s, s.point) :=
    fun paired => paired.2 (quoteSymbol_of_beyond paired.1)
  have piece := unquotes_charText (charText_quoteSymbol scalar)
  rw [pointsAlone_of_not_isPaired single, Utf8.encodeAll_singleton] at piece
  exact piece

/-- What is quoted comes back repaired. -/
theorem unquote_quote (text : Bytes) : unquote (quote text) = .ok (Utf8.repair text) := by
  have pieces : Unquotes (quote text) ((Utf8.symbols text).flatMap fun s => Utf8.encode s.point) :=
    .flatMap fun _ inside => unquotes_quoteSymbol (Utf8.isScalar_point_of_mem inside)
  rw [pieces.unquote_eq, Utf8.repair, Utf8.encodeAll, List.flatMap_map]

/-- Every text can be quoted and unquoted, and comes back with the replacement
character in place of each byte that belongs to no encoded character.  So a valid text
comes back as it was, and no other valid text is quoted in the same way. -/
theorem unquote_quote_repairs (text : Bytes) :
    (∃ decoded, unquote (quote text) = .ok decoded ∧
      ∀ repaired, Utf8.Repairs text repaired ↔ repaired = decoded) ∧
    (Utf8.isValid text = true → unquote (quote text) = .ok text ∧
      ∀ other, Utf8.isValid other = true → quote other = quote text → other = text) := by
  constructor
  · exact ⟨Utf8.repair text, unquote_quote text, fun _ => Utf8.repairs_iff⟩
  · intro valid
    have back : unquote (quote text) = .ok text := by
      rw [unquote_quote, Utf8.repair_of_isValid valid]
    refine ⟨back, fun other otherValid same => ?_⟩
    have otherBack : unquote (quote other) = .ok other := by
      rw [unquote_quote, Utf8.repair_of_isValid otherValid]
    rw [same, back] at otherBack
    exact (Except.ok.inj otherBack).symm

/-- A quotation mark, a line separator, a replacement character and a character of four
bytes come back.  A separator and the six characters of its escape are quoted
differently, and the first bytes of a character without the last are replaced one by
one. -/
theorem unquote_quote_repairs_separator :
    let text := Utf8.encodeAll [0x22, 0x2028, 0xFFFD, 0x1F600]
    let separator := Utf8.encodeAll [0x2028]
    let letters := Bytes.ofString "\\u2028"
    let cut : Bytes := [0xF0, 0x9F, 0x98]
    Utf8.isValid text = true ∧ unquote (quote text) = .ok text ∧
      Utf8.isValid separator = true ∧ Utf8.isValid letters = true ∧
      quote letters ≠ quote separator ∧
      ∃ decoded, unquote (quote cut) = .ok decoded ∧
        ∀ repaired, Utf8.Repairs cut repaired ↔ repaired = decoded := by
  intro text separator letters cut
  have valid : Utf8.isValid text = true := by rfl
  have separatorValid : Utf8.isValid separator = true := by rfl
  have lettersValid : Utf8.isValid letters = true := by rfl
  obtain ⟨back, _⟩ := (unquote_quote_repairs text).2 valid
  obtain ⟨_, only⟩ := (unquote_quote_repairs separator).2 separatorValid
  refine ⟨valid, back, separatorValid, lettersValid, fun same => ?_,
    (unquote_quote_repairs cut).1⟩
  exact absurd (only letters lettersValid same) (by decide)

/-! ## Standard strings -/

theorem isScalar_of_charText {t : Bytes} {point : Nat} (here : CharText t point) :
    Utf8.isScalar point = true := by
  cases here with
  | plain scalar notControl notMark notBackslash => exact scalar
  | escape escaped =>
      cases escaped with
      | letter known =>
          have ascii := (unquotes_letterEscape known).1
          exact Utf8.isScalar_iff.mpr (.inl (by omega))
      | digits four scalar => exact scalar
      | pair first isHigh second isLow => exact Utf8.isScalar_iff.mpr (.inr (by omega))

/-- The inside of a standard string is made of the texts of its characters. -/
theorem exists_parts {raw : Bytes} {points : List Nat} (denotes : StringDenotes raw points) :
    ∃ parts : List (Bytes × Nat), raw = parts.flatMap Prod.fst ∧ points = parts.map Prod.snd ∧
      ∀ part ∈ parts, CharText part.1 part.2 := by
  induction denotes with
  | nil => exact ⟨[], rfl, rfl, List.forall_mem_nil _⟩
  | @cons t rest point points here others ih =>
      obtain ⟨parts, rfl, rfl, each⟩ := ih
      exact ⟨(t, point) :: parts, rfl, rfl, List.forall_mem_cons.mpr ⟨here, each⟩⟩

section Parts

variable {parts : List (Bytes × Nat)}

theorem isScalar_of_mem_pointsAlone (each : ∀ part ∈ parts, CharText part.1 part.2) :
    ∀ point ∈ parts.flatMap pointsAlone, Utf8.isScalar point = true := by
  intro point inside
  obtain ⟨part, inParts, here⟩ := List.mem_flatMap.mp inside
  by_cases paired : IsPaired part
  · rw [pointsAlone, if_pos paired] at here
    have pointEq : point = Utf8.replacement := by simpa using here
    rw [pointEq]
    rfl
  · rw [pointsAlone_of_not_isPaired paired] at here
    rw [List.mem_singleton.mp here]
    exact isScalar_of_charText (each part inParts)

/-- Characters come out as they are exactly if none is written as a pair. -/
theorem flatMap_pointsAlone_iff :
    parts.flatMap pointsAlone = parts.map Prod.snd ↔ ∀ part ∈ parts, ¬ IsPaired part := by
  induction parts with
  | nil => simp
  | cons part parts ih =>
      rw [List.flatMap_cons, List.map_cons, List.forall_mem_cons, ← ih]
      by_cases paired : IsPaired part
      · have beyond : 0xFFFF < part.2 := paired.1
        have notReplacement : Utf8.replacement ≠ part.2 := by
          have replacementEq : Utf8.replacement = 0xFFFD := rfl
          omega
        simp [pointsAlone, paired, notReplacement]
      · simp [pointsAlone_of_not_isPaired paired, paired]

theorem unquote_parts (each : ∀ part ∈ parts, CharText part.1 part.2) :
    unquote (parts.flatMap Prod.fst) = .ok (Utf8.encodeAll (parts.flatMap pointsAlone)) := by
  have pieces : Unquotes (parts.flatMap Prod.fst)
      (parts.flatMap fun part => Utf8.encodeAll (pointsAlone part)) :=
    .flatMap fun part inside => unquotes_charText (each part inside)
  rw [pieces.unquote_eq, Utf8.encodeAll, List.flatMap_assoc]
  rfl

end Parts

/-- The inside of every standard string can be unquoted.  What comes out are the
characters that it stands for, with two replacement characters for each that is
written as a surrogate pair.  So it is the encoding of these characters exactly if
each of them above U+FFFF stands for itself. -/
theorem unquote_denoted_iff {raw : Bytes} {points : List Nat}
    (denotes : StringDenotes raw points) :
    ∃ parts : List (Bytes × Nat), raw = parts.flatMap Prod.fst ∧ points = parts.map Prod.snd ∧
      (∀ part ∈ parts, CharText part.1 part.2) ∧
      unquote raw = .ok (Utf8.encodeAll (parts.flatMap pointsAlone)) ∧
      (unquote raw = .ok (Utf8.encodeAll points) ↔
        ∀ part ∈ parts, 0xFFFF < part.2 → part.1 = Utf8.encode part.2) := by
  obtain ⟨parts, rawEq, pointsEq, each⟩ := exists_parts denotes
  have unquoted := unquote_parts each
  rw [← rawEq] at unquoted
  refine ⟨parts, rawEq, pointsEq, each, unquoted, ?_⟩
  have scalars : ∀ point ∈ points, Utf8.isScalar point = true := by
    rw [pointsEq]
    exact List.forall_mem_map.mpr fun part inside => isScalar_of_charText (each part inside)
  calc
    unquote raw = .ok (Utf8.encodeAll points) ↔ parts.flatMap pointsAlone = points := by
      rw [unquoted, Except.ok.injEq]
      constructor
      · exact Utf8.encodeAll_inj (isScalar_of_mem_pointsAlone each) scalars
      · exact congrArg Utf8.encodeAll
    _ ↔ ∀ part ∈ parts, ¬ IsPaired part := by
      rw [pointsEq, flatMap_pointsAlone_iff]
    _ ↔ ∀ part ∈ parts, 0xFFFF < part.2 → part.1 = Utf8.encode part.2 := by
      simp only [IsPaired, not_and, not_not]

/-- Escapes just below and just above the halves of pairs, and a letter. -/
theorem unquote_denoted_iff_bounds :
    let raw := Bytes.ofString "\\ud7ff\\ue000\\n"
    StringDenotes raw [0xD7FF, 0xE000, 0x0A] ∧
      unquote raw = .ok (Utf8.encodeAll [0xD7FF, 0xE000, 0x0A]) := by
  intro raw
  have below : FourDigits (Bytes.hex 4 0xD7FF) 0xD7FF := fourDigits_hex (by decide)
  have above : FourDigits (Bytes.hex 4 0xE000) 0xE000 := fourDigits_hex (by decide)
  have letter : StringDenotes (Bytes.ofString "\\n") [0x0A] :=
    .cons (.escape (.letter (by decide))) .nil
  have denotes : StringDenotes raw [0xD7FF, 0xE000, 0x0A] :=
    .cons (.escape (.digits below rfl)) (.cons (.escape (.digits above rfl)) letter)
  obtain ⟨parts, _, pointsEq, _, _, rightIff⟩ := unquote_denoted_iff denotes
  refine ⟨denotes, rightIff.mpr fun part inside beyond => ?_⟩
  have isPoint : part.2 ∈ [0xD7FF, 0xE000, 0x0A] := pointsEq ▸ List.mem_map_of_mem inside
  have small : ∀ point ∈ [0xD7FF, 0xE000, 0x0A], point ≤ 0xFFFF := by decide
  exact absurd (small _ isPoint) (Nat.not_le.mpr beyond)

/-- The surrogate pair of a character above U+FFFF stands for this character, and is
unquoted as two replacement characters. -/
theorem not_unquote_denoted_pair :
    let raw := Bytes.ofString "\\ud83d\\ude00"
    StringDenotes raw [0x1F600] ∧
      unquote raw = .ok (Utf8.encodeAll [Utf8.replacement, Utf8.replacement]) ∧
      unquote raw ≠ .ok (Utf8.encodeAll [0x1F600]) := by
  intro raw
  have high : FourDigits (Bytes.hex 4 0xD83D) 0xD83D := fourDigits_hex (by decide)
  have low : FourDigits (Bytes.hex 4 0xDE00) 0xDE00 := fourDigits_hex (by decide)
  have denotes : StringDenotes raw [0x1F600] :=
    .cons (.escape (.pair high (by decide) low (by decide))) .nil
  have unquoted : unquote raw = .ok (Utf8.encodeAll [Utf8.replacement, Utf8.replacement]) := by
    rfl
  refine ⟨denotes, unquoted, fun right => ?_⟩
  rw [unquoted, Except.ok.injEq] at right
  exact absurd right (by decide)

end Escape

end JsonFit.Json
