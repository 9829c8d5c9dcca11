import JsonFit.Json.Escape
import JsonFit.Json.Grammar

/-!
# Relaxed JSON

Relaxed JSON is strict JSON with two additions: comments wherever white space
may stand, and one comma behind the last element of a container that is not
empty.  A comment runs from `//` to a line feed, or from `/*` to the next `*/`,
and is valid UTF-8.

`standardize?` turns a relaxed text into a plain one by writing spaces over
comments and over those commas.  The length stays the same, so offsets in the
two texts agree.
-/

namespace JsonFit.Stock.Relaxed

open Json (isSpace)

/-- A comment with a space in place of everything but white space. -/
def blankOut (comment : Bytes) : Bytes :=
  comment.map fun b => if isSpace b then b else Ascii.space

/-- The length of the comment at the start of a text, if it is terminated. -/
def commentEnd? : Bytes → Option Nat
  | Ascii.slash :: Ascii.slash :: rest => (Bytes.find? [Ascii.lineFeed] rest).map (· + 3)
  | Ascii.slash :: Ascii.asterisk :: rest =>
      (Bytes.find? [Ascii.asterisk, Ascii.slash] rest).map (· + 4)
  | _ => none

/-- The length of the comment at the start of a text, if it is valid. -/
def comment? (text : Bytes) : Option Nat :=
  (commentEnd? text).filter fun n => Utf8.isValid (text.take n)

/-- Takes white space and comments off a text, at most `fuel` pieces of them.
The first result is what is written in their place. -/
def fillerLoop : (fuel : Nat) → Bytes → Bytes × Bytes
  | 0, text => ([], text)
  | _, [] => ([], [])
  | fuel + 1, b :: rest =>
      if isSpace b then
        let (written, others) := fillerLoop fuel rest
        (b :: written, others)
      else
        match comment? (b :: rest) with
        | some n =>
            let (written, others) := fillerLoop fuel ((b :: rest).drop n)
            (blankOut ((b :: rest).take n) ++ written, others)
        | none => ([], b :: rest)

/-- Takes all white space and comments off a text. -/
def filler (text : Bytes) : Bytes × Bytes :=
  fillerLoop text.length text

/-- The letters of one-letter escapes. -/
def isEscapeLetter (b : UInt8) : Bool :=
  (Json.Escape.ofLetter? b).isSome

/-- Takes the rest of a strict string, behind its opening quotation mark, off a
text. -/
def stringRest? : Bytes → Option (Bytes × Bytes)
  | [] => none
  | b :: rest =>
      if b = Ascii.quotationMark then some ([b], rest)
      else if b < Ascii.space then none
      else if b ≠ Ascii.backslash then
        (stringRest? rest).map fun (taken, others) => (b :: taken, others)
      else
        match rest with
        | [] => none
        | letter :: rest =>
            if isEscapeLetter letter then
              (stringRest? rest).map fun (taken, others) => (b :: letter :: taken, others)
            else
              match rest with
              | d₁ :: d₂ :: d₃ :: d₄ :: rest =>
                  if letter = Ascii.letterU &&
                      [d₁, d₂, d₃, d₄].all fun d => (Ascii.hexValue? d).isSome
                  then
                    (stringRest? rest).map fun (taken, others) =>
                      (b :: letter :: d₁ :: d₂ :: d₃ :: d₄ :: taken, others)
                  else none
              | _ => none

/-- What may follow the integer part of a strict number. -/
def isExponentPart : Bytes → Bool
  | [] => true
  | mark :: rest =>
      (mark == Ascii.letterE || mark == Ascii.capitalE) &&
        (let digits := match rest with
          | sign :: others => if sign == Ascii.plus || sign == Ascii.hyphen then others else rest
          | [] => []
        !digits.isEmpty && digits.all Ascii.isDigit)

/-- A fraction, if there is one, and an exponent, if there is one. -/
def isFractionPart : Bytes → Bool
  | Ascii.point :: rest =>
      !(rest.takeWhile Ascii.isDigit).isEmpty && isExponentPart (rest.dropWhile Ascii.isDigit)
  | text => isExponentPart text

/-- A strict JSON number without its sign. -/
def isUnsignedNumber : Bytes → Bool
  | Ascii.zero :: rest => isFractionPart rest
  | text =>
      !(text.takeWhile Ascii.isDigit).isEmpty && isFractionPart (text.dropWhile Ascii.isDigit)

/-- A strict JSON number. -/
def isNumber : Bytes → Bool
  | Ascii.hyphen :: rest => isUnsignedNumber rest
  | text => isUnsignedNumber text

/-- The bytes of constants and numbers. -/
def isWordByte (b : UInt8) : Bool :=
  Ascii.isDigit b || Ascii.isLetter b || b == Ascii.plus || b == Ascii.hyphen ||
    b == Ascii.point

/-- Takes a constant or a number off a text. -/
def word? (text : Bytes) : Option (Bytes × Bytes) :=
  let word := text.takeWhile isWordByte
  if word = Bytes.ofString "null" ∨ word = Bytes.ofString "true" ∨
      word = Bytes.ofString "false" ∨ isNumber word
  then some (word, text.dropWhile isWordByte) else none

/-- What is written for a comma: itself, or a space if the container ends
behind it. -/
def commaBefore (rest : Bytes) (close : UInt8) : UInt8 :=
  if (filler rest).2.head? = some close then Ascii.space else Ascii.comma

mutual

/-- Takes a value off a text. -/
def value? : (fuel : Nat) → Bytes → Option (Bytes × Bytes)
  | 0, _ => none
  | _, [] => none
  | fuel + 1, b :: rest =>
      if b = Ascii.quotationMark then
        (stringRest? rest).map fun (taken, others) => (b :: taken, others)
      else if b = Ascii.openBracket then
        (elements? fuel rest).map fun (taken, others) => (b :: taken, others)
      else if b = Ascii.openBrace then
        (members? fuel rest).map fun (taken, others) => (b :: taken, others)
      else word? (b :: rest)

/-- Takes the rest of an array, with its closing bracket, off a text. -/
def elements? : (fuel : Nat) → Bytes → Option (Bytes × Bytes)
  | 0, _ => none
  | fuel + 1, text =>
      let (before, start) := filler text
      match start with
      | Ascii.closeBracket :: others => some (before ++ [Ascii.closeBracket], others)
      | _ => do
          let (element, afterElement) ← value? fuel start
          let (behind, stop) := filler afterElement
          match stop with
          | Ascii.closeBracket :: others =>
              some (before ++ element ++ behind ++ [Ascii.closeBracket], others)
          | Ascii.comma :: rest =>
              let (further, others) ← elements? fuel rest
              some (before ++ element ++ behind ++ commaBefore rest Ascii.closeBracket :: further,
                others)
          | _ => none

/-- Takes the rest of an object, with its closing brace, off a text. -/
def members? : (fuel : Nat) → Bytes → Option (Bytes × Bytes)
  | 0, _ => none
  | fuel + 1, text =>
      let (before, start) := filler text
      match start with
      | Ascii.closeBrace :: others => some (before ++ [Ascii.closeBrace], others)
      | Ascii.quotationMark :: rest => do
          let (key, afterKey) ← stringRest? rest
          let (beforeColon, colon) := filler afterKey
          match colon with
          | Ascii.colon :: rest => do
              let (behindColon, start) := filler rest
              let (member, afterMember) ← value? fuel start
              let (behind, stop) := filler afterMember
              let written :=
                before ++ Ascii.quotationMark :: key ++ beforeColon ++
                  Ascii.colon :: behindColon ++ member ++ behind
              match stop with
              | Ascii.closeBrace :: others => some (written ++ [Ascii.closeBrace], others)
              | Ascii.comma :: rest =>
                  let (further, others) ← members? fuel rest
                  some (written ++ commaBefore rest Ascii.closeBrace :: further, others)
              | _ => none
          | _ => none
      | _ => none

end

/-- The plain JSON text for a relaxed one. -/
def standardize? (text : Bytes) : Option Bytes := do
  let (before, start) := filler text
  let (written, afterValue) ← value? (2 * text.length + 2) start
  let (behind, rest) := filler afterValue
  if rest.isEmpty then some (before ++ written ++ behind) else none

/-! ## Lengths -/

theorem length_fillerLoop (fuel : Nat) (text : Bytes) :
    (fillerLoop fuel text).1.length + (fillerLoop fuel text).2.length = text.length := by
  induction fuel generalizing text with
  | zero => simp [fillerLoop]
  | succ fuel ih =>
      cases text with
      | nil => simp [fillerLoop]
      | cons b rest =>
          simp only [fillerLoop]
          split
          · have := ih rest
            simp only [List.length_cons]
            omega
          · split
            · rename_i n _
              have := ih ((b :: rest).drop n)
              have parts : ((b :: rest).take n).length + ((b :: rest).drop n).length =
                  (b :: rest).length := by
                rw [← List.length_append, List.take_append_drop]
              simp only [List.length_append, blankOut, List.length_map]
              omega
            · simp

theorem length_filler (text : Bytes) :
    (filler text).1.length + (filler text).2.length = text.length :=
  length_fillerLoop text.length text

theorem length_stringRest? {text : Bytes} {taken : Bytes × Bytes}
    (h : stringRest? text = some taken) : taken.1.length + taken.2.length = text.length := by
  fun_induction stringRest? text generalizing taken <;>
    simp_all [Option.map_eq_some_iff] <;> grind

theorem length_word? {text : Bytes} {taken : Bytes × Bytes}
    (h : word? text = some taken) : taken.1.length + taken.2.length = text.length := by
  simp only [word?] at h
  split at h
  · obtain rfl := Option.some.inj h
    rw [← List.length_append, List.takeWhile_append_dropWhile]
  · cases h

mutual

theorem length_value? (fuel : Nat) {text : Bytes} {taken : Bytes × Bytes}
    (h : value? fuel text = some taken) : taken.1.length + taken.2.length = text.length := by
  match fuel, text with
  | 0, _ => simp [value?] at h
  | fuel + 1, [] => simp [value?] at h
  | fuel + 1, b :: rest =>
      simp only [value?] at h
      split at h
      · obtain ⟨inner, eq, rfl⟩ := Option.map_eq_some_iff.1 h
        have := length_stringRest? eq
        simp only [List.length_cons]
        omega
      · split at h
        · obtain ⟨inner, eq, rfl⟩ := Option.map_eq_some_iff.1 h
          have := length_elements? fuel eq
          simp only [List.length_cons]
          omega
        · split at h
          · obtain ⟨inner, eq, rfl⟩ := Option.map_eq_some_iff.1 h
            have := length_members? fuel eq
            simp only [List.length_cons]
            omega
          · exact length_word? h

theorem length_elements? (fuel : Nat) {text : Bytes} {taken : Bytes × Bytes}
    (h : elements? fuel text = some taken) : taken.1.length + taken.2.length = text.length := by
  match fuel with
  | 0 => simp [elements?] at h
  | fuel + 1 =>
      have outer := length_filler text
      simp only [elements?] at h
      split at h
      · rename_i others start
        obtain rfl := Option.some.inj h
        rw [start] at outer
        simp only [List.length_cons, List.length_append, List.length_nil] at outer ⊢
        omega
      · obtain ⟨⟨element, afterElement⟩, read, h⟩ := Option.bind_eq_some_iff.1 h
        have middle := length_value? fuel read
        have inner := length_filler afterElement
        dsimp only at h middle
        split at h
        · rename_i others stop
          obtain rfl := Option.some.inj h
          rw [stop] at inner
          simp only [List.length_cons, List.length_append, List.length_nil] at inner ⊢
          omega
        · rename_i rest stop
          obtain ⟨⟨further, others⟩, more, h⟩ := Option.bind_eq_some_iff.1 h
          have tail := length_elements? fuel more
          obtain rfl := Option.some.inj h
          rw [stop] at inner
          simp only [List.length_cons, List.length_append] at inner tail ⊢
          omega
        · cases h

theorem length_members? (fuel : Nat) {text : Bytes} {taken : Bytes × Bytes}
    (h : members? fuel text = some taken) : taken.1.length + taken.2.length = text.length := by
  match fuel with
  | 0 => simp [members?] at h
  | fuel + 1 =>
      have outer := length_filler text
      simp only [members?] at h
      split at h
      · rename_i others start
        obtain rfl := Option.some.inj h
        rw [start] at outer
        simp only [List.length_cons, List.length_append, List.length_nil] at outer ⊢
        omega
      · rename_i rest start
        rw [start] at outer
        obtain ⟨⟨key, afterKey⟩, readKey, h⟩ := Option.bind_eq_some_iff.1 h
        have keyLength := length_stringRest? readKey
        have colonLength := length_filler afterKey
        dsimp only at h keyLength
        split at h
        · rename_i rest colon
          rw [colon] at colonLength
          have behindColonLength := length_filler rest
          obtain ⟨⟨member, afterMember⟩, readMember, h⟩ := Option.bind_eq_some_iff.1 h
          have memberLength := length_value? fuel readMember
          have behindLength := length_filler afterMember
          dsimp only at h memberLength
          split at h
          · rename_i others stop
            obtain rfl := Option.some.inj h
            rw [stop] at behindLength
            simp only [List.length_cons, List.length_append, List.length_nil] at *
            omega
          · rename_i rest stop
            obtain ⟨⟨further, others⟩, more, h⟩ := Option.bind_eq_some_iff.1 h
            have tail := length_members? fuel more
            obtain rfl := Option.some.inj h
            rw [stop] at behindLength
            simp only [List.length_cons, List.length_append] at *
            omega
          · cases h
        · cases h
      · cases h

end

/-- The plain text is as long as the relaxed one. -/
theorem length_standardize? {text plain : Bytes} (h : standardize? text = some plain) :
    plain.length = text.length := by
  have outer := length_filler text
  simp only [standardize?] at h
  obtain ⟨⟨written, afterValue⟩, read, h⟩ := Option.bind_eq_some_iff.1 h
  have middle := length_value? _ read
  have inner := length_filler afterValue
  dsimp only at h middle
  split at h
  · rename_i stop
    obtain rfl := Option.some.inj h
    have none := List.isEmpty_iff.1 stop
    rw [none] at inner
    simp only [List.length_append, List.length_nil] at *
    omega
  · cases h

end JsonFit.Stock.Relaxed
