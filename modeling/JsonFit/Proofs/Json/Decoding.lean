import JsonFit.Json.Datum
import JsonFit.Proofs.Json.Standard
import JsonFit.Proofs.Text.Encoding

/-!
# What standard texts stand for

The grammar of RFC 8259 with its meaning, as a relation between a text and the
plain data that it stands for.  An escape stands for its character, and two escapes
of a surrogate pair for one; a number is rounded to the nearest number of double
precision; the members of an object stay in the order of the text, those with equal
keys included.

Half a surrogate pair on its own is in the grammar, but the standard gives it no
meaning, and so does this relation.  A text that stands for something is a standard
text, and every standard text is valid UTF-8.
-/

namespace JsonFit.Json

open Value (stringText)

variable {α β : Type} {Item : Bytes → α → Prop}

/-- Four hexadecimal digits and the number that they denote. -/
inductive FourDigits : Bytes → Nat → Prop where
  /-- The digits, the highest one first. -/
  | mk {a b c d : UInt8} {i j k l : Nat} (first : Ascii.hexValue? a = some i)
      (second : Ascii.hexValue? b = some j) (third : Ascii.hexValue? c = some k)
      (fourth : Ascii.hexValue? d = some l) :
      FourDigits [a, b, c, d] (((i * 16 + j) * 16 + k) * 16 + l)

/-- The letters of escapes, each with the character that its escape stands for. -/
def letterEscapes : List (UInt8 × Nat) :=
  [(Ascii.quotationMark, 0x22), (Ascii.backslash, 0x5C), (Ascii.slash, 0x2F),
    (Ascii.letterB, 0x08), (Ascii.letterF, 0x0C), (Ascii.letterN, 0x0A), (Ascii.letterR, 0x0D),
    (Ascii.letterT, 0x09)]

/-- Behind a backslash, the text stands for one character. -/
inductive EscapeText : Bytes → Nat → Prop where
  /-- One letter. -/
  | letter {b : UInt8} {point : Nat} (known : (b, point) ∈ letterEscapes) : EscapeText [b] point
  /-- Four digits, which are no half of a pair. -/
  | digits {ds : Bytes} {point : Nat} (four : FourDigits ds point)
      (scalar : Utf8.isScalar point = true) : EscapeText (Ascii.letterU :: ds) point
  /-- A surrogate pair, the second half of which is an escape of its own. -/
  | pair {ds ds' : Bytes} {high low : Nat} (first : FourDigits ds high)
      (isHigh : 0xD800 ≤ high ∧ high < 0xDC00) (second : FourDigits ds' low)
      (isLow : 0xDC00 ≤ low ∧ low < 0xE000) :
      EscapeText (Ascii.letterU :: (ds ++ Ascii.backslash :: Ascii.letterU :: ds'))
        (0x10000 + (high - 0xD800) * 0x400 + (low - 0xDC00))

/-- The text stands for one character inside of a string. -/
inductive CharText : Bytes → Nat → Prop where
  /-- A character that stands for itself. -/
  | plain {point : Nat} (scalar : Utf8.isScalar point = true)
      (notControl : Ascii.space.toNat ≤ point) (notMark : point ≠ Ascii.quotationMark.toNat)
      (notBackslash : point ≠ Ascii.backslash.toNat) : CharText (Utf8.encode point) point
  /-- An escape. -/
  | escape {t : Bytes} {point : Nat} (escaped : EscapeText t point) :
      CharText (Ascii.backslash :: t) point

/-- The inside of a string stands for these characters. -/
inductive StringDenotes : Bytes → List Nat → Prop where
  /-- Nothing. -/
  | nil : StringDenotes [] []
  /-- A character in front of others. -/
  | cons {t rest : Bytes} {point : Nat} {points : List Nat} (here : CharText t point)
      (others : StringDenotes rest points) : StringDenotes (t ++ rest) (point :: points)

/-- The text is a number of the standard grammar, and `x` is the number of double
precision that is nearest to it. -/
def NumberDenotes (t : Bytes) (x : Binary64) : Prop :=
  Decimal.IsStandard t ∧ ∃ n, Decimal.Numeral.read? t = some n ∧ n.nearest? = some x

/-- The inside of a string stands for a text. -/
def TextDenotes (raw s : Bytes) : Prop :=
  ∃ points, StringDenotes raw points ∧ s = Utf8.encodeAll points

/-- The text stands for the datum. -/
inductive Denotes : Bytes → Datum → Prop where
  /-- The null constant. -/
  | nothing : Denotes Value.nullText .nothing
  /-- A truth value. -/
  | bool (b : Bool) : Denotes (Value.boolText b) (.bool b)
  /-- A string. -/
  | text {raw : Bytes} {points : List Nat} (characters : StringDenotes raw points) :
      Denotes (stringText raw) (.text (Utf8.encodeAll points))
  /-- A number. -/
  | double {t : Bytes} {x : Binary64} (number : NumberDenotes t x) : Denotes t (.double x)
  /-- An array. -/
  | sequence {t : Bytes} {items : List Datum}
      (elements : Bracketed Ascii.openBracket Ascii.closeBracket Denotes t items) :
      Denotes t (.sequence items)
  /-- An object. -/
  | mapping {t : Bytes} {entries : List (Bytes × Datum)}
      (members : Bracketed Ascii.openBrace Ascii.closeBrace
        (MemberText TextDenotes Denotes) t entries) :
      Denotes t (.mapping entries)

/-- Induction over a datum, with a hypothesis for each part of a container. -/
@[elab_as_elim]
theorem Datum.induction {motive : Datum → Prop} (nothing : motive .nothing)
    (bool : ∀ b, motive (.bool b)) (text : ∀ s, motive (.text s))
    (integer : ∀ type n, motive (.integer type n)) (single : ∀ bits, motive (.single bits))
    (double : ∀ x, motive (.double x))
    (sequence : ∀ items, (∀ d ∈ items, motive d) → motive (.sequence items))
    (mapping : ∀ entries, (∀ entry ∈ entries, motive entry.2) → motive (.mapping entries))
    (value : ∀ v, motive (.value v)) (texts : ∀ items, motive (.texts items))
    (other : ∀ typeName, motive (.other typeName)) : ∀ d, motive d
  | .nothing => nothing
  | .bool b => bool b
  | .text s => text s
  | .integer type n => integer type n
  | .single bits => single bits
  | .double x => double x
  | .sequence items =>
      sequence items fun d _ =>
        induction nothing bool text integer single double sequence mapping value texts other d
  | .mapping entries =>
      mapping entries fun entry inside =>
        have := List.sizeOf_lt_of_mem inside
        induction nothing bool text integer single double sequence mapping value texts other
          entry.2
  | .value v => value v
  | .texts items => texts items
  | .other typeName => other typeName
termination_by d => d
decreasing_by
  · decreasing_tactic
  · have smaller : sizeOf entry.2 < sizeOf entry := by
      cases entry
      simp
    simp only [Datum.mapping.sizeOf_spec]
    omega

/-! ## Standard texts -/

theorem FourDigits.isSome {ds : Bytes} {point : Nat} (four : FourDigits ds point) :
    ds.length = 4 ∧ ∀ d ∈ ds, (Ascii.hexValue? d).isSome = true := by
  obtain ⟨first, second, third, fourth⟩ := four
  simp [first, second, third, fourth]

theorem mem_escapeLetters {b : UInt8} {point : Nat} (known : (b, point) ∈ letterEscapes) :
    b ∈ escapeLetters := by
  have table : ∀ e ∈ letterEscapes, e.1 ∈ escapeLetters := by decide
  exact table _ known

/-- What stands for characters is the inside of a standard string. -/
theorem StringDenotes.stringBody {raw : Bytes} {points : List Nat}
    (denotes : StringDenotes raw points) : StringBody raw := by
  induction denotes with
  | nil => exact .nil
  | cons here others ih =>
      cases here with
      | plain scalar notControl notMark notBackslash =>
          exact .char scalar notControl notMark notBackslash ih
      | escape escaped =>
          cases escaped with
          | letter known => exact .letter (mem_escapeLetters known) ih
          | digits four scalar =>
              obtain ⟨length, hexadecimal⟩ := four.isSome
              exact .digits length hexadecimal ih
          | pair first isHigh second isLow =>
              obtain ⟨length, hexadecimal⟩ := first.isSome
              obtain ⟨length', hexadecimal'⟩ := second.isSome
              have body := StringBody.digits length hexadecimal (.digits length' hexadecimal' ih)
              simpa using body

section Items

variable {Item' : Bytes → β → Prop}

theorem Listed.exists_of_forall {t : Bytes} {as : List α} (listed : Listed Item t as)
    (each : ∀ a ∈ as, ∀ t, Item t a → ∃ b, Item' t b) : ∃ bs, Listed Item' t bs := by
  induction listed with
  | last item =>
      obtain ⟨b, item'⟩ := each _ List.mem_cons_self _ item
      exact ⟨[b], .last item'⟩
  | cons item before behind others ih =>
      obtain ⟨here, each⟩ := List.forall_mem_cons.mp each
      obtain ⟨b, item'⟩ := here _ item
      obtain ⟨bs, listed'⟩ := ih each
      exact ⟨b :: bs, .cons item' before behind listed'⟩

/-- Items may be read as items of another kind, each on its own. -/
theorem Bracketed.exists_of_forall {opening closing : UInt8} {t : Bytes} {as : List α}
    (bracketed : Bracketed opening closing Item t as)
    (each : ∀ a ∈ as, ∀ t, Item t a → ∃ b, Item' t b) :
    ∃ bs, Bracketed opening closing Item' t bs := by
  cases bracketed with
  | empty inside => exact ⟨[], .empty inside⟩
  | items before listed behind =>
      obtain ⟨bs, listed'⟩ := listed.exists_of_forall each
      exact ⟨bs, .items before listed' behind⟩

end Items

/-- What stands for something has the shape of a value. -/
theorem Denotes.exists_shapes {t : Bytes} {d : Datum} (denotes : Denotes t d) :
    ∃ v, Shapes StringBody t v := by
  induction d using Datum.induction generalizing t with
  | nothing =>
      cases denotes
      exact ⟨_, .null⟩
  | bool b =>
      cases denotes
      exact ⟨_, .bool b⟩
  | text s =>
      cases denotes with
      | text characters => exact ⟨_, .string characters.stringBody⟩
  | double x =>
      cases denotes with
      | double number => exact ⟨.number x, .number number.1⟩
  | sequence items ih =>
      cases denotes with
      | sequence elements =>
          obtain ⟨vs, bracketed⟩ := elements.exists_of_forall fun d inside t => ih d inside
          exact ⟨_, .array bracketed⟩
  | mapping entries ih =>
      cases denotes with
      | mapping members =>
          have each : ∀ entry ∈ entries, ∀ t, MemberText TextDenotes Denotes t entry →
              ∃ m, MemberText (Verbatim StringBody) (Shapes StringBody) t m := by
            rintro _ inside _ ⟨⟨points, name, _⟩, before, behind, value⟩
            obtain ⟨v, shapes⟩ := ih _ inside value
            exact ⟨_, .mk ⟨name.stringBody, rfl⟩ before behind shapes⟩
          obtain ⟨ms, bracketed⟩ := members.exists_of_forall each
          exact ⟨_, .object bracketed⟩
  | integer type n => cases denotes
  | single bits => cases denotes
  | value v => cases denotes
  | texts items => cases denotes
  | other typeName => cases denotes

/-- What stands for something is a standard text. -/
theorem isStandardText_of_denotes {s : Bytes} {d : Datum} (denotes : Spaced Denotes s d) :
    IsStandardText s := by
  obtain ⟨w₁, t, w₂, before, item, behind, rfl⟩ := denotes
  obtain ⟨v, shapes⟩ := item.exists_shapes
  exact ⟨v, w₁, t, w₂, before, shapes, behind, rfl⟩

/-! ## Valid UTF-8 -/

theorem isValid_single {b : UInt8} (ascii : b.toNat < 0x80) : Utf8.isValid [b] = true :=
  Utf8.isValid_of_ascii (List.forall_mem_singleton.mpr ascii)

theorem isValid_cons {b : UInt8} {t : Bytes} (ascii : b.toNat < 0x80)
    (valid : Utf8.isValid t = true) : Utf8.isValid (b :: t) = true :=
  Utf8.isValid_append (isValid_single ascii) valid

theorem Blank.isValid {w : Bytes} (blank : Blank w) : Utf8.isValid w = true := by
  apply Utf8.isValid_of_ascii
  intro b inside
  rcases blank b inside with rfl | rfl | rfl | rfl <;> decide

theorem isValid_of_isStandard {t : Bytes} (standard : Decimal.IsStandard t) :
    Utf8.isValid t = true := by
  have ascii : Rules.numberBytes.all (·.toNat < 0x80) = true := by rfl
  apply Utf8.isValid_of_ascii
  intro b inside
  have inClass := mem_numberBytes_of_isStandard standard b inside
  exact of_decide_eq_true (List.all_eq_true.mp ascii b inClass)

theorem ascii_of_hexValue? {d : UInt8} (isDigit : (Ascii.hexValue? d).isSome = true) :
    d.toNat < 0x80 := by
  simp only [Ascii.hexValue?, UInt8.le_iff_toNat_le, UInt8.reduceToNat] at isDigit
  split at isDigit
  · omega
  split at isDigit
  · omega
  split at isDigit
  · omega
  · cases isDigit

theorem StringBody.isValid {raw : Bytes} (body : StringBody raw) : Utf8.isValid raw = true := by
  induction body with
  | nil => rfl
  | @char point _ scalar _ _ _ _ ih =>
      exact Utf8.isValid_append (Utf8.isValid_encode scalar) ih
  | @letter b _ known _ ih =>
      have ascii : escapeLetters.all (·.toNat < 0x80) = true := by rfl
      have small : b.toNat < 0x80 := of_decide_eq_true (List.all_eq_true.mp ascii b known)
      exact isValid_cons (by decide) (isValid_cons small ih)
  | @digits ds _ _ hexadecimal _ ih =>
      have digits : Utf8.isValid ds = true :=
        Utf8.isValid_of_ascii fun d inside => ascii_of_hexValue? (hexadecimal d inside)
      exact isValid_cons (by decide) (isValid_cons (by decide) (Utf8.isValid_append digits ih))

theorem isValid_stringText {raw : Bytes} (body : StringBody raw) :
    Utf8.isValid (stringText raw) = true :=
  isValid_cons (by decide) (Utf8.isValid_append body.isValid (isValid_single (by decide)))

theorem Listed.isValid {t : Bytes} {as : List α} (listed : Listed Item t as)
    (each : ∀ a ∈ as, ∀ t, Item t a → Utf8.isValid t = true) : Utf8.isValid t = true := by
  induction listed with
  | last item => exact each _ List.mem_cons_self _ item
  | @cons t w₁ w₂ rest a as item before behind others ih =>
      obtain ⟨here, each⟩ := List.forall_mem_cons.mp each
      have separator : Utf8.isValid (w₁ ++ Ascii.comma :: w₂) = true :=
        Utf8.isValid_append before.isValid (isValid_cons (by decide) behind.isValid)
      have whole := Utf8.isValid_append (here t item) (Utf8.isValid_append separator (ih each))
      simpa using whole

theorem Bracketed.isValid {opening closing : UInt8} {t : Bytes} {as : List α}
    (opens : opening.toNat < 0x80) (closes : closing.toNat < 0x80)
    (bracketed : Bracketed opening closing Item t as)
    (each : ∀ a ∈ as, ∀ t, Item t a → Utf8.isValid t = true) : Utf8.isValid t = true := by
  cases bracketed with
  | empty inside =>
      exact isValid_cons opens (Utf8.isValid_append inside.isValid (isValid_single closes))
  | @items w₁ body w₂ _ before listed behind =>
      have closed := Utf8.isValid_append behind.isValid (isValid_single closes)
      have whole := isValid_cons opens (Utf8.isValid_append before.isValid
        (Utf8.isValid_append (listed.isValid each) closed))
      simpa using whole

theorem Shapes.isValid {t : Bytes} {v : Value} (shapes : Shapes StringBody t v) :
    Utf8.isValid t = true := by
  induction v using Value.induction generalizing t with
  | object members ih =>
      cases shapes with
      | object bracketed =>
          apply bracketed.isValid (by decide) (by decide)
          rintro _ inside _ ⟨⟨body, rfl⟩, before, behind, value⟩
          have separator := Utf8.isValid_append before.isValid
            (isValid_cons (by decide : Ascii.colon.toNat < 0x80) behind.isValid)
          have whole := Utf8.isValid_append (isValid_stringText body)
            (Utf8.isValid_append separator (ih _ inside value))
          simpa using whole
  | array elements ih =>
      cases shapes with
      | array bracketed =>
          exact bracketed.isValid (by decide) (by decide) fun v inside t => ih v inside
  | string raw =>
      cases shapes with
      | string body => exact isValid_stringText body
  | number x =>
      cases shapes with
      | number standard => exact isValid_of_isStandard standard
  | bool b =>
      cases shapes
      cases b <;> rfl
  | null =>
      cases shapes
      rfl
  | missing => cases shapes

/-- Standard texts are valid UTF-8. -/
theorem IsStandardText.isValid {s : Bytes} (standard : IsStandardText s) :
    Utf8.isValid s = true := by
  obtain ⟨v, w₁, t, w₂, before, shapes, behind, rfl⟩ := standard
  exact Utf8.isValid_append (Utf8.isValid_append before.isValid shapes.isValid) behind.isValid

end JsonFit.Json
