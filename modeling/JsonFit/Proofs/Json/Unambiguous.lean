import JsonFit.Proofs.Json.Decoding

/-!
# A standard text stands for one thing

The standard's grammar is not ambiguous: no text stands for two data.  The first
byte of a text tells its kind.  Where it ends is told by the text itself, except for
a number, which might go on; so what follows a text must not begin with a character
of numbers, and inside of a text it never does.

`Separable` says this of one item, whatever the items are.  Lists and brackets are
treated once for the elements of arrays and the members of objects.
-/

namespace JsonFit.Json

open JsonFit.Parser (Clear)
open Rules (numberBytes closes_closeBracket closes_closeBrace)
open Value (stringText)

variable {α : Type} {Item : Bytes → α → Prop}

/-- A run of a class ends at one place only. -/
theorem run_append_inj {cls : UInt8 → Bool} {x x' y y' : Bytes} (inClass : ∀ b ∈ x, cls b = true)
    (inClass' : ∀ b ∈ x', cls b = true) (clear : Clear cls y) (clear' : Clear cls y')
    (same : x ++ y = x' ++ y') : x = x' ∧ y = y' := by
  induction x generalizing x' with
  | nil =>
      cases x' with
      | nil => exact ⟨rfl, same⟩
      | cons b x' =>
          obtain rfl : y = b :: (x' ++ y') := same
          have outside := (Parser.clear_cons cls b _).mp clear
          rw [inClass' b List.mem_cons_self] at outside
          contradiction
  | cons b x ih =>
      cases x' with
      | nil =>
          obtain rfl : b :: (x ++ y) = y' := same
          have outside := (Parser.clear_cons cls b _).mp clear'
          rw [inClass b List.mem_cons_self] at outside
          contradiction
      | cons b' x' =>
          obtain ⟨rfl, others⟩ := List.cons.inj same
          obtain ⟨rfl, restEq⟩ := ih (List.forall_mem_cons.mp inClass).2
            (List.forall_mem_cons.mp inClass').2 others
          exact ⟨rfl, restEq⟩

/-- White space ends at one place only. -/
theorem Blank.append_inj {w w' y y' : Bytes} (blank : Blank w) (blank' : Blank w')
    (clear : Clear isSpace y) (clear' : Clear isSpace y') (same : w ++ y = w' ++ y') :
    w = w' ∧ y = y' :=
  run_append_inj (blank_iff.mp blank) (blank_iff.mp blank') clear clear' same

/-! ## Strings -/

theorem FourDigits.append_inj {ds ds' r r' : Bytes} {n n' : Nat} (four : FourDigits ds n)
    (four' : FourDigits ds' n') (same : ds ++ r = ds' ++ r') : ds = ds' ∧ n = n' ∧ r = r' := by
  obtain ⟨dsEq, restEq⟩ :=
    List.append_inj same (four.isSome.1.trans four'.isSome.1.symm)
  subst dsEq
  obtain ⟨first, second, third, fourth⟩ := four
  cases four' with
  | mk first' second' third' fourth' =>
      obtain rfl := Option.some.inj (first.symm.trans first')
      obtain rfl := Option.some.inj (second.symm.trans second')
      obtain rfl := Option.some.inj (third.symm.trans third')
      obtain rfl := Option.some.inj (fourth.symm.trans fourth')
      exact ⟨rfl, rfl, restEq⟩

/-- A character that stands for itself does not begin like an escape, nor like the
end of a string. -/
theorem encode_append_ne_cons {point : Nat} (scalar : Utf8.isScalar point = true) {b : UInt8}
    (ascii : b.toNat < 0x80) (other : point ≠ b.toNat) (r r' : Bytes) :
    Utf8.encode point ++ r ≠ b :: r' := by
  intro same
  have single : b :: r' = Utf8.encode b.toNat ++ r' := by
    rw [Utf8.encode_of_lt ascii, UInt8.ofNat_toNat]
    rfl
  have scalar' : Utf8.isScalar b.toNat = true := Utf8.isScalar_iff.mpr (.inl (by omega))
  exact other (Utf8.encode_append_inj scalar scalar' (same.trans single)).1

theorem CharText.ne_mark {t r r' : Bytes} {point : Nat} (here : CharText t point) :
    t ++ r ≠ Ascii.quotationMark :: r' := by
  cases here with
  | plain scalar notControl notMark notBackslash =>
      exact encode_append_ne_cons scalar (by decide) notMark r r'
  | escape escaped => exact fun same => absurd (List.cons.inj same).1 (by decide)

theorem not_isScalar_of_surrogate {point : Nat} (low : 0xD800 ≤ point) (high : point < 0xE000) :
    ¬ Utf8.isScalar point = true := by
  rw [Utf8.isScalar_iff]
  omega

/-- A letter has one meaning. -/
theorem point_unique {b : UInt8} {point point' : Nat} (known : (b, point) ∈ letterEscapes)
    (known' : (b, point') ∈ letterEscapes) : point = point' := by
  have table : ∀ e ∈ letterEscapes, ∀ e' ∈ letterEscapes, e.1 = e'.1 → e.2 = e'.2 := by decide
  exact table _ known _ known' rfl

theorem letterU_notMem {point : Nat} : (Ascii.letterU, point) ∉ letterEscapes :=
  fun known => absurd (mem_escapeLetters known) (by decide)

/-- The end of an escape can be told from whatever follows: a letter is not the mark
of digits, and digits of the first half of a pair are no character on their own. -/
theorem EscapeText.append_inj {t t' r r' : Bytes} {point point' : Nat}
    (escaped : EscapeText t point) (escaped' : EscapeText t' point') (same : t ++ r = t' ++ r') :
    t = t' ∧ point = point' := by
  cases escaped with
  | letter known =>
      cases escaped' with
      | letter known' =>
          obtain ⟨rfl, _⟩ := List.cons.inj same
          exact ⟨rfl, point_unique known known'⟩
      | digits =>
          obtain ⟨rfl, _⟩ := List.cons.inj same
          exact absurd known letterU_notMem
      | pair =>
          obtain ⟨rfl, _⟩ := List.cons.inj same
          exact absurd known letterU_notMem
  | digits four scalar =>
      cases escaped' with
      | letter known' =>
          obtain ⟨rfl, _⟩ := List.cons.inj same
          exact absurd known' letterU_notMem
      | digits four' _ =>
          obtain ⟨rfl, rfl, _⟩ := four.append_inj four' (List.cons.inj same).2
          exact ⟨rfl, rfl⟩
      | pair first' isHigh' _ _ =>
          simp only [List.cons_append, List.append_assoc, List.cons.injEq, true_and] at same
          obtain ⟨_, rfl, _⟩ := four.append_inj first' same
          exact absurd scalar (not_isScalar_of_surrogate isHigh'.1 (by omega))
  | pair first isHigh second isLow =>
      simp only [List.cons_append, List.append_assoc] at same
      cases escaped' with
      | letter known' =>
          obtain ⟨rfl, _⟩ := List.cons.inj same
          exact absurd known' letterU_notMem
      | digits four' scalar' =>
          obtain ⟨_, rfl, _⟩ := first.append_inj four' (List.cons.inj same).2
          exact absurd scalar' (not_isScalar_of_surrogate isHigh.1 (by omega))
      | pair first' _ second' _ =>
          simp only [List.cons_append, List.append_assoc, List.cons.injEq, true_and] at same
          obtain ⟨rfl, rfl, further⟩ := first.append_inj first' same
          simp only [List.cons.injEq, true_and] at further
          obtain ⟨rfl, rfl, _⟩ := second.append_inj second' further
          exact ⟨rfl, rfl⟩

/-- The first character inside of a string can be told from whatever follows. -/
theorem CharText.append_inj {t t' r r' : Bytes} {point point' : Nat} (here : CharText t point)
    (here' : CharText t' point') (same : t ++ r = t' ++ r') : t = t' ∧ point = point' := by
  cases here with
  | plain scalar notControl notMark notBackslash =>
      cases here' with
      | plain scalar' _ _ _ =>
          obtain ⟨rfl, _⟩ := Utf8.encode_append_inj scalar scalar' same
          exact ⟨rfl, rfl⟩
      | escape => exact absurd same (encode_append_ne_cons scalar (by decide) notBackslash r _)
  | escape escaped =>
      cases here' with
      | plain scalar' _ _ notBackslash' =>
          exact absurd same.symm (encode_append_ne_cons scalar' (by decide) notBackslash' r' _)
      | escape escaped' =>
          obtain ⟨rfl, rfl⟩ := escaped.append_inj escaped' (List.cons.inj same).2
          exact ⟨rfl, rfl⟩

/-- A string ends at the first quotation mark that is not escaped. -/
theorem StringDenotes.append_inj {raw raw' r r' : Bytes} {points points' : List Nat}
    (denotes : StringDenotes raw points) (denotes' : StringDenotes raw' points')
    (same : raw ++ Ascii.quotationMark :: r = raw' ++ Ascii.quotationMark :: r') :
    raw = raw' ∧ points = points' ∧ r = r' := by
  induction denotes generalizing raw' points' with
  | nil =>
      cases denotes' with
      | nil => exact ⟨rfl, rfl, (List.cons.inj same).2⟩
      | cons here' _ =>
          rw [List.append_assoc] at same
          exact absurd same.symm here'.ne_mark
  | cons here others ih =>
      rw [List.append_assoc] at same
      cases denotes' with
      | nil => exact absurd same here.ne_mark
      | cons here' others' =>
          rw [List.append_assoc] at same
          obtain ⟨rfl, rfl⟩ := here.append_inj here' same
          obtain ⟨rfl, rfl, restEq⟩ := ih others' (List.append_cancel_left same)
          exact ⟨rfl, rfl, restEq⟩

theorem stringText_append_inj {raw raw' r r' : Bytes} {points points' : List Nat}
    (denotes : StringDenotes raw points) (denotes' : StringDenotes raw' points')
    (same : stringText raw ++ r = stringText raw' ++ r') :
    raw = raw' ∧ points = points' ∧ r = r' := by
  simp only [stringText, List.cons_append, List.append_assoc, List.nil_append] at same
  exact denotes.append_inj denotes' (List.cons.inj same).2

/-! ## Lists and brackets -/

/-- The texts of an item can be told from those of others and from what follows, if
that does not begin with a character of numbers. -/
def Separable (Item : Bytes → α → Prop) (a : α) : Prop :=
  ∀ ⦃t t' a' r r'⦄, Item t a → Item t' a' → Clear numberBytes.contains r →
    Clear numberBytes.contains r' → t ++ r = t' ++ r' → t = t' ∧ a = a'

section Items

variable {closing : UInt8}

theorem Closes.clear_space (closes : Closes closing) (r : Bytes) :
    Clear isSpace (closing :: r) :=
  (Parser.clear_cons isSpace closing r).mpr closes.notSpace

/-- Neither the end of a list nor a further item goes on with a number. -/
theorem Blank.clear_number_cons {w : Bytes} (blank : Blank w) {b : UInt8}
    (notNumber : numberBytes.contains b = false) (r : Bytes) :
    Clear numberBytes.contains (w ++ b :: r) :=
  blank.clear_number ((Parser.clear_cons numberBytes.contains b r).mpr notNumber)

theorem Listed.append_inj (closes : Closes closing) (visible : Visible Item) {body body' : Bytes}
    {as as' : List α} (each : ∀ a ∈ as, Separable Item a) (listed : Listed Item body as)
    (listed' : Listed Item body' as') {w w' r r' : Bytes} (blank : Blank w) (blank' : Blank w')
    (same : body ++ (w ++ closing :: r) = body' ++ (w' ++ closing :: r')) :
    body = body' ∧ as = as' := by
  have commaSpace (r : Bytes) : Clear isSpace (Ascii.comma :: r) :=
    (Parser.clear_cons isSpace Ascii.comma r).mpr rfl
  have ended := blank.clear_number_cons closes.notNumber r
  have ended' := blank'.clear_number_cons closes.notNumber r'
  induction listed generalizing body' as' with
  | last item =>
      have separable := each _ List.mem_cons_self
      cases listed' with
      | last item' =>
          obtain ⟨rfl, rfl⟩ := separable item item' ended ended' same
          exact ⟨rfl, rfl⟩
      | @cons t' w₁ w₂ rest a' as' item' before' behind' others' =>
          simp only [List.append_assoc, List.cons_append] at same
          obtain ⟨rfl, _⟩ :=
            separable item item' ended (before'.clear_number_cons rfl _) same
          have further := List.append_cancel_left same
          obtain ⟨_, closed⟩ :=
            blank.append_inj before' (closes.clear_space r) (commaSpace _) further
          exact absurd (List.cons.inj closed).1 closes.notComma
  | @cons t w₁ w₂ rest a as item before behind others ih =>
      obtain ⟨separable, each⟩ := List.forall_mem_cons.mp each
      simp only [List.append_assoc, List.cons_append] at same
      cases listed' with
      | last item' =>
          obtain ⟨rfl, _⟩ := separable item item' (before.clear_number_cons rfl _) ended' same
          have further := List.append_cancel_left same
          obtain ⟨_, closed⟩ :=
            before.append_inj blank' (commaSpace _) (closes.clear_space r') further
          exact absurd (List.cons.inj closed).1.symm closes.notComma
      | @cons t' w₁' w₂' rest' a' as' item' before' behind' others' =>
          simp only [List.append_assoc, List.cons_append] at same
          obtain ⟨rfl, rfl⟩ := separable item item' (before.clear_number_cons rfl _)
            (before'.clear_number_cons rfl _) same
          obtain ⟨rfl, comma⟩ := before.append_inj before' (commaSpace _) (commaSpace _)
            (List.append_cancel_left same)
          have visibleList := visible_listed visible
          obtain ⟨rfl, further⟩ := behind.append_inj behind' (visibleList.clear others _)
            (visibleList.clear others' _) (List.cons.inj comma).2
          obtain ⟨rfl, rfl⟩ := ih each others' further
          exact ⟨rfl, rfl⟩

/-- A list begins with its first item. -/
theorem Listed.ne_closing (visible : Visible Item)
    (unclosed : ∀ ⦃t a⦄, Item t a → ∀ rest, t ≠ closing :: rest) {body : Bytes} {as : List α}
    (listed : Listed Item body as) (r r' : Bytes) : body ++ r ≠ closing :: r' := by
  intro same
  obtain ⟨b, rest, bodyEq, first⟩ : ∃ b rest, body = b :: rest ∧ b ≠ closing := by
    cases listed with
    | last item =>
        obtain ⟨b, rest, rfl, _⟩ := visible item
        exact ⟨b, rest, rfl, fun same => unclosed item rest (same ▸ rfl)⟩
    | cons item =>
        obtain ⟨b, rest, rfl, _⟩ := visible item
        exact ⟨b, _, rfl, fun same => unclosed item rest (same ▸ rfl)⟩
  subst bodyEq
  exact first (List.cons.inj same).1

/-- Items in brackets can be told from what follows, if no item begins with the
closing bracket. -/
theorem Bracketed.append_inj {opening : UInt8} (closes : Closes closing) (visible : Visible Item)
    (unclosed : ∀ ⦃t a⦄, Item t a → ∀ rest, t ≠ closing :: rest) {t t' : Bytes} {as as' : List α}
    (each : ∀ a ∈ as, Separable Item a) (bracketed : Bracketed opening closing Item t as)
    (bracketed' : Bracketed opening closing Item t' as') {r r' : Bytes}
    (same : t ++ r = t' ++ r') : t = t' ∧ as = as' := by
  have visibleList := visible_listed visible
  cases bracketed with
  | @empty w inside =>
      cases bracketed' with
      | @empty w' inside' =>
          simp only [List.cons_append, List.append_assoc, List.cons.injEq, true_and] at same
          obtain ⟨rfl, _⟩ := inside.append_inj inside' (closes.clear_space _)
            (closes.clear_space _) same
          exact ⟨rfl, rfl⟩
      | items before' listed' behind' =>
          simp only [List.cons_append, List.append_assoc, List.cons.injEq, true_and] at same
          obtain ⟨_, closed⟩ := inside.append_inj before' (closes.clear_space _)
            (visibleList.clear listed' _) same
          exact absurd closed.symm (listed'.ne_closing visible unclosed _ _)
  | items before listed behind =>
      cases bracketed' with
      | empty inside' =>
          simp only [List.cons_append, List.append_assoc, List.cons.injEq, true_and] at same
          obtain ⟨_, closed⟩ := before.append_inj inside' (visibleList.clear listed _)
            (closes.clear_space _) same
          exact absurd closed (listed.ne_closing visible unclosed _ _)
      | items before' listed' behind' =>
          simp only [List.cons_append, List.append_assoc, List.cons.injEq, true_and] at same
          obtain ⟨rfl, opened⟩ := before.append_inj before' (visibleList.clear listed _)
            (visibleList.clear listed' _) same
          obtain ⟨rfl, rfl⟩ :=
            Listed.append_inj closes visible each listed listed' behind behind' opened
          obtain ⟨rfl, _⟩ := behind.append_inj behind' (closes.clear_space _)
            (closes.clear_space _) (List.append_cancel_left opened)
          exact ⟨rfl, rfl⟩

end Items

/-- The kinds of texts, each with first bytes of its own. -/
inductive Kind where
  | null
  | bool
  | string
  | number
  | array
  | object
  deriving DecidableEq

/-- The kind of texts that begin with a byte. -/
def kindOf? (b : UInt8) : Option Kind :=
  if b = Ascii.letterN then some .null
  else if b = Ascii.letterT then some .bool
  else if b = Ascii.letterF then some .bool
  else if b = Ascii.quotationMark then some .string
  else if b = Ascii.openBracket then some .array
  else if b = Ascii.openBrace then some .object
  else if numberBytes.contains b then some .number
  else none

/-- The kind of the texts that stand for a datum. -/
def Datum.kind? : Datum → Option Kind
  | nothing => some .null
  | bool _ => some .bool
  | text _ => some .string
  | double _ => some .number
  | sequence _ => some .array
  | mapping _ => some .object
  | integer _ _ | single _ | value _ | texts _ | other _ => none

theorem ne_nil_of_isStandard {t : Bytes} (standard : Decimal.IsStandard t) : t ≠ [] := by
  obtain ⟨negative, _, ⟨whole, fraction, exponent, isWhole, _, _, rfl⟩, rfl⟩ := standard
  cases negative with
  | false => simp [Decimal.withSign, isWhole.1.1]
  | true => simp [Decimal.withSign]

theorem Denotes.exists_kind {t : Bytes} {d : Datum} (denotes : Denotes t d) :
    ∃ b rest kind, t = b :: rest ∧ kindOf? b = some kind ∧ d.kind? = some kind := by
  cases denotes with
  | nothing => exact ⟨_, _, _, rfl, rfl, rfl⟩
  | bool b => cases b <;> exact ⟨_, _, _, rfl, rfl, rfl⟩
  | text characters => exact ⟨_, _, _, rfl, rfl, rfl⟩
  | double number =>
      obtain ⟨b, rest, rfl⟩ := List.exists_cons_of_ne_nil (ne_nil_of_isStandard number.1)
      have inClass := mem_numberBytes_of_isStandard number.1 b List.mem_cons_self
      have table : numberBytes.all (kindOf? · = some .number) = true := by rfl
      have found : kindOf? b = some .number :=
        of_decide_eq_true (List.all_eq_true.mp table b inClass)
      exact ⟨b, rest, _, rfl, found, rfl⟩
  | sequence elements =>
      obtain ⟨rest, rfl⟩ := elements.exists_cons
      exact ⟨_, _, _, rfl, rfl, rfl⟩
  | mapping members =>
      obtain ⟨rest, rfl⟩ := members.exists_cons
      exact ⟨_, _, _, rfl, rfl, rfl⟩

/-- The kind can be told from the first byte. -/
theorem Denotes.kind?_eq {t t' r r' : Bytes} {d d' : Datum} (denotes : Denotes t d)
    (denotes' : Denotes t' d') (same : t ++ r = t' ++ r') : d.kind? = d'.kind? := by
  obtain ⟨b, rest, kind, rfl, found, kindEq⟩ := denotes.exists_kind
  obtain ⟨b', rest', kind', rfl, found', kindEq'⟩ := denotes'.exists_kind
  obtain ⟨rfl, _⟩ := List.cons.inj same
  rw [kindEq, kindEq', ← found, ← found']

theorem visible_denotes : Visible Denotes := by
  intro t d denotes
  obtain ⟨b, rest, kind, rfl, found, _⟩ := denotes.exists_kind
  refine ⟨b, rest, rfl, ?_⟩
  cases space : isSpace b with
  | false => rfl
  | true =>
      have isBlank : Blank [b] := blank_iff.mpr (List.forall_mem_singleton.mpr space)
      rcases isBlank b (List.mem_singleton_self b) with rfl | rfl | rfl | rfl <;> contradiction

theorem Denotes.ne_cons {t : Bytes} {d : Datum} (denotes : Denotes t d) {b : UInt8}
    (none : kindOf? b = none) (rest : Bytes) : t ≠ b :: rest := by
  rintro rfl
  obtain ⟨b', rest', kind, same, found, _⟩ := denotes.exists_kind
  obtain ⟨rfl, _⟩ := List.cons.inj same
  exact absurd (none.symm.trans found) (Option.some_ne_none kind).symm

/-! ## Texts -/

theorem separable_memberText {entry : Bytes × Datum} (value : Separable Denotes entry.2) :
    Separable (MemberText TextDenotes Denotes) entry := by
  rintro _ _ _ r r' ⟨⟨_, name, rfl⟩, before, behind, text⟩
    ⟨⟨_, name', rfl⟩, before', behind', text'⟩ clear clear' same
  have colonSpace (r : Bytes) : Clear isSpace (Ascii.colon :: r) :=
    (Parser.clear_cons isSpace Ascii.colon r).mpr rfl
  simp only [List.append_assoc, List.cons_append] at same
  obtain ⟨rfl, rfl, behindKey⟩ := stringText_append_inj name name' same
  obtain ⟨rfl, colon⟩ := before.append_inj before' (colonSpace _) (colonSpace _) behindKey
  obtain ⟨rfl, texts⟩ := behind.append_inj behind' (visible_denotes.clear text r)
    (visible_denotes.clear text' r') (List.cons.inj colon).2
  obtain ⟨rfl, rfl⟩ := value text text' clear clear' texts
  exact ⟨rfl, rfl⟩

/-- A number is a run of characters of numbers, and has one value. -/
theorem NumberDenotes.append_inj {t t' r r' : Bytes} {x x' : Binary64}
    (number : NumberDenotes t x) (number' : NumberDenotes t' x')
    (clear : Clear numberBytes.contains r) (clear' : Clear numberBytes.contains r')
    (same : t ++ r = t' ++ r') : t = t' ∧ x = x' := by
  have inClass {t : Bytes} {x : Binary64} (number : NumberDenotes t x) :
      ∀ b ∈ t, numberBytes.contains b = true := fun b inside =>
    List.contains_iff_mem.mpr (mem_numberBytes_of_isStandard number.1 b inside)
  obtain ⟨rfl, _⟩ := run_append_inj (inClass number) (inClass number') clear clear' same
  obtain ⟨_, n, read, nearest⟩ := number
  obtain ⟨_, n', read', nearest'⟩ := number'
  obtain rfl := Option.some.inj (read.symm.trans read')
  obtain rfl := Option.some.inj (nearest.symm.trans nearest')
  exact ⟨rfl, rfl⟩

theorem separable_sequence {items : List Datum} (each : ∀ d ∈ items, Separable Denotes d) :
    Separable Denotes (.sequence items) := by
  intro t t' d' r r' denotes denotes' clear clear' same
  have kindEq := denotes.kind?_eq denotes' same
  cases denotes with
  | sequence elements =>
      cases denotes' with
      | sequence elements' =>
          obtain ⟨rfl, rfl⟩ := elements.append_inj closes_closeBracket visible_denotes
            (fun _ _ denotes => denotes.ne_cons rfl) each elements' same
          exact ⟨rfl, rfl⟩
      | _ => cases kindEq

theorem separable_mapping {entries : List (Bytes × Datum)}
    (each : ∀ entry ∈ entries, Separable Denotes entry.2) :
    Separable Denotes (.mapping entries) := by
  intro t t' d' r r' denotes denotes' clear clear' same
  have kindEq := denotes.kind?_eq denotes' same
  have unclosed : ∀ ⦃t entry⦄, MemberText TextDenotes Denotes t entry → ∀ rest,
      t ≠ Ascii.closeBrace :: rest := by
    rintro _ _ ⟨⟩ rest same
    exact absurd (List.cons.inj same).1 (by decide)
  cases denotes with
  | mapping members =>
      cases denotes' with
      | mapping members' =>
          obtain ⟨rfl, rfl⟩ := members.append_inj closes_closeBrace visible_memberText
            unclosed (fun entry inside => separable_memberText (each entry inside)) members' same
          exact ⟨rfl, rfl⟩
      | _ => cases kindEq

/-- The texts of every datum can be told from those of all others, and from what
follows. -/
theorem separable_denotes (d : Datum) : Separable Denotes d := by
  induction d using Datum.induction with
  | nothing =>
      intro t t' d' r r' denotes denotes' clear clear' same
      have kindEq := denotes.kind?_eq denotes' same
      cases denotes
      cases denotes' with
      | nothing => exact ⟨rfl, rfl⟩
      | _ => cases kindEq
  | bool b =>
      intro t t' d' r r' denotes denotes' clear clear' same
      have kindEq := denotes.kind?_eq denotes' same
      cases denotes
      cases denotes' with
      | bool b' =>
          cases b <;> cases b' <;>
            first | exact ⟨rfl, rfl⟩ | exact absurd (List.cons.inj same).1 (by decide)
      | _ => cases kindEq
  | text s =>
      intro t t' d' r r' denotes denotes' clear clear' same
      have kindEq := denotes.kind?_eq denotes' same
      cases denotes with
      | text characters =>
          cases denotes' with
          | text characters' =>
              obtain ⟨rfl, rfl, _⟩ := stringText_append_inj characters characters' same
              exact ⟨rfl, rfl⟩
          | _ => cases kindEq
  | double x =>
      intro t t' d' r r' denotes denotes' clear clear' same
      have kindEq := denotes.kind?_eq denotes' same
      cases denotes with
      | double number =>
          cases denotes' with
          | double number' =>
              obtain ⟨rfl, rfl⟩ := number.append_inj number' clear clear' same
              exact ⟨rfl, rfl⟩
          | _ => cases kindEq
  | sequence items ih => exact separable_sequence ih
  | mapping entries ih => exact separable_mapping ih
  | integer type n => intro t t' d' r r' denotes; cases denotes
  | single bits => intro t t' d' r r' denotes; cases denotes
  | value v => intro t t' d' r r' denotes; cases denotes
  | texts items => intro t t' d' r r' denotes; cases denotes
  | other typeName => intro t t' d' r r' denotes; cases denotes

/-- A text stands for one datum at most. -/
theorem denotes_unique {s : Bytes} {d d' : Datum} (denotes : Spaced Denotes s d)
    (denotes' : Spaced Denotes s d') : d = d' := by
  obtain ⟨w₁, t, w₂, before, item, behind, split⟩ := denotes
  obtain ⟨w₁', t', w₂', before', item', behind', split'⟩ := denotes'
  have clearBehind {w : Bytes} (blank : Blank w) : Clear numberBytes.contains w := by
    simpa using blank.clear_number (Parser.clear_nil numberBytes.contains)
  rw [split, List.append_assoc, List.append_assoc] at split'
  obtain ⟨_, same⟩ := before.append_inj before' (visible_denotes.clear item w₂)
    (visible_denotes.clear item' w₂') split'
  exact (separable_denotes d item item' (clearBehind behind) (clearBehind behind') same).2

end JsonFit.Json
