import JsonFit.Json.Fitted
import JsonFit.Proofs.Json.Expressible
import JsonFit.Proofs.Json.Recognition
import JsonFit.Proofs.Layout.Spelling
import JsonFit.Proofs.Number.Writing

/-!
# Written values are read back

Whatever is written for an expressible value has a derivation from it, and so is
read back.  For fitted text the width does not matter: every spelling of the
document of a value derives that value, since line breaks stand only where white
space may stand.  Compact text is not a spelling of that document, as it has no
space behind a colon, and is treated apart.
-/

namespace JsonFit.Json

open Layout (Doc Elem IsBreak Prepends)
open Value (stringText)

variable {α : Type} {Item : Bytes → α → Prop}

/-! ## Spellings of documents -/

/-- A line break is white space. -/
theorem blank_of_isBreak {w : Bytes} (isBreak : IsBreak w) : Blank w := by
  intro b member
  rcases isBreak with rfl | ⟨n, rfl⟩
  · exact .inl (List.mem_singleton.mp member)
  · rcases List.mem_cons.mp member with rfl | member
    · exact .inr (.inr (.inl rfl))
    · exact .inl (List.eq_of_mem_replicate member)

/-- Items behind separators, and one in front of them, are listed. -/
theorem listed_of_separated {docOf : α → List Elem} {as : List α}
    (each : ∀ a ∈ as, ∀ t, Doc.Spells (docOf a) t → Item t a) {a : α} {t u : Bytes}
    (first : Item t a)
    (others : Doc.Spells (as.flatMap fun a => Value.separator ++ docOf a) u) :
    Listed Item (t ++ u) (a :: as) := by
  induction as generalizing a t u with
  | nil =>
      rw [List.flatMap_nil, Doc.Spells] at others
      rw [others, List.append_nil]
      exact .last first
  | cons a' as ih =>
      simp only [List.flatMap_cons, Value.separator, List.cons_append, List.nil_append] at others
      obtain ⟨_, _, rfl, ⟨w, _, isBreak, behind, rfl⟩, rfl⟩ := others
      obtain ⟨t', u', here, further, rfl⟩ := Doc.spells_append.mp behind
      rw [List.forall_mem_cons] at each
      have listed := Listed.cons first blank_nil (blank_of_isBreak isBreak)
        (ih each.2 (each.1 t' here) further)
      simpa using listed

/-- The document of a container that is not empty. -/
def containerDoc (opening closing : UInt8) (docOf : α → List Elem) (a : α) (as : List α) :
    List Elem :=
  .literal [opening] :: .newline Value.indentation ::
    (docOf a ++ ((as.flatMap fun a => Value.separator ++ docOf a) ++
      [.newline (-Value.indentation), .literal [closing]]))

theorem containerDoc_map {β : Type} (opening closing : UInt8) (docOf : β → List Elem)
    (f : α → β) (a : α) (as : List α) :
    containerDoc opening closing docOf (f a) (as.map f) =
      containerDoc opening closing (fun a => docOf (f a)) a as := by
  rw [containerDoc, List.flatMap_map, containerDoc]

theorem bracketed_of_spells {opening closing : UInt8} {docOf : α → List Elem} {a : α}
    {as : List α} (each : ∀ a' ∈ a :: as, ∀ t, Doc.Spells (docOf a') t → Item t a') {t : Bytes}
    (spelled : Doc.Spells (containerDoc opening closing docOf a as) t) :
    Bracketed opening closing Item t (a :: as) := by
  rw [List.forall_mem_cons] at each
  obtain ⟨_, _, rfl, ⟨w₁, _, isBreak₁, items, rfl⟩, rfl⟩ := spelled
  obtain ⟨body, _, first, behind, rfl⟩ := Doc.spells_append.mp items
  obtain ⟨body', _, others, ⟨w₂, _, isBreak₂, closed, rfl⟩, rfl⟩ := Doc.spells_append.mp behind
  rw [Doc.spells_singleton, Elem.Spells] at closed
  subst closed
  have listed := listed_of_separated each.2 (each.1 body first) others
  have bracketed : Bracketed opening closing Item _ (a :: as) :=
    .items (blank_of_isBreak isBreak₁) listed (blank_of_isBreak isBreak₂)
  simpa using bracketed

/-- The elements of the document of a member. -/
def memberDoc (m : Bytes × Value) : List Elem :=
  [.text (stringText m.1), Value.keySeparator, m.2.elem]

theorem elem_array_cons (v : Value) (vs : List Value) :
    (Value.array (v :: vs)).elem =
      .group (containerDoc Ascii.openBracket Ascii.closeBracket (fun v => [v.elem]) v vs) := by
  have further : Value.furtherElements vs =
      vs.flatMap fun v => Value.separator ++ [v.elem] := by
    induction vs with
    | nil => rfl
    | cons v vs ih =>
        rw [Value.furtherElements, ih, List.flatMap_cons]
        rfl
  rw [Value.elem, further]
  rfl

theorem elem_object_cons (m : Bytes × Value) (ms : List (Bytes × Value)) :
    (Value.object (m :: ms)).elem =
      .group (containerDoc Ascii.openBrace Ascii.closeBrace memberDoc m ms) := by
  have further : Value.furtherMembers ms =
      ms.flatMap fun m => Value.separator ++ memberDoc m := by
    induction ms with
    | nil => rfl
    | cons m ms ih =>
        rw [Value.furtherMembers, ih, List.flatMap_cons]
        rfl
  rw [Value.elem, further]
  rfl

/-- Every spelling of the document of a member is a member's text, whatever is said of
keys and values. -/
theorem memberText_of_spells {κ : Type} {Names : Bytes → κ → Prop} {m : Bytes × Value}
    {part : κ × α} (name : Names m.1 part.1) (value : ∀ t, m.2.elem.Spells t → Item t part.2)
    {t : Bytes} (spelled : Doc.Spells (memberDoc m) t) : MemberText Names Item t part := by
  obtain ⟨_, _, rfl, ⟨_, t', rfl, here, rfl⟩, rfl⟩ := spelled
  have item := value t' (Doc.spells_singleton.mp here)
  have space : Blank [Ascii.space] := List.forall_mem_singleton.mpr (.inl rfl)
  have text := MemberText.mk name blank_nil space item
  simpa using text

/-- The bytes of written numbers are number characters. -/
theorem mem_numberBytes_of_isNumeralByte {b : UInt8} (numeral : Decimal.IsNumeralByte b) :
    b ∈ Rules.numberBytes := by
  have table : ∀ n < 256, Decimal.IsNumeralByte (UInt8.ofNat n) →
      UInt8.ofNat n ∈ Rules.numberBytes := by
    decide +kernel
  simpa using table b.toNat b.toNat_lt (by simpa using numeral)

/-- The text of a finite number derives it. -/
theorem derives_write {x : Binary64} (finite : x.isFinite = true) :
    Derives (Decimal.write x) (.number x) := by
  have read := Decimal.read?_write finite
  refine .number ?_ ?_ read
  · intro empty
    rw [empty] at read
    contradiction
  · intro b member
    exact mem_numberBytes_of_isNumeralByte (Decimal.isNumeralText_write finite b member)

/-- Every spelling of the document of a value derives that value. -/
theorem derives_of_spells {v : Value} (expressible : v.Expressible) {t : Bytes}
    (spelled : v.elem.Spells t) : Derives t v := by
  induction v using Value.induction generalizing t with
  | object members ih =>
      rw [Value.expressible_object_iff] at expressible
      cases members with
      | nil =>
          cases spelled
          exact .object (.empty blank_nil)
      | cons m ms =>
          rw [elem_object_cons, Elem.Spells] at spelled
          refine .object (bracketed_of_spells ?_ spelled)
          intro m' inside t spelled
          obtain ⟨unquoted, value⟩ := expressible m' inside
          exact memberText_of_spells ⟨unquoted, rfl⟩ (fun t => ih m' inside value) spelled
  | array elements ih =>
      rw [Value.expressible_array_iff] at expressible
      cases elements with
      | nil =>
          cases spelled
          exact .array (.empty blank_nil)
      | cons v vs =>
          rw [elem_array_cons, Elem.Spells] at spelled
          refine .array (bracketed_of_spells ?_ spelled)
          intro v' inside t spelled
          exact ih v' inside (expressible v' inside) (Doc.spells_singleton.mp spelled)
  | string raw =>
      cases spelled
      exact .string (Value.expressible_string_iff.mp expressible)
  | number x =>
      cases spelled
      exact derives_write (Value.expressible_number_iff.mp expressible)
  | bool b =>
      cases spelled
      cases b with
      | false => exact .false
      | true => exact .true
  | null =>
      cases spelled
      exact .null
  | missing => exact absurd expressible Value.not_expressible_missing

/-! ## Compact texts -/

section Compact

variable {write : α → Bytes → Bytes} {further : List α → Bytes → Bytes}

/-- Items behind commas, and one in front of them, are listed. -/
theorem exists_listed_of_commas (furtherNil : ∀ tail, further [] tail = tail)
    (furtherCons : ∀ a as tail, further (a :: as) tail = Ascii.comma :: write a (further as tail))
    {as : List α} (each : ∀ a ∈ as, ∃ t, Item t a ∧ Prepends (write a) t) {a : α} {t : Bytes}
    (first : Item t a) :
    ∃ u, Listed Item (t ++ u) (a :: as) ∧ Prepends (further as) u := by
  induction as generalizing a t with
  | nil => exact ⟨[], by simpa using Listed.last first, furtherNil⟩
  | cons a' as ih =>
      rw [List.forall_mem_cons] at each
      obtain ⟨⟨t', item, written⟩, each⟩ := each
      obtain ⟨u, listed, writtenOthers⟩ := ih each item
      refine ⟨Ascii.comma :: (t' ++ u), ?_, ?_⟩
      · have all := Listed.cons first blank_nil blank_nil listed
        simpa using all
      · intro tail
        rw [furtherCons, writtenOthers, written]
        simp

theorem exists_bracketed_of_commas (furtherNil : ∀ tail, further [] tail = tail)
    (furtherCons : ∀ a as tail, further (a :: as) tail = Ascii.comma :: write a (further as tail))
    {a : α} {as : List α} (each : ∀ a' ∈ a :: as, ∃ t, Item t a' ∧ Prepends (write a') t)
    (opening closing : UInt8) :
    ∃ t, Bracketed opening closing Item t (a :: as) ∧
      Prepends (fun tail => opening :: write a (further as (closing :: tail))) t := by
  rw [List.forall_mem_cons] at each
  obtain ⟨⟨t, first, written⟩, each⟩ := each
  obtain ⟨u, listed, writtenOthers⟩ :=
    exists_listed_of_commas furtherNil furtherCons each first
  refine ⟨_, .items blank_nil listed blank_nil, ?_⟩
  intro tail
  simp only [written _, writtenOthers _]
  simp

end Compact

/-- Writes the compact text of a member in front of a text. -/
def compactMemberOnto (m : Bytes × Value) (tail : Bytes) : Bytes :=
  stringText m.1 ++ Ascii.colon :: m.2.compactOnto tail

theorem compactElementsOnto_cons (v : Value) (vs : List Value) (tail : Bytes) :
    Value.compactElementsOnto (v :: vs) tail =
      Ascii.comma :: v.compactOnto (Value.compactElementsOnto vs tail) :=
  rfl

theorem compactMembersOnto_cons (m : Bytes × Value) (ms : List (Bytes × Value)) (tail : Bytes) :
    Value.compactMembersOnto (m :: ms) tail =
      Ascii.comma :: compactMemberOnto m (Value.compactMembersOnto ms tail) :=
  rfl

theorem exists_memberText_compactMemberOnto {κ : Type} {Names : Bytes → κ → Prop}
    {m : Bytes × Value} {part : κ × α} (name : Names m.1 part.1)
    (value : ∃ t, Item t part.2 ∧ Prepends m.2.compactOnto t) :
    ∃ t, MemberText Names Item t part ∧ Prepends (compactMemberOnto m) t := by
  obtain ⟨t, item, written⟩ := value
  refine ⟨_, .mk name blank_nil blank_nil item, ?_⟩
  intro tail
  rw [compactMemberOnto, written]
  simp

/-- The compact text of an expressible value derives it. -/
theorem exists_derives_compactOnto {v : Value} (expressible : v.Expressible) :
    ∃ t, Derives t v ∧ Prepends v.compactOnto t := by
  induction v using Value.induction with
  | object members ih =>
      rw [Value.expressible_object_iff] at expressible
      cases members with
      | nil => exact ⟨_, .object (.empty blank_nil), fun _ => rfl⟩
      | cons m ms =>
          have each : ∀ m' ∈ m :: ms,
              ∃ t, DerivedMember t m' ∧ Prepends (compactMemberOnto m') t := by
            intro m' inside
            obtain ⟨unquoted, value⟩ := expressible m' inside
            exact exists_memberText_compactMemberOnto ⟨unquoted, rfl⟩ (ih m' inside value)
          obtain ⟨t, bracketed, written⟩ := exists_bracketed_of_commas (fun _ => rfl)
            compactMembersOnto_cons each Ascii.openBrace Ascii.closeBrace
          exact ⟨t, .object bracketed, written⟩
  | array elements ih =>
      rw [Value.expressible_array_iff] at expressible
      cases elements with
      | nil => exact ⟨_, .array (.empty blank_nil), fun _ => rfl⟩
      | cons v vs =>
          obtain ⟨t, bracketed, written⟩ := exists_bracketed_of_commas (fun _ => rfl)
            compactElementsOnto_cons (fun v' inside => ih v' inside (expressible v' inside))
            Ascii.openBracket Ascii.closeBracket
          exact ⟨t, .array bracketed, written⟩
  | string raw =>
      exact ⟨_, .string (Value.expressible_string_iff.mp expressible), fun _ => rfl⟩
  | number x =>
      exact ⟨_, derives_write (Value.expressible_number_iff.mp expressible), fun _ => rfl⟩
  | bool b =>
      cases b with
      | false => exact ⟨_, .false, fun _ => rfl⟩
      | true => exact ⟨_, .true, fun _ => rfl⟩
  | null => exact ⟨_, .null, fun _ => rfl⟩
  | missing => exact absurd expressible Value.not_expressible_missing

/-- A text was written, and it is read as the value. -/
def ReadsBack (written : Except Fault Bytes) (v : Value) : Prop :=
  ∃ text next, written = .ok text ∧ parse text = .success v next

theorem readsBack_of_derives {text : Bytes} {v : Value} (derives : Derives text v) :
    ReadsBack (.ok text) v :=
  ⟨text, _, rfl, parse_of_spaced (.of_item derives)⟩

theorem readsBack_format {v : Value} (expressible : v.Expressible) {width : Int}
    (wide : 0 ≤ width) : ReadsBack (v.format? width) v := by
  have spelled : v.elem.Spells (v.format width) :=
    Doc.spells_singleton.mp (Layout.spells_render width v.doc)
  rw [Value.format?_eq_ok expressible.complete wide]
  exact readsBack_of_derives (derives_of_spells expressible spelled)

theorem readsBack_compact {v : Value} (expressible : v.Expressible) :
    ReadsBack v.compact? v := by
  obtain ⟨t, derives, written⟩ := exists_derives_compactOnto expressible
  have compacted : v.compact? = .ok t := by
    rw [Value.compact?, if_pos expressible.complete, Value.compact, written, List.append_nil]
  rw [compacted]
  exact readsBack_of_derives derives

/-- Expressible values are read back from their fitted texts at every width and
from their compact texts; and whatever is read is expressible. -/
theorem expressible_reads_back (v : Value) :
    (v.Expressible → ∀ width, 0 ≤ width →
      ReadsBack (v.format? width) v ∧ ReadsBack v.compact? v) ∧
    ∀ s next, parse s = .success v next → v.Expressible := by
  constructor
  · intro expressible width wide
    exact ⟨readsBack_format expressible wide, readsBack_compact expressible⟩
  · intro s next read
    obtain ⟨_, t, _, _, derives, _, _⟩ := spaced_of_parse read
    exact derives.expressible

/-- Two members with one key, and a negative zero, on a line of six bytes. -/
theorem expressible_reads_back_equal_keys :
    let v : Value := .object
      [(Bytes.ofString "k", .array [.number (.ofMagnitude true 0), .string (Bytes.ofString "\\")]),
        (Bytes.ofString "k", .null)]
    v.Expressible ∧ ReadsBack (v.format? 6) v ∧ ReadsBack v.compact? v := by
  intro v
  have expressible : v.Expressible := ⟨rfl, by decide, by decide⟩
  exact ⟨expressible, (expressible_reads_back v).1 expressible 6 (by decide)⟩

end JsonFit.Json
