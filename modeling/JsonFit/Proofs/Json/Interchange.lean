import JsonFit.Proofs.Json.Plain
import JsonFit.Proofs.Json.Quoting
import JsonFit.Proofs.Json.Unambiguous

/-!
# Plain data in standard texts

Whatever plain data are written, compact or fitted to a width, the result is a
standard text, and by the standard it stands for these data and nothing else.  The
data come back in a normal form: numbers have double precision, stray bytes in texts
and keys have become replacement characters, and the entries of a mapping are in
increasing order of their keys as they were.

The reader of this library does not come in.  It takes strings apart in another way
than the standard, and does not decode them.
-/

namespace JsonFit.Json

open Layout (Doc Elem Prepends)
open Value (stringText)

variable {α β : Type}

namespace Datum

mutual

/-- What comes back of a datum: numbers of double precision, repaired texts and
keys, and the entries of mappings in increasing order of their original keys. -/
def normal : Datum → Datum
  | nothing => nothing
  | bool b => bool b
  | text s => text (Utf8.repair s)
  | integer _ n => double (.ofInt n)
  | single bits => double (.ofBinary32 bits)
  | double x => double x
  | sequence items => sequence (normalItems items)
  | mapping entries =>
      mapping ((sortEntries (normalEntries entries)).map fun entry =>
        (Utf8.repair entry.1, entry.2))
  | value v => value v
  | texts items => texts items
  | other typeName => other typeName

/-- What comes back of the items of a sequence. -/
def normalItems : List Datum → List Datum
  | [] => []
  | d :: ds => d.normal :: normalItems ds

/-- The entries of a mapping with what comes back of each; the keys are the
original ones. -/
def normalEntries : List (Bytes × Datum) → List (Bytes × Datum)
  | [] => []
  | (key, d) :: entries => (key, d.normal) :: normalEntries entries

end

theorem normalEntries_eq_map (entries : List (Bytes × Datum)) :
    normalEntries entries = entries.map fun entry => (entry.1, entry.2.normal) := by
  induction entries with
  | nil => rfl
  | cons entry entries ih => rw [normalEntries, ih, List.map_cons]

/-- Entries may be sorted before they are brought to their normal forms. -/
theorem normal_mapping (entries : List (Bytes × Datum)) :
    (mapping entries).normal =
      mapping ((sortEntries entries).map fun entry =>
        (Utf8.repair entry.1, entry.2.normal)) := by
  have sorted : (sortEntries entries).map (fun entry => (entry.1, entry.2.normal)) =
      sortEntries (entries.map fun entry => (entry.1, entry.2.normal)) :=
    List.map_mergeSort fun _ _ _ _ => rfl
  rw [normal, normalEntries_eq_map, ← sorted, List.map_map]
  rfl

/-- The entries of a mapping come back in increasing order, and all of them. -/
theorem sortEntries_increasing (entries : List (Bytes × Datum)) :
    (sortEntries entries).Pairwise (fun a b => Bytes.le a.1 b.1 = true) ∧
      (sortEntries entries).Perm entries := by
  refine ⟨List.pairwise_mergeSort ?_ ?_ entries, List.mergeSort_perm entries _⟩
  · intro a b c
    simp only [Bytes.le_iff]
    exact List.le_trans
  · intro a b
    simp only [Bool.or_eq_true, Bytes.le_iff]
    exact List.le_total a.1 b.1

end Datum

/-! ## Meanings of values -/

/-- The value, whose strings are raw, stands for the datum. -/
inductive Means : Value → Datum → Prop where
  /-- The null constant. -/
  | null : Means .null .nothing
  /-- A truth value. -/
  | bool (b : Bool) : Means (.bool b) (.bool b)
  /-- A string with an inside that stands for characters. -/
  | string {raw : Bytes} {points : List Nat} (characters : StringDenotes raw points) :
      Means (.string raw) (.text (Utf8.encodeAll points))
  /-- A finite number. -/
  | number {x : Binary64} (finite : x.isFinite = true) : Means (.number x) (.double x)
  /-- An array; its elements, each with what it stands for. -/
  | array {parts : List (Value × Datum)} (each : ∀ part ∈ parts, Means part.1 part.2) :
      Means (.array (parts.map Prod.fst)) (.sequence (parts.map Prod.snd))
  /-- An object; its members, each with what it stands for. -/
  | object {parts : List ((Bytes × Value) × (Bytes × Datum))}
      (keys : ∀ part ∈ parts, TextDenotes part.1.1 part.2.1)
      (each : ∀ part ∈ parts, Means part.1.2 part.2.2) :
      Means (.object (parts.map Prod.fst)) (.mapping (parts.map Prod.snd))

theorem Means.isComplete {v : Value} {d : Datum} (means : Means v d) : v.isComplete = true := by
  induction means with
  | null => rfl
  | bool b => rfl
  | string characters => rfl
  | number finite => rfl
  | array each ih => exact (Value.allComplete_iff _).mpr (List.forall_mem_map.mpr ih)
  | object keys each ih => exact (Value.allMembersComplete_iff _).mpr (List.forall_mem_map.mpr ih)

/-- A text that is written as a string stands for its repair. -/
theorem means_quote (s : Bytes) : Means (.string (Escape.quote s)) (.text (Utf8.repair s)) :=
  .string (Escape.stringDenotes_quote s)

namespace Datum

theorem exists_itemMeanings {items : List Datum}
    (each : ∀ d ∈ items, ∃ v, d.toValue = .ok v ∧ Means v d.normal) :
    ∃ parts : List (Value × Datum), itemValues items = .ok (parts.map Prod.fst) ∧
      normalItems items = parts.map Prod.snd ∧ ∀ part ∈ parts, Means part.1 part.2 := by
  induction items with
  | nil => exact ⟨[], rfl, rfl, List.forall_mem_nil _⟩
  | cons d ds ih =>
      obtain ⟨⟨v, valueEq, means⟩, each⟩ := List.forall_mem_cons.mp each
      obtain ⟨parts, valuesEq, normalEq, others⟩ := ih each
      refine ⟨(v, d.normal) :: parts, ?_, ?_, List.forall_mem_cons.mpr ⟨means, others⟩⟩
      · rw [itemValues, valueEq, valuesEq]
        rfl
      · rw [normalItems, normalEq, List.map_cons]

theorem exists_entryMeanings {entries : List (Bytes × Datum)}
    (each : ∀ entry ∈ entries, ∃ v, entry.2.toValue = .ok v ∧ Means v entry.2.normal) :
    ∃ parts : List ((Bytes × Value) × (Bytes × Datum)),
      collectMembers (entryValues entries) = .ok (parts.map Prod.fst) ∧
      (entries.map fun entry => (Utf8.repair entry.1, entry.2.normal)) = parts.map Prod.snd ∧
      ∀ part ∈ parts, (∃ points, StringDenotes part.1.1 points ∧
        part.2.1 = Utf8.encodeAll points) ∧ Means part.1.2 part.2.2 := by
  induction entries with
  | nil => exact ⟨[], rfl, rfl, List.forall_mem_nil _⟩
  | cons entry entries ih =>
      obtain ⟨⟨v, valueEq, means⟩, each⟩ := List.forall_mem_cons.mp each
      obtain ⟨parts, membersEq, normalEq, others⟩ := ih each
      have key := Escape.stringDenotes_quote entry.1
      refine ⟨((Escape.quote entry.1, v), (Utf8.repair entry.1, entry.2.normal)) :: parts, ?_, ?_,
        List.forall_mem_cons.mpr ⟨⟨⟨_, key, rfl⟩, means⟩, others⟩⟩
      · rw [entryValues, collectMembers, valueEq, membersEq]
        rfl
      · rw [List.map_cons, List.map_cons, normalEq]

/-- Plain data have a value, and it stands for their normal form. -/
theorem Plain.exists_means {d : Datum} (plain : d.Plain) :
    ∃ v, d.toValue = .ok v ∧ Means v d.normal := by
  induction plain with
  | nothing => exact ⟨.null, rfl, .null⟩
  | bool b => exact ⟨.bool b, rfl, .bool b⟩
  | text s => exact ⟨_, rfl, means_quote s⟩
  | @integer type n supported inRange =>
      have finite := Binary64.isFinite_ofInt (IntegerType.natAbs_le_of_inRange inRange)
      exact ⟨.number (.ofInt n), by rw [toValue, if_pos supported], .number finite⟩
  | single finite => exact ⟨_, rfl, .number (Binary64.isFinite_ofBinary32 finite)⟩
  | double finite => exact ⟨_, rfl, .number finite⟩
  | sequence _ each =>
      obtain ⟨parts, valuesEq, normalEq, means⟩ := exists_itemMeanings each
      refine ⟨.array (parts.map Prod.fst), by rw [toValue, valuesEq]; rfl, ?_⟩
      rw [normal, normalEq]
      exact .array means
  | @mapping entries _ each =>
      have each' : ∀ entry ∈ sortEntries entries,
          ∃ v, entry.2.toValue = .ok v ∧ Means v entry.2.normal := by
        intro entry inside
        exact each entry (List.mem_mergeSort.mp inside)
      obtain ⟨parts, membersEq, normalEq, means⟩ := exists_entryMeanings each'
      refine ⟨.object (parts.map Prod.fst), ?_, ?_⟩
      · rw [toValue, sortByKey_entryValues, membersEq]
        rfl
      · rw [normal_mapping, normalEq]
        exact .object (fun part inside => (means part inside).1)
          fun part inside => (means part inside).2

end Datum

theorem Listed.map {Item : Bytes → β → Prop} (f : α → β) {t : Bytes} {as : List α}
    (listed : Listed (fun t a => Item t (f a)) t as) : Listed Item t (as.map f) := by
  induction listed with
  | last item => exact .last item
  | cons item before behind _ ih => exact .cons item before behind ih

/-- What is in brackets may be renamed. -/
theorem Bracketed.map {opening closing : UInt8} {Item : Bytes → β → Prop} (f : α → β) {t : Bytes}
    {as : List α} (bracketed : Bracketed opening closing (fun t a => Item t (f a)) t as) :
    Bracketed opening closing Item t (as.map f) := by
  cases bracketed with
  | empty inside => exact .empty inside
  | items before listed behind => exact .items before (listed.map f) behind

/-- The text of a finite number stands for it. -/
theorem numberDenotes_write {x : Binary64} (finite : x.isFinite = true) :
    NumberDenotes (Decimal.write x) x := by
  obtain ⟨n, read, _, nearest⟩ := Decimal.readsNearest_write finite
  exact ⟨Decimal.isStandard_write finite, n, read, nearest⟩

/-- Every spelling of the document of a value stands for what the value stands
for. -/
theorem denotes_of_spells {v : Value} {d : Datum} (means : Means v d) {t : Bytes}
    (spelled : v.elem.Spells t) : Denotes t d := by
  induction means generalizing t with
  | null =>
      cases spelled
      exact .nothing
  | bool b =>
      cases spelled
      exact .bool b
  | string characters =>
      cases spelled
      exact .text characters
  | number finite =>
      cases spelled
      exact .double (numberDenotes_write finite)
  | @array parts each ih =>
      cases parts with
      | nil =>
          cases spelled
          exact .sequence (.empty blank_nil)
      | cons part parts =>
          rw [List.map_cons, elem_array_cons, containerDoc_map, Elem.Spells] at spelled
          refine .sequence (.map Prod.snd (bracketed_of_spells ?_ spelled))
          intro part' inside t spelled
          exact ih part' inside (Doc.spells_singleton.mp spelled)
  | @object parts keys each ih =>
      cases parts with
      | nil =>
          cases spelled
          exact .mapping (.empty blank_nil)
      | cons part parts =>
          rw [List.map_cons, elem_object_cons, containerDoc_map, Elem.Spells] at spelled
          refine .mapping (.map Prod.snd (bracketed_of_spells ?_ spelled))
          intro part' inside t spelled
          exact memberText_of_spells (keys part' inside) (fun t => ih part' inside) spelled

/-- Parts of which one side is written, behind commas, may be read for their other
side. -/
theorem exists_bracketed_of_parts {Item : Bytes → β → Prop}
    {write : α → Bytes → Bytes} {further : List α → Bytes → Bytes}
    (furtherNil : ∀ tail, further [] tail = tail)
    (furtherCons : ∀ a as tail, further (a :: as) tail = Ascii.comma :: write a (further as tail))
    {part : α × β} {parts : List (α × β)}
    (each : ∀ part' ∈ part :: parts, ∃ t, Item t part'.2 ∧ Prepends (write part'.1) t)
    (opening closing : UInt8) :
    ∃ t, Bracketed opening closing Item t ((part :: parts).map Prod.snd) ∧
      Prepends (fun tail => opening ::
        write part.1 (further (parts.map Prod.fst) (closing :: tail))) t := by
  obtain ⟨t, bracketed, written⟩ := @exists_bracketed_of_commas (α × β)
    (fun t part => Item t part.2) (fun part => write part.1)
    (fun parts => further (parts.map Prod.fst)) furtherNil
    (fun part parts => furtherCons part.1 (parts.map Prod.fst)) part parts each opening closing
  exact ⟨t, bracketed.map Prod.snd, written⟩

/-- The compact text of a value stands for what the value stands for. -/
theorem exists_denotes_compactOnto {v : Value} {d : Datum} (means : Means v d) :
    ∃ t, Denotes t d ∧ Prepends v.compactOnto t := by
  induction means with
  | null => exact ⟨_, .nothing, fun _ => rfl⟩
  | bool b => exact ⟨_, .bool b, fun _ => rfl⟩
  | string characters => exact ⟨_, .text characters, fun _ => rfl⟩
  | number finite => exact ⟨_, .double (numberDenotes_write finite), fun _ => rfl⟩
  | @array parts each ih =>
      cases parts with
      | nil => exact ⟨_, .sequence (.empty blank_nil), fun _ => rfl⟩
      | cons part parts =>
          obtain ⟨t, bracketed, written⟩ := exists_bracketed_of_parts (fun _ => rfl)
            compactElementsOnto_cons ih Ascii.openBracket Ascii.closeBracket
          exact ⟨t, .sequence bracketed, written⟩
  | @object parts keys each ih =>
      cases parts with
      | nil => exact ⟨_, .mapping (.empty blank_nil), fun _ => rfl⟩
      | cons part parts =>
          have each' : ∀ part' ∈ part :: parts,
              ∃ t, MemberText TextDenotes Denotes t part'.2 ∧
                Prepends (compactMemberOnto part'.1) t := by
            intro part' inside
            exact exists_memberText_compactMemberOnto (keys part' inside) (ih part' inside)
          obtain ⟨t, bracketed, written⟩ := exists_bracketed_of_parts (fun _ => rfl)
            compactMembersOnto_cons each' Ascii.openBrace Ascii.closeBrace
          exact ⟨t, .mapping bracketed, written⟩

/-! ## Written data -/

/-- A text was written; it is a standard text in valid UTF-8, and stands for the
datum and nothing else. -/
def Interchanges (written : Except Fault Bytes) (d : Datum) : Prop :=
  ∃ t, written = .ok t ∧ IsStandardText t ∧ Utf8.isValid t = true ∧
    ∀ d', Spaced Denotes t d' ↔ d' = d

theorem interchanges_of_denotes {t : Bytes} {d : Datum} (denotes : Denotes t d) :
    Interchanges (.ok t) d := by
  have spaced : Spaced Denotes t d := .of_item denotes
  have standard := isStandardText_of_denotes spaced
  refine ⟨t, rfl, standard, standard.isValid, fun d' => ⟨fun spaced' => ?_, fun same => ?_⟩⟩
  · exact denotes_unique spaced' spaced
  · exact same ▸ spaced

theorem Means.interchanges_compact {v : Value} {d : Datum} (means : Means v d) :
    Interchanges v.compact? d := by
  obtain ⟨t, denotes, written⟩ := exists_denotes_compactOnto means
  have compacted : v.compact? = .ok t := by
    rw [Value.compact?, if_pos means.isComplete, Value.compact, written, List.append_nil]
  rw [compacted]
  exact interchanges_of_denotes denotes

theorem Means.interchanges_format {v : Value} {d : Datum} (means : Means v d) {width : Int}
    (wide : 0 ≤ width) : Interchanges (v.format? width) d := by
  have spelled : v.elem.Spells (v.format width) :=
    Doc.spells_singleton.mp (Layout.spells_render width v.doc)
  rw [Value.format?_eq_ok means.isComplete wide]
  exact interchanges_of_denotes (denotes_of_spells means spelled)

/-- Plain data have a JSON value, and what is written for it, compact or fitted to a
width, is a standard text in valid UTF-8 that stands for the normal form of the data
and nothing else. -/
theorem plain_interchanged {d : Datum} (plain : d.Plain) :
    ∃ v, d.toValue = .ok v ∧ Interchanges v.compact? d.normal ∧
      ∀ width, 0 ≤ width → Interchanges (v.format? width) d.normal := by
  obtain ⟨v, valueEq, means⟩ := plain.exists_means
  exact ⟨v, valueEq, means.interchanges_compact, fun _ wide => means.interchanges_format wide⟩

/-- A key that is no valid UTF-8 comes back as a replacement character, and so does a
stray byte behind a quotation mark; an integer comes back with double precision. -/
theorem plain_interchanged_stray :
    let d : Datum := .mapping
      [([0xFF], .sequence [.text [Ascii.quotationMark, 0x80], .integer .int (-3)])]
    let back : Datum := .mapping [(Utf8.encode 0xFFFD,
      .sequence [.text (Ascii.quotationMark :: Utf8.encode 0xFFFD), .double (.ofInt (-3))])]
    d.Plain ∧ ∃ v, d.toValue = .ok v ∧ (0 : Int) ≤ 1 ∧ Interchanges v.compact? back ∧
      Interchanges (v.format? 1) back := by
  intro d back
  have integer : (Datum.integer .int (-3)).Plain := .integer rfl (by decide)
  have items : ∀ i ∈ [Datum.text [Ascii.quotationMark, 0x80], .integer .int (-3)], i.Plain := by
    simp [integer, Datum.Plain.text]
  have plain : d.Plain := .mapping (List.forall_mem_singleton.mpr (.sequence items))
  have normalEq : d.normal = back := by
    rw [Datum.normal_mapping, Datum.sortEntries, List.mergeSort_singleton]
    rfl
  obtain ⟨v, valueEq, compact, fitted⟩ := plain_interchanged plain
  rw [normalEq] at compact fitted
  exact ⟨plain, v, valueEq, by decide, compact, fitted 1 (by decide)⟩

end JsonFit.Json
