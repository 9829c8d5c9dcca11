import JsonFit.Json.Datum
import JsonFit.Proofs.Json.Escape
import JsonFit.Proofs.Json.RoundTrip
import JsonFit.Proofs.Number.Finite

/-!
# Values of plain data

Plain data are nothing, truth values, texts, integers of supported types, finite
numbers, and sequences and mappings of plain data.  All of it has a JSON value,
which holds the quoted texts and keys and finite numbers only.

Whether that value is read back from its text is decided by the quotation marks.
A string ends at the next quotation mark, and one that has been written with a
backslash in front is no exception; so a text or a key with a quotation mark is not
read back, and one without is.
-/

namespace JsonFit.Json

namespace IntegerType

/-- The least integer of the type. -/
def minimum : IntegerType → Int
  | int | int64 => -0x8000000000000000
  | int8 => -0x80
  | int16 => -0x8000
  | int32 => -0x80000000
  | uint | uint8 | uint16 | uint32 | uint64 => 0

/-- The greatest integer of the type. -/
def maximum : IntegerType → Int
  | int | int64 => 0x7FFFFFFFFFFFFFFF
  | int8 => 0x7F
  | int16 => 0x7FFF
  | int32 => 0x7FFFFFFF
  | uint | uint64 => 0xFFFFFFFFFFFFFFFF
  | uint8 => 0xFF
  | uint16 => 0xFFFF
  | uint32 => 0xFFFFFFFF

/-- Is this an integer of the type? -/
def InRange (type : IntegerType) (n : Int) : Prop :=
  type.minimum ≤ n ∧ n ≤ type.maximum

instance (type : IntegerType) (n : Int) : Decidable (type.InRange n) :=
  inferInstanceAs (Decidable (_ ∧ _))

theorem natAbs_le_of_inRange {type : IntegerType} {n : Int} (inRange : type.InRange n) :
    n.natAbs ≤ 2 ^ 64 := by
  obtain ⟨low, high⟩ := inRange
  have bounds : -0x8000000000000000 ≤ type.minimum ∧ type.maximum ≤ 0xFFFFFFFFFFFFFFFF := by
    cases type <;> decide
  omega

end IntegerType

namespace Datum

/-- Plain data. -/
inductive Plain : Datum → Prop where
  /-- Nothing. -/
  | nothing : Plain .nothing
  /-- A truth value. -/
  | bool (b : Bool) : Plain (.bool b)
  /-- A text. -/
  | text (s : Bytes) : Plain (.text s)
  /-- An integer of a supported type. -/
  | integer {type : IntegerType} {n : Int} (supported : type.isSupported = true)
      (inRange : type.InRange n) : Plain (.integer type n)
  /-- A finite single-precision number: its exponent is not the largest one. -/
  | single {bits : UInt32} (finite : bits.toNat / 0x800000 % 0x100 ≠ 255) : Plain (.single bits)
  /-- A finite double-precision number. -/
  | double {x : Binary64} (finite : x.isFinite = true) : Plain (.double x)
  /-- A sequence of plain data. -/
  | sequence {items : List Datum} (each : ∀ d ∈ items, Plain d) : Plain (.sequence items)
  /-- A mapping to plain data. -/
  | mapping {entries : List (Bytes × Datum)} (each : ∀ entry ∈ entries, Plain entry.2) :
      Plain (.mapping entries)

mutual

/-- The texts and keys in plain data, in some order. -/
def strings : Datum → List Bytes
  | text s => [s]
  | sequence items => itemStrings items
  | mapping entries => entryStrings entries
  | nothing => []
  | bool _ => []
  | integer _ _ => []
  | single _ => []
  | double _ => []
  | value _ => []
  | texts _ => []
  | other _ => []

/-- The texts and keys in the items of a sequence. -/
def itemStrings : List Datum → List Bytes
  | [] => []
  | d :: ds => d.strings ++ itemStrings ds

/-- The keys of a mapping, and the texts and keys in what they are mapped to. -/
def entryStrings : List (Bytes × Datum) → List Bytes
  | [] => []
  | (key, d) :: entries => key :: (d.strings ++ entryStrings entries)

end

/-- The value holds finite numbers, and its strings are the quoted texts and keys
of the datum. -/
structure Encodes (d : Datum) (v : Value) : Prop where
  complete : v.isComplete = true
  finite : ∀ x ∈ v.numbers, x.isFinite = true
  strings : ∀ P : Bytes → Prop, (∀ raw ∈ v.strings, P raw) ↔ ∀ s ∈ d.strings, P (Escape.quote s)

/-- Without texts there are only numbers to look at. -/
theorem encodes_of_nil {d : Datum} {v : Value} (noTexts : d.strings = [])
    (noStrings : v.strings = []) (complete : v.isComplete = true)
    (finite : ∀ x ∈ v.numbers, x.isFinite = true) : Encodes d v where
  complete := complete
  finite := finite
  strings P := by simp [noTexts, noStrings]

theorem encodes_number {d : Datum} (noTexts : d.strings = []) {x : Binary64}
    (finite : x.isFinite = true) : Encodes d (.number x) :=
  encodes_of_nil noTexts rfl rfl (List.forall_mem_singleton.mpr finite)

theorem encodes_text (s : Bytes) : Encodes (.text s) (.string (Escape.quote s)) where
  complete := rfl
  finite := List.forall_mem_nil _
  strings P := by simp [Datum.strings, Value.strings]

theorem exists_itemValues {items : List Datum}
    (each : ∀ d ∈ items, ∃ v, d.toValue = .ok v ∧ Encodes d v) :
    ∃ vs, itemValues items = .ok vs ∧ Encodes (.sequence items) (.array vs) := by
  induction items with
  | nil => exact ⟨[], rfl, encodes_of_nil rfl rfl rfl (List.forall_mem_nil _)⟩
  | cons d ds ih =>
      obtain ⟨⟨v, valueEq, encodes⟩, each⟩ := List.forall_mem_cons.mp each
      obtain ⟨vs, valuesEq, others⟩ := ih each
      refine ⟨v :: vs, ?_, ?_, ?_, ?_⟩
      · rw [itemValues, valueEq, valuesEq]
        rfl
      · exact Bool.and_eq_true_iff.mpr ⟨encodes.complete, others.complete⟩
      · exact List.forall_mem_append.mpr ⟨encodes.finite, others.finite⟩
      · intro P
        have stringsEq : (Value.array (v :: vs)).strings = v.strings ++ (Value.array vs).strings :=
          rfl
        have textsEq : (sequence (d :: ds)).strings = d.strings ++ (sequence ds).strings := rfl
        rw [stringsEq, textsEq, List.forall_mem_append, List.forall_mem_append,
          encodes.strings P, others.strings P]

theorem exists_entryMembers {entries : List (Bytes × Datum)}
    (each : ∀ entry ∈ entries, ∃ v, entry.2.toValue = .ok v ∧ Encodes entry.2 v) :
    ∃ members, collectMembers (entryValues entries) = .ok members ∧
      Encodes (.mapping entries) (.object members) := by
  induction entries with
  | nil => exact ⟨[], rfl, encodes_of_nil rfl rfl rfl (List.forall_mem_nil _)⟩
  | cons entry entries ih =>
      obtain ⟨⟨v, valueEq, encodes⟩, each⟩ := List.forall_mem_cons.mp each
      obtain ⟨members, membersEq, others⟩ := ih each
      refine ⟨(Escape.quote entry.1, v) :: members, ?_, ?_, ?_, ?_⟩
      · rw [entryValues, collectMembers, valueEq, membersEq]
        rfl
      · exact Bool.and_eq_true_iff.mpr ⟨encodes.complete, others.complete⟩
      · exact List.forall_mem_append.mpr ⟨encodes.finite, others.finite⟩
      · intro P
        have stringsEq : (Value.object ((Escape.quote entry.1, v) :: members)).strings =
            Escape.quote entry.1 :: (v.strings ++ (Value.object members).strings) := rfl
        have textsEq : (mapping (entry :: entries)).strings =
            entry.1 :: (entry.2.strings ++ (mapping entries).strings) := rfl
        rw [stringsEq, textsEq, List.forall_mem_cons, List.forall_mem_cons,
          List.forall_mem_append, List.forall_mem_append, encodes.strings P, others.strings P]

/-- The entries of a mapping in increasing order of their keys. -/
def sortEntries (entries : List (Bytes × Datum)) : List (Bytes × Datum) :=
  entries.mergeSort fun a b => Bytes.le a.1 b.1

theorem entryValues_eq_map (entries : List (Bytes × Datum)) :
    entryValues entries = entries.map fun entry => (entry.1, entry.2.toValue) := by
  induction entries with
  | nil => rfl
  | cons entry entries ih => rw [entryValues, ih, List.map_cons]

/-- Entries may be sorted before their values are taken. -/
theorem sortByKey_entryValues (entries : List (Bytes × Datum)) :
    sortByKey (entryValues entries) = entryValues (sortEntries entries) := by
  rw [entryValues_eq_map, entryValues_eq_map, sortByKey, sortEntries]
  exact (List.map_mergeSort (f := fun entry : Bytes × Datum => (entry.1, entry.2.toValue))
    fun _ _ _ _ => rfl).symm

theorem entryStrings_eq_flatMap (entries : List (Bytes × Datum)) :
    entryStrings entries = entries.flatMap fun entry => entry.1 :: entry.2.strings := by
  induction entries with
  | nil => rfl
  | cons entry entries ih => rw [entryStrings, ih, List.flatMap_cons, List.cons_append]

/-- The order of the entries of a mapping does not matter for its strings. -/
theorem Encodes.of_sortEntries {entries : List (Bytes × Datum)} {v : Value}
    (encodes : Encodes (.mapping (sortEntries entries)) v) : Encodes (.mapping entries) v where
  complete := encodes.complete
  finite := encodes.finite
  strings P := by
    rw [encodes.strings P, Datum.strings, Datum.strings, entryStrings_eq_flatMap,
      entryStrings_eq_flatMap, List.forall_mem_flatMap, List.forall_mem_flatMap]
    simp only [sortEntries, List.mem_mergeSort]

/-- Plain data have a JSON value. -/
theorem Plain.exists_toValue {d : Datum} (plain : d.Plain) :
    ∃ v, d.toValue = .ok v ∧ Encodes d v := by
  induction plain with
  | nothing => exact ⟨.null, rfl, encodes_of_nil rfl rfl rfl (List.forall_mem_nil _)⟩
  | bool b => exact ⟨.bool b, rfl, encodes_of_nil rfl rfl rfl (List.forall_mem_nil _)⟩
  | text s => exact ⟨.string (Escape.quote s), rfl, encodes_text s⟩
  | @integer type n supported inRange =>
      have finite := Binary64.isFinite_ofInt (IntegerType.natAbs_le_of_inRange inRange)
      exact ⟨.number (.ofInt n), by rw [toValue, if_pos supported], encodes_number rfl finite⟩
  | single finite => exact ⟨_, rfl, encodes_number rfl (Binary64.isFinite_ofBinary32 finite)⟩
  | double finite => exact ⟨_, rfl, encodes_number rfl finite⟩
  | sequence _ each =>
      obtain ⟨vs, valuesEq, encodes⟩ := exists_itemValues each
      exact ⟨.array vs, by rw [toValue, valuesEq]; rfl, encodes⟩
  | @mapping entries _ each =>
      have each' : ∀ entry ∈ sortEntries entries,
          ∃ v, entry.2.toValue = .ok v ∧ Encodes entry.2 v := by
        intro entry inside
        exact each entry (List.mem_mergeSort.mp inside)
      obtain ⟨members, membersEq, encodes⟩ := exists_entryMembers each'
      refine ⟨.object members, ?_, encodes.of_sortEntries⟩
      rw [toValue, sortByKey_entryValues, membersEq]
      rfl

end Datum

/-- A value is read back from its compact text exactly if it is expressible. -/
theorem readsBack_compact_iff {v : Value} : ReadsBack v.compact? v ↔ v.Expressible := by
  constructor
  · rintro ⟨text, next, _, read⟩
    obtain ⟨_, t, _, _, derives, _, _⟩ := spaced_of_parse read
    exact derives.expressible
  · exact readsBack_compact

/-- Plain data have a JSON value, and it is read back from its compact text exactly
if no text and no key in them holds a quotation mark. -/
theorem plain_reads_back_iff {d : Datum} (plain : d.Plain) :
    ∃ v, d.toValue = .ok v ∧
      (ReadsBack v.compact? v ↔ ∀ s ∈ d.strings, Ascii.quotationMark ∉ s) := by
  obtain ⟨v, valueEq, encodes⟩ := plain.exists_toValue
  refine ⟨v, valueEq, readsBack_compact_iff.trans ?_⟩
  have unquoted : (∀ raw ∈ v.strings, Ascii.quotationMark ∉ raw) ↔
      ∀ s ∈ d.strings, Ascii.quotationMark ∉ s := by
    simpa only [Escape.quotationMark_mem_quote_iff] using
      encodes.strings fun raw => Ascii.quotationMark ∉ raw
  rw [← unquoted]
  exact ⟨fun expressible => expressible.unquoted,
    fun marks => ⟨encodes.complete, marks, encodes.finite⟩⟩

/-- A mapping of a key to a number and an empty text is read back. -/
theorem plain_reads_back_iff_mapping :
    let d : Datum := .mapping [(Bytes.ofString "k", .sequence [.integer .int (-3), .text []])]
    d.Plain ∧ ∃ v, d.toValue = .ok v ∧ ReadsBack v.compact? v := by
  intro d
  have integer : (Datum.integer .int (-3)).Plain := .integer rfl (by decide)
  have items : ∀ i ∈ [Datum.integer .int (-3), .text []], i.Plain := by
    simp [integer, Datum.Plain.text]
  have plain : d.Plain := .mapping (List.forall_mem_singleton.mpr (.sequence items))
  obtain ⟨v, valueEq, readsBackIff⟩ := plain_reads_back_iff plain
  exact ⟨plain, v, valueEq, readsBackIff.mpr (by decide)⟩

/-- The text `"` is written as `\"` between quotation marks.  Reading that ends the
string behind the backslash, and finds input behind the value. -/
theorem not_reads_back_quotationMark :
    let d : Datum := .text [Ascii.quotationMark]
    let v : Value := .string [Ascii.backslash, Ascii.quotationMark]
    d.Plain ∧ d.toValue = .ok v ∧ v.compact? = .ok (Bytes.ofString "\"\\\"\"") ∧
      parse (Bytes.ofString "\"\\\"\"") = .failure ⟨.trailingInput 34, false, 3⟩ ∧
      ¬ ReadsBack v.compact? v := by
  intro d v
  have failed : parse (Bytes.ofString "\"\\\"\"") = .failure ⟨.trailingInput 34, false, 3⟩ := by
    rfl
  refine ⟨.text _, rfl, rfl, failed, ?_⟩
  rintro ⟨text, next, written, read⟩
  cases written
  have succeeded : parse (Bytes.ofString "\"\\\"\"") = .success v next := read
  rw [failed] at succeeded
  cases succeeded

end JsonFit.Json
