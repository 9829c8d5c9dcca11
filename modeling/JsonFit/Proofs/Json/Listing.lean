import JsonFit.Proofs.Json.Fields

/-!
# The order in which mappings are listed

A mapping has each of its keys once, but no order: it may list its entries in any way,
and in another way the next time.  `Relisted d d'` says that two data differ in nothing
but such listings, at any depth.  They have the same value; and if they have none, the
same part of them is to blame, although each may hold several parts that could be.

This is because entries are sorted by their keys before anything is done with them, and
with distinct keys there is one way to sort them.  `Converts` says what the value is
without mentioning a listing.
-/

namespace JsonFit.Json.Datum

/-! ## Data without an order -/

/-- The datum is a part of another one, at any depth, or that datum itself. -/
inductive Within (d : Datum) : Datum → Prop where
  /-- The datum itself. -/
  | self : Within d d
  /-- A part of an item. -/
  | item {items : List Datum} {e : Datum} (inside : e ∈ items) (within : Within d e) :
      Within d (.sequence items)
  /-- A part of what a key is mapped to. -/
  | entry {entries : List (Bytes × Datum)} {entry : Bytes × Datum} (inside : entry ∈ entries)
      (within : Within d entry.2) : Within d (.mapping entries)

/-- No mapping in the datum has a key twice. -/
def Keyed (d : Datum) : Prop :=
  ∀ entries, Within (.mapping entries) d → (entries.map Prod.fst).Nodup

/-- The data differ at most in the order in which their mappings list their entries. -/
inductive Relisted : Datum → Datum → Prop where
  /-- No difference. -/
  | same (d : Datum) : Relisted d d
  /-- The items of a sequence stay where they are. -/
  | sequence {parts : List (Datum × Datum)} (each : ∀ part ∈ parts, Relisted part.1 part.2) :
      Relisted (.sequence (parts.map Prod.fst)) (.sequence (parts.map Prod.snd))
  /-- The entries of a mapping may change places. -/
  | mapping {parts : List ((Bytes × Datum) × (Bytes × Datum))} {entries : List (Bytes × Datum)}
      (keys : ∀ part ∈ parts, part.2.1 = part.1.1)
      (each : ∀ part ∈ parts, Relisted part.1.2 part.2.2)
      (order : (parts.map Prod.snd).Perm entries) :
      Relisted (.mapping (parts.map Prod.fst)) (.mapping entries)

/-- Is this a sequence or a mapping? -/
def isContainer : Datum → Bool
  | sequence _ | mapping _ => true
  | nothing | bool _ | text _ | integer _ _ | single _ | double _ | value _ | texts _ | other _ =>
      false

/-- The value is made from the datum part by part.  A mapping becomes an object with
one member for each of its keys, in increasing order of the keys; the raw key of the
member is the quoted key. -/
inductive Converts : Datum → Value → Prop where
  /-- A datum without parts. -/
  | atom {d : Datum} {v : Value} (noParts : d.isContainer = false)
      (converted : d.toValue = .ok v) : Converts d v
  /-- A sequence becomes an array; its items, each with its value. -/
  | sequence {parts : List (Datum × Value)} (each : ∀ part ∈ parts, Converts part.1 part.2) :
      Converts (.sequence (parts.map Prod.fst)) (.array (parts.map Prod.snd))
  /-- A mapping becomes an object; its entries, each with its member. -/
  | mapping {entries : List (Bytes × Datum)} {parts : List ((Bytes × Datum) × (Bytes × Value))}
      (once : (parts.map Prod.fst).Perm entries)
      (increasing : parts.Pairwise fun a b => a.1.1 < b.1.1)
      (keys : ∀ part ∈ parts, part.2.1 = Escape.quote part.1.1)
      (each : ∀ part ∈ parts, Converts part.1.2 part.2.2) :
      Converts (.mapping entries) (.object (parts.map Prod.snd))

variable {d d' e : Datum} {v : Value} {fault : Fault} {items : List Datum}
  {entries entries' : List (Bytes × Datum)}

theorem Within.trans (inner : Within d d') (outer : Within d' e) : Within d e := by
  induction outer with
  | self => exact inner
  | item inside _ ih => exact .item inside ih
  | entry inside _ ih => exact .entry inside ih

theorem Keyed.of_within (keyed : Keyed e) (within : Within d e) : Keyed d :=
  fun entries inside => keyed entries (inside.trans within)

theorem Keyed.of_item (keyed : Keyed (.sequence items)) (inside : d ∈ items) : Keyed d :=
  keyed.of_within (.item inside .self)

theorem Keyed.of_entry {entry : Bytes × Datum} (keyed : Keyed (.mapping entries))
    (inside : entry ∈ entries) : Keyed entry.2 :=
  keyed.of_within (.entry inside .self)

theorem Keyed.distinct (keyed : Keyed (.mapping entries)) : (entries.map Prod.fst).Nodup :=
  keyed entries .self

theorem keyed_of_atom (noParts : d.isContainer = false) : Keyed d := by
  intro entries within
  cases within <;> cases noParts

theorem keyed_sequence_iff : Keyed (.sequence items) ↔ ∀ d ∈ items, Keyed d := by
  refine ⟨fun keyed _ => keyed.of_item, fun each entries within => ?_⟩
  cases within with
  | item inside within => exact each _ inside entries within

theorem keyed_mapping_iff :
    Keyed (.mapping entries) ↔ (entries.map Prod.fst).Nodup ∧ ∀ entry ∈ entries, Keyed entry.2 := by
  refine ⟨fun keyed => ⟨keyed.distinct, fun _ => keyed.of_entry⟩, ?_⟩
  rintro ⟨distinct, each⟩ entries' within
  cases within with
  | self => exact distinct
  | entry inside within => exact each _ inside entries' within

/-- With distinct keys, there is one way to sort the entries. -/
theorem eq_sortEntries (distinct : (entries.map Prod.fst).Nodup) (order : entries'.Perm entries)
    (sorted : entries'.Pairwise fun a b => Bytes.le a.1 b.1 = true) :
    entries' = sortEntries entries := by
  obtain ⟨sorted', order'⟩ := sortEntries_increasing entries
  refine List.Perm.eq_of_pairwise ?_ sorted sorted' (order.trans order'.symm)
  intro a b inside inside' le ge
  have sameKey : a.1 = b.1 := List.le_antisymm (Bytes.le_iff.mp le) (Bytes.le_iff.mp ge)
  exact List.inj_on_of_nodup_map distinct (order.mem_iff.mp inside) (order'.mem_iff.mp inside')
    sameKey

theorem sortEntries_eq_of_perm (distinct : (entries.map Prod.fst).Nodup)
    (order : entries.Perm entries') : sortEntries entries' = sortEntries entries := by
  obtain ⟨sorted, order'⟩ := sortEntries_increasing entries'
  exact eq_sortEntries distinct (order'.trans order.symm) sorted

/-- Distinct keys are sorted in strictly increasing order. -/
theorem sortEntries_strict (distinct : (entries.map Prod.fst).Nodup) :
    (sortEntries entries).Pairwise fun a b => a.1 < b.1 := by
  obtain ⟨sorted, order⟩ := sortEntries_increasing entries
  have distinct' : (sortEntries entries).Pairwise fun a b => a.1 ≠ b.1 :=
    List.pairwise_map.mp ((order.map Prod.fst).nodup_iff.mpr distinct)
  refine sorted.imp₂ (fun a b le ne => ?_) distinct'
  by_contra notLess
  exact ne (List.le_antisymm (Bytes.le_iff.mp le) (List.not_lt.mp notLess))

/-- The value of a mapping is the object of the fields of its sorted entries. -/
theorem toValue_mapping (entries : List (Bytes × Datum)) :
    (mapping entries).toValue =
      ((sortEntries entries).mapM fun entry => field entry.1 entry.2).map .object := by
  rw [toValue, sortByKey_entryValues, collectMembers_eq_mapM]

theorem toValue_sequence_congr {parts : List (Datum × Datum)}
    (same : ∀ part ∈ parts, part.2.toValue = part.1.toValue) :
    (sequence (parts.map Prod.snd)).toValue = (sequence (parts.map Prod.fst)).toValue := by
  have asList (items : List Datum) : itemValues items = (items.map toValue).mapM id := by
    rw [itemValues_eq_mapM, List.mapM_map]
    rfl
  have values : (parts.map Prod.snd).map toValue = (parts.map Prod.fst).map toValue := by
    rw [List.map_map, List.map_map]
    exact List.map_congr_left same
  rw [toValue, toValue, asList, asList, values]

theorem toValue_mapping_congr {parts : List ((Bytes × Datum) × (Bytes × Datum))}
    (keys : ∀ part ∈ parts, part.2.1 = part.1.1)
    (same : ∀ part ∈ parts, part.2.2.toValue = part.1.2.toValue) :
    (mapping (parts.map Prod.snd)).toValue = (mapping (parts.map Prod.fst)).toValue := by
  have values : entryValues (parts.map Prod.snd) = entryValues (parts.map Prod.fst) := by
    rw [entryValues_eq_map, entryValues_eq_map, List.map_map, List.map_map]
    exact List.map_congr_left fun part inside =>
      Prod.ext_iff.mpr ⟨keys part inside, same part inside⟩
  rw [toValue, toValue, values]

/-- The order in which mappings are listed does not matter. -/
theorem Relisted.toValue_eq (relisted : Relisted d d') (keyed : d.Keyed) :
    d'.toValue = d.toValue := by
  induction relisted with
  | same d => rfl
  | sequence each ih =>
      exact toValue_sequence_congr fun part inside =>
        ih part inside (keyed.of_item (List.mem_map_of_mem inside))
  | @mapping parts entries keys each order ih =>
      have replaced := toValue_mapping_congr keys fun part inside =>
        ih part inside (keyed.of_entry (List.mem_map_of_mem inside))
      have distinct : ((parts.map Prod.snd).map Prod.fst).Nodup := by
        have sameKeys : (parts.map Prod.snd).map Prod.fst = (parts.map Prod.fst).map Prod.fst := by
          rw [List.map_map, List.map_map]
          exact List.map_congr_left keys
        rw [sameKeys]
        exact keyed.distinct
      calc
        (Datum.mapping entries).toValue = (Datum.mapping (parts.map Prod.snd)).toValue := by
          rw [toValue_mapping, toValue_mapping, sortEntries_eq_of_perm distinct order]
        _ = (Datum.mapping (parts.map Prod.fst)).toValue := replaced

/-! ## Values part by part -/

theorem toValue_sequence_eq_ok_iff :
    (sequence items).toValue = .ok v ↔ ∃ parts : List (Datum × Value),
      items = parts.map Prod.fst ∧ v = .array (parts.map Prod.snd) ∧
        ∀ part ∈ parts, part.1.toValue = .ok part.2 := by
  rw [toValue, itemValues_eq_mapM, map_eq_ok_iff]
  constructor
  · rintro ⟨vs, converted, rfl⟩
    obtain ⟨parts, rfl, rfl, each⟩ := mapM_eq_ok_iff.mp converted
    exact ⟨parts, rfl, rfl, each⟩
  · rintro ⟨parts, rfl, rfl, each⟩
    exact ⟨_, mapM_of_parts each, rfl⟩

/-- A mapping with distinct keys has a value exactly if all that it maps to has one; the
value is an object with a member for each key, in increasing order of the keys. -/
theorem toValue_mapping_eq_ok_iff (distinct : (entries.map Prod.fst).Nodup) :
    (mapping entries).toValue = .ok v ↔ ∃ parts : List ((Bytes × Datum) × (Bytes × Value)),
      (parts.map Prod.fst).Perm entries ∧ (parts.Pairwise fun a b => a.1.1 < b.1.1) ∧
        v = .object (parts.map Prod.snd) ∧
        ∀ part ∈ parts, field part.1.1 part.1.2 = .ok part.2 := by
  rw [toValue_mapping, map_eq_ok_iff]
  constructor
  · rintro ⟨members, converted, rfl⟩
    obtain ⟨parts, sortedEq, rfl, each⟩ := mapM_eq_ok_iff.mp converted
    have strict := sortEntries_strict distinct
    rw [sortedEq, List.pairwise_map] at strict
    exact ⟨parts, sortedEq ▸ (sortEntries_increasing entries).2, strict, rfl, each⟩
  · rintro ⟨parts, once, increasing, rfl, each⟩
    have sorted : (parts.map Prod.fst).Pairwise fun a b => Bytes.le a.1 b.1 = true := by
      refine List.pairwise_map.mpr (increasing.imp fun less => ?_)
      exact Bytes.le_iff.mpr (List.le_of_lt less)
    rw [← eq_sortEntries distinct once sorted]
    exact ⟨_, mapM_of_parts each, rfl⟩

theorem toValue_eq_ok_iff_of_atom (noParts : d.isContainer = false) :
    d.toValue = .ok v ↔ Converts d v := by
  constructor
  · exact .atom noParts
  · intro converts
    cases converts with
    | atom _ converted => exact converted
    | sequence _ => cases noParts
    | mapping _ _ _ _ => cases noParts

/-- What the value of a datum is, if it has one. -/
theorem toValue_eq_ok_iff (keyed : d.Keyed) : d.toValue = .ok v ↔ Converts d v := by
  induction d using Datum.induction generalizing v with
  | sequence items ih =>
      have partIff {parts : List (Datum × Value)} (split : items = parts.map Prod.fst) :
          ∀ part ∈ parts, part.1.toValue = .ok part.2 ↔ Converts part.1 part.2 := by
        intro part inside
        have item : part.1 ∈ items := split ▸ List.mem_map_of_mem inside
        exact ih part.1 item (keyed.of_item item)
      rw [toValue_sequence_eq_ok_iff]
      constructor
      · rintro ⟨parts, rfl, rfl, each⟩
        exact .sequence fun part inside => (partIff rfl part inside).mp (each part inside)
      · intro converts
        cases converts with
        | atom noParts _ => cases noParts
        | @sequence parts each =>
            refine ⟨parts, rfl, rfl, fun part inside => ?_⟩
            exact (partIff rfl part inside).mpr (each part inside)
  | mapping entries ih =>
      have partIff {parts : List ((Bytes × Datum) × (Bytes × Value))}
          (once : (parts.map Prod.fst).Perm entries) :
          ∀ part ∈ parts, part.1.2.toValue = .ok part.2.2 ↔ Converts part.1.2 part.2.2 := by
        intro part inside
        have entry : part.1 ∈ entries := once.mem_iff.mp (List.mem_map_of_mem inside)
        exact ih part.1 entry (keyed.of_entry entry)
      rw [toValue_mapping_eq_ok_iff keyed.distinct]
      constructor
      · rintro ⟨parts, once, increasing, rfl, each⟩
        have fields := fun part inside => field_eq_ok_iff.mp (each part inside)
        exact .mapping once increasing (fun part inside => (fields part inside).1)
          fun part inside => (partIff once part inside).mp (fields part inside).2
      · intro converts
        cases converts with
        | atom noParts _ => cases noParts
        | @mapping _ parts once increasing keys each =>
            refine ⟨parts, once, increasing, rfl, fun part inside => ?_⟩
            exact field_eq_ok_iff.mpr
              ⟨keys part inside, (partIff once part inside).mpr (each part inside)⟩
  | nothing | bool _ | text _ | integer _ _ | single _ | double _ | value _ | texts _ | other _ =>
      exact toValue_eq_ok_iff_of_atom rfl

/-- The one way for a datum to have no value is a part of an unsupported type. -/
theorem exists_unsupportedType (failed : d.toValue = .error fault) :
    ∃ typeName, fault = .unsupportedType typeName := by
  induction d using Datum.induction with
  | sequence items ih =>
      rw [toValue, itemValues_eq_mapM, map_eq_error_iff] at failed
      obtain ⟨d, inside, here⟩ := exists_of_mapM_eq_error failed
      exact ih d inside here
  | mapping entries ih =>
      rw [toValue_mapping, map_eq_error_iff] at failed
      obtain ⟨entry, inside, here⟩ := exists_of_mapM_eq_error failed
      rw [field, map_eq_error_iff] at here
      exact ih entry (List.mem_mergeSort.mp inside) here
  | integer type n =>
      rw [toValue] at failed
      split at failed <;> cases failed
      exact ⟨_, rfl⟩
  | texts _ | other _ =>
      cases failed
      exact ⟨_, rfl⟩
  | nothing | bool _ | text _ | single _ | double _ | value _ => cases failed

/-- The value of a datum does not depend on the order in which mappings list their
entries, at whatever depth: it is the same in both data, or both have none and break
the same precondition, and the message names the same unsupported type.  The value of
the datum, and of each of its parts, is made from the values of its own parts; that of
a mapping is an object with exactly one member for each key, in increasing order of the
keys, with the quoted key and the value of what it is mapped to. -/
theorem toValue_relisted {d d' : Datum} (keyed : d.Keyed) (relisted : Relisted d d') :
    d'.toValue = d.toValue ∧
      (∀ part, part.Within d → ∀ v, part.toValue = .ok v ↔ Converts part v) ∧
      ∀ fault, d.toValue = .error fault → ∃ typeName, fault.message? =
        some (Bytes.ofString "ast.ToValue: unsupported type " ++ typeName) := by
  refine ⟨relisted.toValue_eq keyed, ?_, ?_⟩
  · intro part within v
    exact toValue_eq_ok_iff (keyed.of_within within)
  · intro fault failed
    obtain ⟨typeName, rfl⟩ := exists_unsupportedType failed
    exact ⟨typeName, rfl⟩

/-- Two mappings, one inside of the other, are listed backward.  Of two unsupported
types, that of the smaller key is named.  A third mapping inside has a value. -/
theorem toValue_relisted_nested :
    let a := Bytes.ofString "a"
    let b := Bytes.ofString "b"
    let small := (a, Datum.integer .int8 1)
    let large := (b, Datum.other (Bytes.ofString "struct {}"))
    let third : Datum := .mapping [(b, .bool true), (a, .nothing)]
    let d : Datum := .mapping [(b, .sequence [.mapping [large, small]]), (a, third)]
    let d' : Datum := .mapping [(a, third), (b, .sequence [.mapping [small, large]])]
    d.Keyed ∧ Relisted d d' ∧ d'.toValue = d.toValue ∧
      d.toValue = .error (.unsupportedType (Bytes.ofString "int8")) ∧
      (∃ typeName, (Fault.unsupportedType (Bytes.ofString "int8")).message? =
        some (Bytes.ofString "ast.ToValue: unsupported type " ++ typeName)) ∧
      third.Within d ∧ Converts third (.object [(a, .null), (b, .bool true)]) := by
  intro a b small large third d d'
  have pair {entry entry' : Bytes × Datum} (ne : entry.1 ≠ entry'.1) (keyed : entry.2.Keyed)
      (keyed' : entry'.2.Keyed) : Keyed (.mapping [entry, entry']) := by
    have each : ∀ e ∈ [entry, entry'], e.2.Keyed :=
      List.forall_mem_cons.mpr ⟨keyed, List.forall_mem_singleton.mpr keyed'⟩
    exact keyed_mapping_iff.mpr ⟨by simpa using ne, each⟩
  have inner : Keyed (.mapping [large, small]) :=
    pair (by decide) (keyed_of_atom rfl) (keyed_of_atom rfl)
  have keyed : d.Keyed := by
    refine pair (by decide) (keyed_sequence_iff.mpr (List.forall_mem_singleton.mpr inner)) ?_
    exact pair (by decide) (keyed_of_atom rfl) (keyed_of_atom rfl)
  have swapped : Relisted (.mapping [large, small]) (.mapping [small, large]) :=
    @Relisted.mapping [(large, large), (small, small)] _ (by simp) (by simp [Relisted.same])
      (.swap ..)
  have lists : Relisted (.sequence [.mapping [large, small]])
      (.sequence [.mapping [small, large]]) :=
    @Relisted.sequence [(_, _)] (List.forall_mem_singleton.mpr swapped)
  have relisted : Relisted d d' :=
    @Relisted.mapping [((b, _), (b, _)), ((a, third), (a, third))] _ (by simp)
      (by simp [lists, Relisted.same]) (.swap ..)
  obtain ⟨same, converts, named⟩ := toValue_relisted keyed relisted
  have sorted {x y : Bytes × Datum} (less : y.1 < x.1) : sortEntries [x, y] = [y, x] := by
    have distinct : ([x, y].map Prod.fst).Nodup := by
      simpa using fun same : x.1 = y.1 => List.lt_irrefl y.1 (same ▸ less)
    refine (eq_sortEntries distinct (.swap ..) ?_).symm
    simpa [Bytes.le_iff] using List.le_of_lt less
  have converted : third.toValue = .ok (.object [(a, .null), (b, .bool true)]) := by
    rw [toValue_mapping, sorted (by decide)]
    rfl
  have failed : d.toValue = .error (.unsupportedType (Bytes.ofString "int8")) := by
    have innerFailed : (Datum.mapping [large, small]).toValue =
        .error (.unsupportedType (Bytes.ofString "int8")) := by
      rw [toValue_mapping, sorted (by decide)]
      rfl
    rw [toValue_mapping, sorted (by decide), List.mapM_cons, List.mapM_cons, field, field,
      converted, toValue, itemValues, innerFailed]
    rfl
  have within : third.Within d := .entry (List.mem_cons_of_mem _ List.mem_cons_self) .self
  exact ⟨keyed, relisted, same, failed, named _ failed, within,
    (converts third within _).mp converted⟩

end JsonFit.Json.Datum
