import JsonFit.Proofs.Json.Interchange
import JsonFit.Proofs.Json.Path

/-!
# Objects of fields

The values of a sequence are those of its items, and the members of a mapping are the
fields of its sorted entries: in both cases a list of results that has a value if each
of them has one, and else the first error.

A field keeps its key quoted, and members are looked up by raw keys.  Keys that are
valid are quoted differently if they are different, so looking up a quoted key finds
the first field that was made with this key.  With other keys it may find another one:
a stray byte is quoted in the same way as the replacement character.
-/

namespace JsonFit.Json

section Results

variable {α β ε : Type} {f : α → Except ε β} {as : List α} {bs : List β} {e : ε}

theorem map_eq_ok_iff {result : Except ε α} {g : α → β} {b : β} :
    result.map g = .ok b ↔ ∃ a, result = .ok a ∧ g a = b := by
  cases result <;> simp [Except.map]

theorem map_eq_error_iff {result : Except ε α} {g : α → β} :
    result.map g = .error e ↔ result = .error e := by
  cases result <;> simp [Except.map]

theorem mapM_of_parts {parts : List (α × β)} (each : ∀ part ∈ parts, f part.1 = .ok part.2) :
    (parts.map Prod.fst).mapM f = .ok (parts.map Prod.snd) := by
  induction parts with
  | nil => rfl
  | cons part parts ih =>
      obtain ⟨here, others⟩ := List.forall_mem_cons.mp each
      rw [List.map_cons, List.mapM_cons, here, ih others]
      rfl

/-- Either each result is a value, or one of the errors is that of the whole. -/
theorem mapM_cases (f : α → Except ε β) (as : List α) :
    (∃ parts : List (α × β), as = parts.map Prod.fst ∧ ∀ part ∈ parts, f part.1 = .ok part.2) ∨
    ∃ a ∈ as, ∃ e, f a = .error e ∧ as.mapM f = .error e := by
  induction as with
  | nil => exact .inl ⟨[], rfl, List.forall_mem_nil _⟩
  | cons a as ih =>
      rw [List.mapM_cons]
      cases here : f a with
      | error e => exact .inr ⟨a, List.mem_cons_self, e, here, rfl⟩
      | ok b =>
          rcases ih with ⟨parts, rfl, each⟩ | ⟨a', inside, e, failed, whole⟩
          · exact .inl ⟨(a, b) :: parts, rfl, List.forall_mem_cons.mpr ⟨here, each⟩⟩
          · refine .inr ⟨a', List.mem_cons_of_mem a inside, e, failed, ?_⟩
            rw [whole]
            rfl

theorem mapM_eq_ok_iff :
    as.mapM f = .ok bs ↔ ∃ parts : List (α × β), as = parts.map Prod.fst ∧
      bs = parts.map Prod.snd ∧ ∀ part ∈ parts, f part.1 = .ok part.2 := by
  constructor
  · intro succeeded
    rcases mapM_cases f as with ⟨parts, rfl, each⟩ | ⟨_, _, e, _, failed⟩
    · exact ⟨parts, rfl, Except.ok.inj (succeeded.symm.trans (mapM_of_parts each)), each⟩
    · rw [failed] at succeeded
      cases succeeded
  · rintro ⟨parts, rfl, rfl, each⟩
    exact mapM_of_parts each

theorem exists_of_mapM_eq_error (failed : as.mapM f = .error e) : ∃ a ∈ as, f a = .error e := by
  rcases mapM_cases f as with ⟨parts, rfl, each⟩ | ⟨a, inside, e', here, whole⟩
  · rw [mapM_of_parts each] at failed
    cases failed
  · obtain rfl := Except.error.inj (whole.symm.trans failed)
    exact ⟨a, inside, here⟩

end Results

namespace Datum

variable {key : Bytes} {d : Datum} {m : Bytes × Value}

theorem itemValues_eq_mapM (items : List Datum) : itemValues items = items.mapM toValue := by
  induction items with
  | nil => rfl
  | cons d items ih =>
      rw [itemValues, List.mapM_cons, ih]

/-- The members of a mapping are fields. -/
theorem collectMembers_eq_mapM (entries : List (Bytes × Datum)) :
    collectMembers (entryValues entries) = entries.mapM fun entry => field entry.1 entry.2 := by
  induction entries with
  | nil => rfl
  | cons entry entries ih =>
      rw [entryValues, collectMembers, List.mapM_cons, ih, field]
      cases entry.2.toValue <;> rfl

theorem field_eq_ok_iff : field key d = .ok m ↔ m.1 = Escape.quote key ∧ d.toValue = .ok m.2 := by
  rw [field]
  cases d.toValue with
  | error fault => simp [Except.map]
  | ok v => simp [Except.map, Prod.ext_iff, eq_comm]

end Datum

/-- Valid texts are quoted differently if they are different. -/
theorem Escape.quote_inj {s t : Bytes} (valid : Utf8.isValid s = true)
    (valid' : Utf8.isValid t = true) : Escape.quote s = Escape.quote t ↔ s = t := by
  constructor
  · intro same
    have back := Escape.unquote_quote s
    rw [same, Escape.unquote_quote, Utf8.repair_of_isValid valid, Utf8.repair_of_isValid valid']
      at back
    exact (Except.ok.inj back).symm
  · exact congrArg Escape.quote

namespace Value

variable {ε : Type} {key : Bytes} {members before behind : List (Bytes × Value)}
  {m : Bytes × Value}

theorem findMember?_append (others : ∀ m ∈ before, m.1 ≠ key) (here : m.1 = key) :
    findMember? key (before ++ m :: behind) = some m := by
  have none : before.find? (fun m => decide (m.1 = key)) = none :=
    List.find?_eq_none.mpr fun m inside => by simpa using others m inside
  rw [findMember?, List.find?_append, none, Option.none_or, List.find?_cons_of_pos (by simpa)]

theorem findMember?_eq_none (others : ∀ m ∈ members, m.1 ≠ key) :
    findMember? key members = none :=
  List.find?_eq_none.mpr fun m inside => by simpa using others m inside

theorem atPath_key_of_some (found : findMember? key members = some m) :
    (object members).atPath [(.key key : Step ε)] = (m.2, none) := by
  have stepped : (object members).step (.key key : Step ε) = .ok m.2 := by
    simp only [step, found]
  exact atPath_eq_value_iff.mpr (walk_cons_of_ok stepped [])

theorem atPath_key_of_none (missing : findMember? key members = none) :
    (object members).atPath [(.key key : Step ε)] =
      (object members, some (.keyNotFound key)) := by
  have stepped : (object members).step (.key key : Step ε) = .error (.keyNotFound key) := by
    simp only [step, missing]
  exact atPath_eq_error_iff.mpr ⟨rfl, walk_cons_of_error stepped []⟩

end Value

/-- In an object of fields with valid keys, some of them equal perhaps, looking up a
quoted key finds the first field that was made with this key, and a path with the
quoted key leads to the value of the datum of that field.  If no field was made with
the key, nothing is found, and the path is an error. -/
theorem findMember?_fields {entries : List (Bytes × Datum)} {key : Bytes}
    (keysValid : ∀ entry ∈ entries, Utf8.isValid entry.1 = true)
    (accepted : ∀ entry ∈ entries, ∃ v, entry.2.toValue = .ok v)
    (valid : Utf8.isValid key = true) (ε : Type) :
    ∃ members, entries.mapM (fun entry => Datum.field entry.1 entry.2) = .ok members ∧
      (∀ before d behind, entries = before ++ (key, d) :: behind →
        (∀ other ∈ before, other.1 ≠ key) →
        ∃ m, Datum.field key d = .ok m ∧ members[before.length]? = some m ∧
          Value.findMember? (Escape.quote key) members = some m ∧ d.toValue = .ok m.2 ∧
          (Value.object members).atPath [(.key (Escape.quote key) : Step ε)] = (m.2, none)) ∧
      ((∀ entry ∈ entries, entry.1 ≠ key) →
        Value.findMember? (Escape.quote key) members = none ∧
          (Value.object members).atPath [(.key (Escape.quote key) : Step ε)] =
            (.object members, some (.keyNotFound (Escape.quote key)))) := by
  have made : ∃ parts : List ((Bytes × Datum) × (Bytes × Value)), entries = parts.map Prod.fst ∧
      ∀ part ∈ parts, Datum.field part.1.1 part.1.2 = .ok part.2 := by
    rcases mapM_cases (fun entry => Datum.field entry.1 entry.2) entries with
      parts | ⟨entry, inside, fault, failed, _⟩
    · exact parts
    · obtain ⟨v, converted⟩ := accepted entry inside
      rw [Datum.field, converted] at failed
      cases failed
  obtain ⟨parts, rfl, each⟩ := made
  have differs : ∀ part ∈ parts, part.1.1 ≠ key → part.2.1 ≠ Escape.quote key := by
    intro part inside notKey
    rw [(Datum.field_eq_ok_iff.mp (each part inside)).1, Ne, Escape.quote_inj _ valid]
    · exact notKey
    · exact keysValid _ (List.mem_map_of_mem inside)
  refine ⟨parts.map Prod.snd, mapM_of_parts each, ?_, ?_⟩
  · intro before d behind split first
    obtain ⟨partsBefore, others, rfl, rfl, atKey⟩ := List.map_eq_append_iff.mp split
    obtain ⟨⟨entry, m⟩, partsBehind, rfl, rfl, rfl⟩ := List.map_eq_cons_iff.mp atKey
    have here : Datum.field key d = .ok m := each _ List.mem_append_cons_self
    obtain ⟨keyEq, converted⟩ := Datum.field_eq_ok_iff.mp here
    have found : Value.findMember? (Escape.quote key)
        ((partsBefore ++ ((key, d), m) :: partsBehind).map Prod.snd) = some m := by
      rw [List.map_append, List.map_cons]
      refine Value.findMember?_append (List.forall_mem_map.mpr fun part inside => ?_) keyEq
      exact differs part (List.mem_append_left _ inside) (first _ (List.mem_map_of_mem inside))
    exact ⟨m, here, by simp, found, converted, Value.atPath_key_of_some found⟩
  · intro absent
    have missing : Value.findMember? (Escape.quote key) (parts.map Prod.snd) = none := by
      refine Value.findMember?_eq_none (List.forall_mem_map.mpr fun part inside => ?_)
      exact differs part inside (absent _ (List.mem_map_of_mem inside))
    exact ⟨missing, Value.atPath_key_of_none missing⟩

/-- Three fields, the first and the last of them with the same key, which holds a
quotation mark, and the second with the key that looks like it when it is quoted. -/
theorem findMember?_fields_repeated :
    let key := Bytes.ofString "\""
    let entries : List (Bytes × Datum) := [(key, .nothing), (Bytes.ofString "\\\"", .bool true),
      (key, .bool false)]
    (∀ entry ∈ entries, Utf8.isValid entry.1 = true) ∧
      (∀ entry ∈ entries, ∃ v, entry.2.toValue = .ok v) ∧ Utf8.isValid key = true ∧
      ∃ members, entries.mapM (fun entry => Datum.field entry.1 entry.2) = .ok members ∧
        Value.findMember? (Escape.quote key) members = some (Escape.quote key, .null) ∧
        (Value.object members).atPath [(.key (Escape.quote key) : Step Unit)] = (.null, none) := by
  intro key entries
  have keysValid : ∀ entry ∈ entries, Utf8.isValid entry.1 = true := by decide
  have accepted : ∀ entry ∈ entries, ∃ v, entry.2.toValue = .ok v := by
    simp [entries, Datum.toValue]
  have valid : Utf8.isValid key = true := by decide
  obtain ⟨members, made, present, _⟩ := findMember?_fields keysValid accepted valid Unit
  obtain ⟨m, field, _, found, _, reached⟩ := present [] .nothing _ rfl (List.forall_mem_nil _)
  cases field
  exact ⟨keysValid, accepted, valid, members, made, found, reached⟩

end JsonFit.Json
