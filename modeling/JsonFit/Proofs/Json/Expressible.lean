import JsonFit.Proofs.Json.Derivation
import JsonFit.Proofs.Number.Numeral
import Mathlib.Tactic.MkIffOfInductiveProp

/-!
# Values that have a text

A tree of values is expressible if nothing is missing in it, if no string and no
key holds a quotation mark, and if all its numbers are finite.  Whatever has a
derivation is expressible.

The conditions are stated over all parts of a tree at once; the lemmas here bring
them to the parts of a container, so that later proofs go by `Value.induction`.
-/

namespace JsonFit.Json

namespace Value

/-- Induction over a tree, with a hypothesis for each part of a container. -/
@[elab_as_elim]
theorem induction {motive : Value → Prop}
    (object : ∀ members, (∀ m ∈ members, motive m.2) → motive (.object members))
    (array : ∀ elements, (∀ v ∈ elements, motive v) → motive (.array elements))
    (string : ∀ raw, motive (.string raw)) (number : ∀ x, motive (.number x))
    (bool : ∀ b, motive (.bool b)) (null : motive .null) (missing : motive .missing) :
    ∀ v, motive v
  | .object members =>
      object members fun m inside =>
        have := List.sizeOf_lt_of_mem inside
        induction object array string number bool null missing m.2
  | .array elements =>
      array elements fun v _ => induction object array string number bool null missing v
  | .string raw => string raw
  | .number x => number x
  | .bool b => bool b
  | .null => null
  | .missing => missing
termination_by v => v
decreasing_by
  · have smaller : sizeOf m.2 < sizeOf m := by
      cases m
      simp
    simp only [Value.object.sizeOf_spec]
    omega
  · decreasing_tactic

mutual

/-- The numbers of a tree in order. -/
def numbers : Value → List Binary64
  | object members => memberNumbers members
  | array elements => elementNumbers elements
  | string _ => []
  | number x => [x]
  | bool _ => []
  | null => []
  | missing => []

/-- The numbers of several trees in order. -/
def elementNumbers : List Value → List Binary64
  | [] => []
  | v :: vs => v.numbers ++ elementNumbers vs

/-- The numbers of members in order. -/
def memberNumbers : List (Bytes × Value) → List Binary64
  | [] => []
  | (_, v) :: ms => v.numbers ++ memberNumbers ms

end

theorem allComplete_iff (elements : List Value) :
    allComplete elements = true ↔ ∀ v ∈ elements, v.isComplete = true := by
  induction elements with
  | nil => simp [allComplete]
  | cons v vs ih => simp [allComplete, ih]

theorem allMembersComplete_iff (members : List (Bytes × Value)) :
    allMembersComplete members = true ↔ ∀ m ∈ members, m.2.isComplete = true := by
  induction members with
  | nil => simp [allMembersComplete]
  | cons m ms ih => simp only [allMembersComplete, Bool.and_eq_true, ih, List.forall_mem_cons]

theorem elementStrings_eq_flatMap (elements : List Value) :
    elementStrings elements = elements.flatMap strings := by
  induction elements with
  | nil => rfl
  | cons v vs ih => rw [elementStrings, ih, List.flatMap_cons]

theorem memberStrings_eq_flatMap (members : List (Bytes × Value)) :
    memberStrings members = members.flatMap fun m => m.1 :: m.2.strings := by
  induction members with
  | nil => rfl
  | cons m ms ih => rw [memberStrings, ih, List.flatMap_cons, List.cons_append]

theorem elementNumbers_eq_flatMap (elements : List Value) :
    elementNumbers elements = elements.flatMap numbers := by
  induction elements with
  | nil => rfl
  | cons v vs ih => rw [elementNumbers, ih, List.flatMap_cons]

theorem memberNumbers_eq_flatMap (members : List (Bytes × Value)) :
    memberNumbers members = members.flatMap fun m => m.2.numbers := by
  induction members with
  | nil => rfl
  | cons m ms ih => rw [memberNumbers, ih, List.flatMap_cons]

section Conforms

variable {Body : Bytes → Prop}

/-- Nothing is missing in the tree, all strings and keys have insides of a kind, and
all numbers are finite. -/
@[mk_iff]
structure Conforms (Body : Bytes → Prop) (v : Value) : Prop where
  complete : v.isComplete = true
  bodies : ∀ raw ∈ v.strings, Body raw
  finite : ∀ x ∈ v.numbers, x.isFinite = true

theorem conforms_array_iff {elements : List Value} :
    (Value.array elements).Conforms Body ↔ ∀ v ∈ elements, v.Conforms Body := by
  have completeIff : (Value.array elements).isComplete = true ↔ _ := allComplete_iff elements
  have stringsEq : (Value.array elements).strings = _ := elementStrings_eq_flatMap elements
  have numbersEq : (Value.array elements).numbers = _ := elementNumbers_eq_flatMap elements
  simp only [conforms_iff, completeIff, stringsEq, numbersEq, List.forall_mem_flatMap,
    imp_and, forall_and]

theorem conforms_object_iff {members : List (Bytes × Value)} :
    (Value.object members).Conforms Body ↔ ∀ m ∈ members, Body m.1 ∧ m.2.Conforms Body := by
  have completeIff : (Value.object members).isComplete = true ↔ _ :=
    allMembersComplete_iff members
  have stringsEq : (Value.object members).strings = _ := memberStrings_eq_flatMap members
  have numbersEq : (Value.object members).numbers = _ := memberNumbers_eq_flatMap members
  simp only [conforms_iff, completeIff, stringsEq, numbersEq, List.forall_mem_flatMap,
    List.forall_mem_cons, imp_and, forall_and]
  constructor
  · rintro ⟨complete, ⟨keys, bodies⟩, finite⟩
    exact ⟨keys, complete, bodies, finite⟩
  · rintro ⟨keys, complete, bodies, finite⟩
    exact ⟨complete, ⟨keys, bodies⟩, finite⟩

theorem conforms_string_iff {raw : Bytes} : (Value.string raw).Conforms Body ↔ Body raw := by
  constructor
  · intro conforms
    exact conforms.bodies raw List.mem_cons_self
  · intro body
    exact ⟨rfl, List.forall_mem_singleton.mpr body, List.forall_mem_nil _⟩

theorem conforms_number_iff {x : Binary64} :
    (Value.number x).Conforms Body ↔ x.isFinite = true := by
  constructor
  · intro conforms
    exact conforms.finite x List.mem_cons_self
  · intro finite
    exact ⟨rfl, List.forall_mem_nil _, List.forall_mem_singleton.mpr finite⟩

theorem conforms_bool (b : Bool) : (Value.bool b).Conforms Body :=
  ⟨rfl, List.forall_mem_nil _, List.forall_mem_nil _⟩

theorem conforms_null : Value.null.Conforms Body :=
  ⟨rfl, List.forall_mem_nil _, List.forall_mem_nil _⟩

theorem not_conforms_missing : ¬ Value.missing.Conforms Body := by
  rintro ⟨complete, _, _⟩
  contradiction

end Conforms

/-- Nothing is missing in the tree, no string and no key holds a quotation mark,
and all numbers are finite. -/
@[mk_iff]
structure Expressible (v : Value) : Prop where
  complete : v.isComplete = true
  unquoted : ∀ raw ∈ v.strings, Ascii.quotationMark ∉ raw
  finite : ∀ x ∈ v.numbers, x.isFinite = true

theorem expressible_iff_conforms {v : Value} :
    v.Expressible ↔ v.Conforms (Ascii.quotationMark ∉ ·) := by
  rw [expressible_iff, conforms_iff]

theorem expressible_array_iff {elements : List Value} :
    (Value.array elements).Expressible ↔ ∀ v ∈ elements, v.Expressible := by
  simp only [expressible_iff_conforms, conforms_array_iff]

theorem expressible_object_iff {members : List (Bytes × Value)} :
    (Value.object members).Expressible ↔
      ∀ m ∈ members, Ascii.quotationMark ∉ m.1 ∧ m.2.Expressible := by
  simp only [expressible_iff_conforms, conforms_object_iff]

@[simp]
theorem expressible_string_iff {raw : Bytes} :
    (Value.string raw).Expressible ↔ Ascii.quotationMark ∉ raw := by
  rw [expressible_iff_conforms, conforms_string_iff]

@[simp]
theorem expressible_number_iff {x : Binary64} :
    (Value.number x).Expressible ↔ x.isFinite = true := by
  rw [expressible_iff_conforms, conforms_number_iff]

theorem expressible_bool (b : Bool) : (Value.bool b).Expressible :=
  expressible_iff_conforms.mpr (conforms_bool b)

theorem expressible_null : Value.null.Expressible :=
  expressible_iff_conforms.mpr conforms_null

theorem not_expressible_missing : ¬ Value.missing.Expressible := by
  rw [expressible_iff_conforms]
  exact not_conforms_missing

end Value

variable {α : Type} {Item : Bytes → α → Prop}

theorem Listed.exists_of_mem {body : Bytes} {as : List α} (listed : Listed Item body as) :
    ∀ a ∈ as, ∃ t, Item t a := by
  induction listed with
  | last item => exact List.forall_mem_singleton.mpr ⟨_, item⟩
  | cons item _ _ _ ih => exact List.forall_mem_cons.mpr ⟨⟨_, item⟩, ih⟩

theorem Bracketed.exists_of_mem {opening closing : UInt8} {t : Bytes} {as : List α}
    (bracketed : Bracketed opening closing Item t as) : ∀ a ∈ as, ∃ t, Item t a := by
  cases bracketed with
  | empty => exact List.forall_mem_nil _
  | items _ listed _ => exact listed.exists_of_mem

/-- Whatever has a derivation is expressible. -/
theorem Derives.expressible {t : Bytes} {v : Value} (derives : Derives t v) : v.Expressible := by
  induction v using Value.induction generalizing t with
  | object members ih =>
      cases derives with
      | object bracketed =>
          apply Value.expressible_object_iff.mpr
          intro m inside
          obtain ⟨_, ⟨unquoted, rfl⟩, _, _, value⟩ := bracketed.exists_of_mem m inside
          exact ⟨unquoted, ih _ inside value⟩
  | array elements ih =>
      cases derives with
      | array bracketed =>
          apply Value.expressible_array_iff.mpr
          intro v inside
          obtain ⟨_, value⟩ := bracketed.exists_of_mem v inside
          exact ih v inside value
  | string raw =>
      cases derives with
      | string unquoted => exact Value.expressible_string_iff.mpr unquoted
  | number x =>
      cases derives with
      | number _ _ denotes =>
          exact Value.expressible_number_iff.mpr (Decimal.isFinite_of_read? denotes)
  | bool b => exact Value.expressible_bool b
  | null => exact Value.expressible_null
  | missing => cases derives

end JsonFit.Json
