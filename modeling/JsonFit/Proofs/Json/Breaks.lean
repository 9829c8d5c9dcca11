import JsonFit.Proofs.Json.Widening
import JsonFit.Proofs.Layout.Marks

/-!
# When a fitted value is broken

The width of a flat form is measured without writing it, the flat form is written
without a layout, and a layout measures before it writes.  All three agree: a document
without line breaks of its own is laid out flat at every width from that of its flat
form on, and a container that is not empty is broken at every smaller width.
-/

namespace JsonFit.Json

open Layout (Doc Elem Mark Placed Room)

/-- A container that is not empty is a group, with a line break behind its opening
bracket. -/
theorem exists_elem_of_length? {v : Value} {n : Nat} (nonempty : v.length? = some (n + 1)) :
    ∃ opening es, v.elem =
      .group (.literal [opening] :: .newline Value.indentation :: es) := by
  cases v with
  | object members =>
      cases members with
      | nil => cases nonempty
      | cons m ms => exact ⟨_, _, elem_object_cons m ms⟩
  | array elements =>
      cases elements with
      | nil => cases nonempty
      | cons v vs => exact ⟨_, _, elem_array_cons v vs⟩
  | _ => contradiction

/-- A container that is not empty is broken exactly if its flat form does not fit. -/
theorem line_mem_marks_iff {v : Value} {n : Nat} (nonempty : v.length? = some (n + 1))
    (width : Int) :
    (∃ indent, Mark.line indent ∈ Placed.marks (Layout.layout width v.doc)) ↔
      width < Doc.flatWidth v.doc := by
  rcases exists_elem_of_length? nonempty with ⟨opening, es, elemEq⟩
  rw [Value.doc, elemEq, Layout.layout]
  by_cases fits : (Doc.flatWidth (.literal [opening] :: .newline Value.indentation :: es) : Int) ≤
      (Room.fresh width).rest
  · rw [Layout.placeAll_group_of_le fits, Layout.placeAll_nil, Placed.marks_flat,
      Placed.marks_nil, List.append_nil]
    apply iff_of_false
    · rintro ⟨indent, broken⟩
      exact Layout.line_notMem_flatMarks indent _ broken
    · exact Int.not_lt.mpr fits
  · rw [Layout.placeAll_group_of_lt (Int.not_le.mp fits)]
    apply iff_of_true
    · exact ⟨_, List.mem_cons_of_mem _ List.mem_cons_self⟩
    · exact Int.not_le.mp fits

/-- The width that is measured is the length of the flat form.  A document without line
breaks of its own is written flat at every width from that on.  A container that is not
empty is broken at every smaller width, and at no other. -/
theorem flatWidth_decides :
    (∀ d : Doc, (Doc.flat d).length = Doc.flatWidth d) ∧
    (∀ (d : Doc) (width : Int), Doc.ownDeltas d = [] → (Doc.flatWidth d : Int) ≤ width →
      width ≤ Word.maximum → Layout.render? width d = .ok (Doc.flat d)) ∧
    ∀ (v : Value) (n : Nat) (width : Int), v.isComplete = true → v.length? = some (n + 1) →
      0 ≤ width →
      v.format? width =
          .ok ((Placed.marks (Layout.layout width v.doc)).flatMap Mark.bytes) ∧
        ((∃ indent, Mark.line indent ∈ Placed.marks (Layout.layout width v.doc)) ↔
          width < Doc.flatWidth v.doc) := by
  constructor
  · exact Doc.length_flat
  constructor
  · intro d width unbroken fits isWord
    have nonneg : 0 ≤ width := Int.le_trans (Int.natCast_nonneg _) fits
    rw [Layout.render?, if_neg (Int.not_lt.mpr nonneg),
      Layout.render_eq_flat unbroken fits isWord]
  · intro v n width complete nonempty nonneg
    constructor
    · rw [Value.format?_eq_ok complete nonneg, Layout.layout, Layout.flatMap_bytes_marks]
      rfl
    · exact line_mem_marks_iff nonempty width

/-- Two groups and a text on one line that they just fill, and an array on a line that
is one byte too short. -/
theorem flatWidth_decides_boundary :
    let inner : Elem := .group [.literal [97], .newline 2, .text [98]]
    let d : Doc := [inner, .text [99], inner]
    let v : Value := .array [.null, .array []]
    Doc.ownDeltas d = [] ∧ Doc.flatWidth d = 7 ∧ Layout.render? 7 d = .ok (Doc.flat d) ∧
      v.isComplete = true ∧ v.length? = some 2 ∧ Doc.flatWidth v.doc = 12 ∧
      ∃ indent, Mark.line indent ∈ Placed.marks (Layout.layout 11 v.doc) := by
  intro inner d v
  have flat : Layout.render? 7 d = .ok (Doc.flat d) :=
    flatWidth_decides.2.1 d 7 rfl (by decide) (by decide)
  have broken := (flatWidth_decides.2.2 v 1 11 rfl rfl (by decide)).2
  exact ⟨rfl, rfl, flat, rfl, rfl, rfl, broken.mpr (by decide)⟩

end JsonFit.Json
