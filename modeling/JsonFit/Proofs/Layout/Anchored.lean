import JsonFit.Proofs.Layout.Written
import Mathlib.Algebra.Ring.Int.Defs
import Mathlib.Tactic.MkIffOfInductiveProp

/-!
# Anchored documents

A layout decides on a group by the room that is left where the group begins.  In
an anchored document this room does not depend on how earlier groups were laid
out: between a group and the last line break before it there is only text, and
the indentation of that line break is the same whether earlier groups are flat
or tall, since the line breaks of a group cancel each other.

The conditions are those on a whole document.  `AnchoredFrom` states them for a
part of a document that begins at a known indentation, so that they can be
carried through the document from left to right.
-/

namespace JsonFit.Layout

/-- The changes of indentation of the line breaks that stand in no group. -/
def Doc.ownDeltas : List Elem → List Int
  | [] => []
  | .newline delta :: es => delta :: Doc.ownDeltas es
  | _ :: es => Doc.ownDeltas es

mutual

/-- The changes of indentation of the line breaks of an element. -/
def Elem.deltas : Elem → List Int
  | .literal _ => []
  | .text _ => []
  | .newline delta => [delta]
  | .group parts => Doc.deltas parts

/-- The changes of indentation of all line breaks, read from left to right with
all groups tall. -/
def Doc.deltas : List Elem → List Int
  | [] => []
  | e :: es => e.deltas ++ Doc.deltas es

end

mutual

/-- The parts of a group and of the groups inside it. -/
def Elem.groups : Elem → List (List Elem)
  | .literal _ => []
  | .text _ => []
  | .newline _ => []
  | .group parts => parts :: Doc.groups parts

/-- The parts of all groups, inner groups included. -/
def Doc.groups : List Elem → List (List Elem)
  | [] => []
  | e :: es => e.groups ++ Doc.groups es

end

/-- The indentations that changes lead to, one after the other.  They are words,
as those of a layout are. -/
def indentations (indent : Int) : List Int → List Int
  | [] => []
  | delta :: deltas =>
      let next := Word.wrap (indent + delta)
      next :: indentations next deltas

/-- Is there, before every group of the sequence, a line break with nothing but
text behind it?  If `anchored` is set, the start of the sequence counts as one. -/
def Doc.groupsAnchored (anchored : Bool) : List Elem → Bool
  | [] => true
  | .literal _ :: es => Doc.groupsAnchored anchored es
  | .text _ :: es => Doc.groupsAnchored anchored es
  | .newline _ :: es => Doc.groupsAnchored true es
  | .group _ :: es => anchored && Doc.groupsAnchored false es

/-- A part of a document that begins at an indentation, and whose start is
anchored or not. -/
@[mk_iff]
structure Doc.AnchoredFrom (anchored : Bool) (indent : Int) (d : List Elem) : Prop where
  /-- In every group, the changes of its own line breaks add up to nothing. -/
  balanced : ∀ parts ∈ Doc.groups d, (Doc.ownDeltas parts).sum = 0
  /-- Inside every group, groups stand behind line breaks. -/
  inner : ∀ parts ∈ Doc.groups d, Doc.groupsAnchored false parts = true
  /-- Outside of groups, groups stand behind line breaks or the start. -/
  outer : Doc.groupsAnchored anchored d = true
  /-- With all groups tall, the indentation is never negative. -/
  nonneg : ∀ i ∈ indentations indent (Doc.deltas d), 0 ≤ i

/-- An anchored document: the line breaks of a group cancel each other, groups
stand behind line breaks, and the indentation is never negative. -/
def Doc.Anchored (d : Doc) : Prop :=
  Doc.AnchoredFrom true 0 d

instance (d : Doc) : Decidable (Doc.Anchored d) :=
  decidable_of_iff' _ (Doc.anchoredFrom_iff true 0 d)

theorem Doc.ownDeltas_append (d d' : List Elem) :
    Doc.ownDeltas (d ++ d') = Doc.ownDeltas d ++ Doc.ownDeltas d' := by
  induction d with
  | nil => rfl
  | cons e es ih => cases e <;> simp [Doc.ownDeltas, ih]

theorem indentations_append {indent : Int} (inRange : Word.InRange indent)
    (first second : List Int) :
    indentations indent (first ++ second) =
      indentations indent first ++ indentations (Word.wrap (indent + first.sum)) second := by
  induction first generalizing indent with
  | nil => simp [indentations, Word.wrap_of_inRange inRange]
  | cons delta deltas ih =>
      simp only [List.cons_append, indentations, List.sum_cons, ih (Word.inRange_wrap _),
        Word.wrap_wrap_add, Int.add_assoc]

/-- Where the line breaks of groups cancel each other, only the others count. -/
theorem Doc.sum_deltas {d : List Elem}
    (balanced : ∀ parts ∈ Doc.groups d, (Doc.ownDeltas parts).sum = 0) :
    (Doc.deltas d).sum = (Doc.ownDeltas d).sum := by
  induction d using Doc.induction with
  | nil => rfl
  | literal s es ih => exact ih balanced
  | text s es ih => exact ih balanced
  | newline delta es ih =>
      simp only [Doc.deltas, Elem.deltas, Doc.ownDeltas, List.cons_append, List.nil_append,
        List.sum_cons]
      rw [ih balanced]
  | group parts es inside others =>
      simp only [Doc.groups, Elem.groups, List.cons_append, List.forall_mem_cons,
        List.forall_mem_append] at balanced
      obtain ⟨here, within, behind⟩ := balanced
      simp only [Doc.deltas, Elem.deltas, Doc.ownDeltas, List.sum_append]
      rw [inside within, here, others behind, Int.zero_add]

namespace Doc

variable {anchored : Bool} {indent : Int} {parts es : List Elem}

theorem anchoredFrom_nil : AnchoredFrom anchored indent [] := by
  simp [anchoredFrom_iff, groups, groupsAnchored, deltas, indentations]

@[simp]
theorem anchoredFrom_literal_iff {s : Bytes} :
    AnchoredFrom anchored indent (.literal s :: es) ↔ AnchoredFrom anchored indent es := by
  simp [anchoredFrom_iff, groups, Elem.groups, groupsAnchored, deltas, Elem.deltas]

@[simp]
theorem anchoredFrom_text_iff {s : Bytes} :
    AnchoredFrom anchored indent (.text s :: es) ↔ AnchoredFrom anchored indent es := by
  simp [anchoredFrom_iff, groups, Elem.groups, groupsAnchored, deltas, Elem.deltas]

/-- Behind a line break the column is known. -/
theorem anchoredFrom_newline_iff {delta : Int} :
    AnchoredFrom anchored indent (.newline delta :: es) ↔
      0 ≤ Word.wrap (indent + delta) ∧ AnchoredFrom true (Word.wrap (indent + delta)) es := by
  simp only [anchoredFrom_iff, groups, Elem.groups, groupsAnchored, deltas, Elem.deltas,
    indentations, List.nil_append, List.cons_append, List.forall_mem_cons]
  constructor
  · rintro ⟨balanced, inner, outer, here, nonneg⟩
    exact ⟨here, balanced, inner, outer, nonneg⟩
  · rintro ⟨here, balanced, inner, outer, nonneg⟩
    exact ⟨balanced, inner, outer, here, nonneg⟩

/-- A group leaves the indentation as it is, and behind it the column is not
known. -/
theorem anchoredFrom_group_iff (inRange : Word.InRange indent) :
    AnchoredFrom anchored indent (.group parts :: es) ↔
      anchored = true ∧ (ownDeltas parts).sum = 0 ∧ AnchoredFrom false indent parts ∧
        AnchoredFrom false indent es := by
  have indentations_group (balanced : ∀ inner ∈ groups parts, (ownDeltas inner).sum = 0)
      (here : (ownDeltas parts).sum = 0) :
      indentations indent (deltas parts ++ deltas es) =
        indentations indent (deltas parts) ++ indentations indent (deltas es) := by
    rw [indentations_append inRange, sum_deltas balanced, here, Int.add_zero,
      Word.wrap_of_inRange inRange]
  simp only [anchoredFrom_iff, groups, Elem.groups, groupsAnchored, deltas, Elem.deltas,
    List.cons_append, List.forall_mem_cons, List.forall_mem_append, Bool.and_eq_true]
  constructor
  · rintro ⟨⟨here, within, behind⟩, ⟨innerHere, innerWithin, innerBehind⟩, ⟨rfl, outer⟩, nonneg⟩
    rw [indentations_group within here, List.forall_mem_append] at nonneg
    exact ⟨rfl, here, ⟨within, innerWithin, innerHere, nonneg.1⟩,
      behind, innerBehind, outer, nonneg.2⟩
  · rintro ⟨rfl, here, ⟨within, innerWithin, innerHere, nonneg⟩,
      behind, innerBehind, outer, nonnegBehind⟩
    rw [indentations_group within here, List.forall_mem_append]
    exact ⟨⟨here, within, behind⟩, ⟨innerHere, innerWithin, innerBehind⟩, ⟨rfl, outer⟩,
      nonneg, nonnegBehind⟩

end Doc

end JsonFit.Layout
