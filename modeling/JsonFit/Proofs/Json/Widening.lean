import JsonFit.Proofs.Json.RoundTrip
import JsonFit.Proofs.Layout.Widening

/-!
# Values in wider lines

The documents of values are anchored.  The line breaks inside a container stand
in front of its elements and of its closing bracket; they indent once and go
back once, and between a line break and a container there is at most a key.  So
a value fitted to a greater width is at least as flat.

Indentations are words.  A container is longer than its indentation by what is
inside it, so it is enough that the length of the flat form is a word.
-/

namespace JsonFit.Json

open Layout (AsFlat Doc Elem)
open Layout.Doc (AnchoredFrom)

variable {α : Type}

/-- The document of a value is one element, and no line break. -/
theorem ownDeltas_elem (v : Value) (es : List Elem) :
    Doc.ownDeltas (v.elem :: es) = Doc.ownDeltas es := by
  cases v with
  | object members => cases members <;> rfl
  | array elements => cases elements <;> rfl
  | _ => rfl

section Container

variable (opening closing : UInt8) (docOf : α → List Elem) {a : α} {as : List α}

/-- The line breaks of a container cancel each other. -/
theorem sum_ownDeltas_containerDoc {docOf : α → List Elem}
    (noBreaks : ∀ a, Doc.ownDeltas (docOf a) = []) :
    (Doc.ownDeltas (containerDoc opening closing docOf a as)).sum = 0 := by
  have others : (Doc.ownDeltas (as.flatMap fun a => Value.separator ++ docOf a)).sum = 0 := by
    induction as with
    | nil => rfl
    | cons a as ih =>
        rw [List.flatMap_cons, Doc.ownDeltas_append, Doc.ownDeltas_append, noBreaks,
          List.append_nil, List.sum_append, ih]
        rfl
  simp only [containerDoc, Doc.ownDeltas, Doc.ownDeltas_append, noBreaks, List.sum_cons,
    List.sum_append, others]
  rfl

/-- A container is longer than any of its items by more than its indentation. -/
theorem flatWidth_le_containerDoc {a' : α} (inside : a' ∈ a :: as) :
    Doc.flatWidth (docOf a') + 4 ≤ Doc.flatWidth (containerDoc opening closing docOf a as) := by
  have item : Doc.flatWidth (docOf a') ≤
      Doc.flatWidth (docOf a ++ as.flatMap fun a => Value.separator ++ docOf a) := by
    rw [Doc.flatWidth_append]
    rcases List.mem_cons.mp inside with rfl | inside
    · exact Nat.le_add_right _ _
    · obtain ⟨before, behind, rfl⟩ := List.append_of_mem inside
      simp only [List.flatMap_append, List.flatMap_cons, Doc.flatWidth_append]
      omega
  rw [Doc.flatWidth_append] at item
  simp only [containerDoc, Doc.flatWidth, Elem.flatWidth, Doc.flatWidth_append,
    List.length_singleton]
  omega

end Container

/-- The elements may stand behind a line break of this indentation, in front of
everything that may follow there whether the column is known or not. -/
def Stands (indent : Int) (es : List Elem) : Prop :=
  ∀ rest, (∀ anchored, AnchoredFrom anchored indent rest) → AnchoredFrom true indent (es ++ rest)

theorem stands_literal (indent : Int) (s : Bytes) : Stands indent [.literal s] :=
  fun _ further => Doc.anchoredFrom_literal_iff.mpr (further true)

theorem stands_text (indent : Int) (s : Bytes) : Stands indent [.text s] :=
  fun _ further => Doc.anchoredFrom_text_iff.mpr (further true)

theorem stands_group {indent : Int} {parts : List Elem} (inRange : Word.InRange indent)
    (balanced : (Doc.ownDeltas parts).sum = 0) (inside : AnchoredFrom false indent parts) :
    Stands indent [.group parts] := by
  intro rest further
  exact (Doc.anchoredFrom_group_iff inRange).mpr ⟨rfl, balanced, inside, further false⟩

section Container

variable {opening closing : UInt8} {docOf : α → List Elem} {a : α} {as : List α} {indent : Int}

/-- A line break to an indentation that is a word. -/
theorem anchoredFrom_newline {anchored : Bool} {delta next : Int} {es : List Elem}
    (sum : indent + delta = next) (nonneg : 0 ≤ next) (isWord : next ≤ Word.maximum)
    (further : AnchoredFrom true next es) :
    AnchoredFrom anchored indent (.newline delta :: es) := by
  rw [Doc.anchoredFrom_newline_iff, sum,
    Word.wrap_of_inRange (Word.inRange_of_nonneg nonneg isWord)]
  exact ⟨nonneg, further⟩

/-- Inside a container every item stands behind a line break of its own, and the
closing bracket behind one that goes back. -/
theorem anchoredFrom_containerDoc (nonneg : 0 ≤ indent)
    (isWord : indent + Value.indentation ≤ Word.maximum)
    (each : ∀ a' ∈ a :: as, Stands (indent + Value.indentation) (docOf a')) :
    AnchoredFrom false indent (containerDoc opening closing docOf a as) := by
  have further : 0 ≤ Value.indentation := by decide
  rw [List.forall_mem_cons] at each
  obtain ⟨first, each⟩ := each
  have others (anchored : Bool) : AnchoredFrom anchored (indent + Value.indentation)
      ((as.flatMap fun a => Value.separator ++ docOf a) ++
        [.newline (-Value.indentation), .literal [closing]]) := by
    induction as generalizing anchored with
    | nil =>
        apply anchoredFrom_newline (Int.add_neg_cancel_right _ _) nonneg (by omega)
        exact Doc.anchoredFrom_literal_iff.mpr Doc.anchoredFrom_nil
    | cons a as ih =>
        rw [List.forall_mem_cons] at each
        rw [List.flatMap_cons, Value.separator, List.append_assoc, List.append_assoc]
        apply Doc.anchoredFrom_literal_iff.mpr
        apply anchoredFrom_newline (Int.add_zero _) (by omega) isWord
        exact each.1 _ (ih each.2)
  apply Doc.anchoredFrom_literal_iff.mpr
  apply anchoredFrom_newline rfl (by omega) isWord
  exact first _ others

/-- A container stands wherever its items stand one indentation further in.  Its
length leaves room for the indentation. -/
theorem stands_container (nonneg : 0 ≤ indent)
    (isWord : indent + Doc.flatWidth (containerDoc opening closing docOf a as) ≤ Word.maximum)
    (noBreaks : ∀ a, Doc.ownDeltas (docOf a) = [])
    (each : ∀ a' ∈ a :: as,
      indent + Value.indentation + Doc.flatWidth (docOf a') ≤ Word.maximum →
        Stands (indent + Value.indentation) (docOf a')) :
    Stands indent [.group (containerDoc opening closing docOf a as)] := by
  have room (a' : α) (inside : a' ∈ a :: as) :
      indent + Value.indentation + Doc.flatWidth (docOf a') ≤ Word.maximum := by
    have longer := flatWidth_le_containerDoc opening closing docOf inside
    simp only [Value.indentation]
    omega
  have first := room a List.mem_cons_self
  have inRange : Word.InRange indent := by
    simp only [Word.InRange, Word.minimum, Word.maximum, Value.indentation] at first ⊢
    omega
  refine stands_group inRange (sum_ownDeltas_containerDoc opening closing noBreaks)
    (anchoredFrom_containerDoc nonneg (by omega) ?_)
  intro a' inside
  exact each a' inside (room a' inside)

end Container

/-- A value stands at every indentation that leaves room for its flat form in a
word. -/
theorem stands_elem {v : Value} {indent : Int} (nonneg : 0 ≤ indent)
    (isWord : indent + v.elem.flatWidth ≤ Word.maximum) : Stands indent [v.elem] := by
  induction v using Value.induction generalizing indent with
  | object members ih =>
      cases members with
      | nil => exact stands_literal indent _
      | cons m ms =>
          rw [elem_object_cons, Elem.flatWidth] at isWord
          rw [elem_object_cons]
          apply stands_container nonneg isWord fun m => ownDeltas_elem m.2 []
          intro m' inside wide rest settled
          have value : Stands (indent + Value.indentation) [m'.2.elem] := by
            apply ih m' inside (Int.add_nonneg nonneg (by decide))
            simp only [memberDoc, Doc.flatWidth] at wide
            omega
          exact Doc.anchoredFrom_text_iff.mpr
            (Doc.anchoredFrom_literal_iff.mpr (value rest settled))
  | array elements ih =>
      cases elements with
      | nil => exact stands_literal indent _
      | cons v vs =>
          rw [elem_array_cons, Elem.flatWidth] at isWord
          rw [elem_array_cons]
          apply stands_container nonneg isWord fun v => ownDeltas_elem v []
          intro v' inside wide
          exact ih v' inside (Int.add_nonneg nonneg (by decide)) wide
  | string raw => exact stands_text indent _
  | number x => exact stands_text indent _
  | bool b => exact stands_text indent _
  | null => exact stands_text indent _
  | missing => exact stands_text indent _

/-- The document of a value is anchored, if the length of its flat form is a
word. -/
theorem anchored_doc {v : Value} (isWord : (Doc.flatWidth v.doc : Int) ≤ Word.maximum) :
    Doc.Anchored v.doc := by
  have stands : Stands 0 [v.elem] := by
    apply stands_elem (Int.le_refl 0)
    simp only [Value.doc, Doc.flatWidth] at isWord
    omega
  exact stands [] fun _ => Doc.anchoredFrom_nil

/-- With a greater width, every group that was flat is flat or inside a flat
group, and there are no more line feeds: for every anchored document, and so for
every value, whose document is anchored. -/
theorem wider_layout_asFlat :
    (∀ (d : Doc) (w₁ w₂ : Int), Doc.Anchored d → 0 ≤ w₁ → w₁ ≤ w₂ → w₂ ≤ Word.maximum →
      (Layout.render w₁ d).length ≤ Word.maximum →
      AsFlat (Layout.layout w₁ d) (Layout.layout w₂ d) ∧
        (Layout.render w₂ d).count Ascii.lineFeed ≤ (Layout.render w₁ d).count Ascii.lineFeed) ∧
    (∀ v : Value, (Doc.flatWidth v.doc : Int) ≤ Word.maximum → Doc.Anchored v.doc) ∧
    ∀ (v : Value) (w₁ w₂ : Int), v.isComplete = true → 0 ≤ w₁ → w₁ ≤ w₂ → w₂ ≤ Word.maximum →
      (v.format w₁).length ≤ Word.maximum →
      v.format? w₁ = .ok (v.format w₁) ∧ v.format? w₂ = .ok (v.format w₂) ∧
        AsFlat (Layout.layout w₁ v.doc) (Layout.layout w₂ v.doc) ∧
        (v.format w₂).count Ascii.lineFeed ≤ (v.format w₁).count Ascii.lineFeed := by
  have general (d : Doc) (w₁ w₂ : Int) (settled : Doc.Anchored d) (nonneg : 0 ≤ w₁)
      (narrower : w₁ ≤ w₂) (isWord : w₂ ≤ Word.maximum)
      (short : (Layout.render w₁ d).length ≤ Word.maximum) :
      AsFlat (Layout.layout w₁ d) (Layout.layout w₂ d) ∧
        (Layout.render w₂ d).count Ascii.lineFeed ≤
          (Layout.render w₁ d).count Ascii.lineFeed := by
    have flatter := Layout.flatter_layout nonneg narrower isWord settled short
    exact ⟨flatter.asFlat, flatter.count_le⟩
  refine ⟨general, fun v => anchored_doc, ?_⟩
  intro v w₁ w₂ complete nonneg narrower isWord short
  have settled : Doc.Anchored v.doc := by
    apply anchored_doc
    have longer := Layout.flatWidth_le_length_render w₁ v.doc
    rw [Value.format] at short
    omega
  exact ⟨Value.format?_eq_ok complete nonneg,
    Value.format?_eq_ok complete (Int.le_trans nonneg narrower),
    general v.doc w₁ w₂ settled nonneg narrower isWord short⟩

/-- Behind a key, a group of two line breaks with another group in it, on lines of
four and of nine bytes. -/
theorem wider_layout_asFlat_key :
    let inner : Elem := .group [.newline 1, .text (Bytes.ofString "bc"), .newline (-1)]
    let d : Doc := [.text (Bytes.ofString "k:"), .group [.newline 2, inner, .newline (-2)]]
    Doc.Anchored d ∧ (Layout.render 4 d).length ≤ Word.maximum ∧
      AsFlat (Layout.layout 4 d) (Layout.layout 9 d) ∧
      (Layout.render 9 d).count Ascii.lineFeed ≤ (Layout.render 4 d).count Ascii.lineFeed := by
  intro inner d
  have settled : Doc.Anchored d := by decide
  have short : (Layout.render 4 d).length ≤ Word.maximum := by decide
  exact ⟨settled, short,
    wider_layout_asFlat.1 d 4 9 settled (by decide) (by decide) (by decide) short⟩

end JsonFit.Json
