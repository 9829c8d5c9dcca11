import JsonFit.Layout.Placed

/-!
# Documents with gaps

A draft is a document some of whose elements may be missing.  It can be laid
out only when nothing is missing; otherwise the fault depends on where a gap is
met first: a gap is unknown where it is to be written and unmeasurable where a
group that holds it is to be measured.
-/

namespace JsonFit.Layout

/-- An element that may be missing, or hold missing elements. -/
inductive Draft where
  /-- Fixed text. -/
  | literal (s : Bytes)
  /-- Text from the content. -/
  | text (s : Bytes)
  /-- A line break. -/
  | newline (delta : Int)
  /-- A part that is kept on one line if it fits. -/
  | group (parts : List Draft)
  /-- Nothing where an element should be. -/
  | gap
  deriving Repr

namespace Draft

mutual

/-- The element, if nothing is missing. -/
def elem? : Draft → Option Elem
  | literal s => some (.literal s)
  | text s => some (.text s)
  | newline delta => some (.newline delta)
  | group parts => (elems? parts).map .group
  | gap => none

/-- The elements, if nothing is missing. -/
def elems? : List Draft → Option (List Elem)
  | [] => some []
  | d :: ds => do
      let e ← d.elem?
      let es ← elems? ds
      return e :: es

end

/-- A group of drafts with a separator between each two of them. -/
def join (separator parts : List Draft) : Draft :=
  group (separator.intercalate (parts.map fun d => [d]))

/-- The flat form. -/
def flat (ds : List Draft) : Except Fault Bytes :=
  match elems? ds with
  | some es => .ok (Doc.flat es)
  | none => .error .missingElement

/-- The length of the flat form. -/
def flatWidth (ds : List Draft) : Except Fault Nat :=
  match elems? ds with
  | some es => .ok (Doc.flatWidth es)
  | none => .error .unmeasurable

/-- Why a draft in which something is missing cannot be laid out: a missing element is
unknown, and a group that holds one cannot be measured. -/
def obstacle : Draft → Fault
  | gap => .missingElement
  | _ => .unmeasurable

/-- The document that is to be laid out, unless something is missing. -/
def doc : List Draft → Except Fault Doc
  | [] => .ok []
  | d :: ds =>
      match d.elem? with
      | some e => (doc ds).map (e :: ·)
      | none => .error d.obstacle

/-- A draft as text, fitted to a width. -/
def render (width : Int) (ds : List Draft) : Except Fault Bytes :=
  if width < 0 then .error (.negativeWidth width) else (doc ds).map (Layout.render width)

theorem doc_of_elems? {ds : List Draft} {d : Doc} (complete : elems? ds = some d) :
    doc ds = .ok d := by
  induction ds generalizing d with
  | nil =>
      cases complete
      rfl
  | cons first ds ih =>
      rw [elems?] at complete
      obtain ⟨e, here, complete⟩ := Option.bind_eq_some_iff.mp complete
      obtain ⟨es, further, same⟩ := Option.bind_eq_some_iff.mp complete
      cases same
      simp [doc, here, ih further, Except.map]

theorem exists_doc_eq_error {ds : List Draft} (missing : elems? ds = none) :
    ∃ f, doc ds = .error f := by
  induction ds with
  | nil => contradiction
  | cons first ds ih =>
      cases here : first.elem? with
      | none => exact ⟨first.obstacle, by simp [doc, here]⟩
      | some e =>
          have further : elems? ds = none := by
            cases found : elems? ds with
            | none => rfl
            | some es => simp [elems?, here, found] at missing
          obtain ⟨f, stuck⟩ := ih further
          exact ⟨f, by simp [doc, here, stuck, Except.map]⟩

/-- A draft without gaps comes out as its document does, and no other draft comes
out. -/
theorem render_eq_ok_iff {width : Int} {ds : List Draft} {text : Bytes} :
    render width ds = .ok text ↔ ∃ d, elems? ds = some d ∧ render? width d = .ok text := by
  unfold render render?
  split
  · simp
  · cases complete : elems? ds with
    | some d => simp [doc_of_elems? complete, Except.map]
    | none =>
        obtain ⟨f, stuck⟩ := exists_doc_eq_error complete
        simp [stuck, Except.map]

end Draft

end JsonFit.Layout
