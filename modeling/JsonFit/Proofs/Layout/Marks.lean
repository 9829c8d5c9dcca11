import JsonFit.Proofs.Layout.Anchored

/-!
# How line breaks are written

What is written for a document is a sequence of marks: one for each text, and one
for each line break, which is a space or a line feed with an indentation.  A trace
holds the marks in groups, as the document holds its elements.

A layout changes the line breaks of a document and nothing else.  Its trace has the
groups of the document; every group has only spaces in it, at any depth, or a line
feed for each line break of its own.  With a space for each line feed and the
indentation behind it, the text is the flat form.

A document that has no line breaks of its own and that fits is written flat as a
whole, since the room is enough for all that is still to come.
-/

namespace JsonFit.Layout

/-- What is written for an element that is no group. -/
inductive Mark where
  /-- A text, and whether it stands in a flat group. -/
  | text (isFlat : Bool) (s : Bytes)
  /-- A space for a line break. -/
  | space
  /-- A line feed for a line break, and the indentation behind it.  A negative
  indentation counts as none. -/
  | line (indent : Int)
  deriving DecidableEq, Repr

namespace Mark

/-- The text of a mark. -/
def bytes : Mark → Bytes
  | text _ s => s
  | space => [Ascii.space]
  | line indent => Ascii.lineFeed :: List.replicate indent.toNat Ascii.space

/-- The mark, with a space for a line feed and the indentation behind it. -/
def joined : Mark → Mark
  | line _ => space
  | m => m

end Mark

/-! ## Traces -/

/-- The marks of a document, in its groups. -/
inductive Trace where
  /-- Nothing more. -/
  | nil
  /-- A mark, and what is behind it. -/
  | mark (m : Mark) (others : Trace)
  /-- A group, and what is behind it. -/
  | group (parts others : Trace)
  deriving Repr

namespace Trace

/-- All marks, inside of groups or not. -/
def marks : Trace → List Mark
  | nil => []
  | mark m others => m :: others.marks
  | group parts others => parts.marks ++ others.marks

/-- The marks that stand in no group. -/
def ownMarks : Trace → List Mark
  | nil => []
  | mark m others => m :: others.ownMarks
  | group _ others => others.ownMarks

/-- All groups, inner groups included. -/
def groups : Trace → List Trace
  | nil => []
  | mark _ others => others.groups
  | group parts others => parts :: (parts.groups ++ others.groups)

end Trace

mutual

/-- Puts the trace of a flat element in front of a trace. -/
def Elem.flatTraceOnto : Elem → Trace → Trace
  | .literal s, tail => .mark (.text true s) tail
  | .text s, tail => .mark (.text true s) tail
  | .newline _, tail => .mark .space tail
  | .group parts, tail => .group (Doc.flatTrace parts) tail

/-- The trace of a document on one line. -/
def Doc.flatTrace : List Elem → Trace
  | [] => .nil
  | e :: es => e.flatTraceOnto (Doc.flatTrace es)

end

mutual

/-- Puts the trace of a placed element in front of a trace. -/
def Placed.traceOnto : Placed → Trace → Trace
  | .text s, tail => .mark (.text false s) tail
  | .line indent, tail => .mark (.line indent) tail
  | .flat parts, tail => .group (Doc.flatTrace parts) tail
  | .tall parts, tail => .group (Placed.traceAll parts) tail

/-- The trace of placed elements. -/
def Placed.traceAll : List Placed → Trace
  | [] => .nil
  | p :: ps => p.traceOnto (Placed.traceAll ps)

end

/-- The marks of a document on one line. -/
def Doc.flatMarks (d : List Elem) : List Mark :=
  (Doc.flatTrace d).marks

/-- The marks of placed elements. -/
def Placed.marks (ps : List Placed) : List Mark :=
  (Placed.traceAll ps).marks

/-- The trace has a mark for each text and each line break of the document, in the
same order and in the same groups. -/
inductive Traced : List Elem → Trace → Prop where
  /-- Nothing is left. -/
  | nil : Traced [] .nil
  /-- Fixed text. -/
  | literal {s : Bytes} {isFlat : Bool} {es : List Elem} {t : Trace} (others : Traced es t) :
      Traced (.literal s :: es) (.mark (.text isFlat s) t)
  /-- Text from the content. -/
  | text {s : Bytes} {isFlat : Bool} {es : List Elem} {t : Trace} (others : Traced es t) :
      Traced (.text s :: es) (.mark (.text isFlat s) t)
  /-- A line break that is written as a space. -/
  | space {delta : Int} {es : List Elem} {t : Trace} (others : Traced es t) :
      Traced (.newline delta :: es) (.mark .space t)
  /-- A line break that is written as a line feed. -/
  | line {delta indent : Int} {es : List Elem} {t : Trace} (others : Traced es t) :
      Traced (.newline delta :: es) (.mark (.line indent) t)
  /-- A group. -/
  | group {parts es : List Elem} {inner t : Trace} (inside : Traced parts inner)
      (others : Traced es t) : Traced (.group parts :: es) (.group inner t)

/-- With line breaks joined, only the texts of the document and spaces are left. -/
theorem Traced.flatMap_joined {d : List Elem} {t : Trace} (traced : Traced d t) :
    (t.marks.map Mark.joined).flatMap Mark.bytes = Doc.flat d := by
  induction traced with
  | nil => rfl
  | literal others ih => exact congrArg (_ ++ ·) ih
  | text others ih => exact congrArg (_ ++ ·) ih
  | space others ih => exact congrArg (_ :: ·) ih
  | line others ih => exact congrArg (_ :: ·) ih
  | group inside others ihInside ih =>
      rw [Trace.marks, List.map_append, List.flatMap_append, ihInside, ih, Doc.flat_group]

namespace Doc

@[simp]
theorem flatMarks_nil : flatMarks [] = [] :=
  rfl

@[simp]
theorem flatMarks_literal (s : Bytes) (es : List Elem) :
    flatMarks (.literal s :: es) = .text true s :: flatMarks es :=
  rfl

@[simp]
theorem flatMarks_text (s : Bytes) (es : List Elem) :
    flatMarks (.text s :: es) = .text true s :: flatMarks es :=
  rfl

@[simp]
theorem flatMarks_newline (delta : Int) (es : List Elem) :
    flatMarks (.newline delta :: es) = .space :: flatMarks es :=
  rfl

@[simp]
theorem flatMarks_group (parts es : List Elem) :
    flatMarks (.group parts :: es) = flatMarks parts ++ flatMarks es :=
  rfl

theorem flatMarks_append (d d' : List Elem) :
    flatMarks (d ++ d') = flatMarks d ++ flatMarks d' := by
  induction d with
  | nil => rfl
  | cons e es ih => cases e <;> simp [ih]

end Doc

theorem traced_flatTrace (d : List Elem) : Traced d (Doc.flatTrace d) := by
  induction d using Doc.induction with
  | nil => exact .nil
  | literal s es ih => exact .literal ih
  | text s es ih => exact .text ih
  | newline delta es ih => exact .space ih
  | group parts es inside others => exact .group inside others

/-- The marks of a document on one line are its flat form. -/
theorem flatMap_bytes_flatMarks (d : List Elem) :
    (Doc.flatMarks d).flatMap Mark.bytes = Doc.flat d := by
  induction d using Doc.induction with
  | nil => rfl
  | literal s es ih => exact congrArg (s ++ ·) ih
  | text s es ih => exact congrArg (s ++ ·) ih
  | newline delta es ih => exact congrArg (Ascii.space :: ·) ih
  | group parts es inside others =>
      rw [Doc.flatMarks_group, List.flatMap_append, inside, others, Doc.flat_group]

/-- On one line, no line break is written as a line feed. -/
theorem line_notMem_flatMarks (indent : Int) (d : List Elem) :
    Mark.line indent ∉ Doc.flatMarks d := by
  induction d using Doc.induction with
  | nil => exact List.not_mem_nil
  | literal s es ih => exact List.not_mem_cons_of_ne_of_not_mem Mark.noConfusion ih
  | text s es ih => exact List.not_mem_cons_of_ne_of_not_mem Mark.noConfusion ih
  | newline delta es ih => exact List.not_mem_cons_of_ne_of_not_mem Mark.noConfusion ih
  | group parts es inside others => exact List.not_mem_append inside others

/-- How the line breaks of a group may be written: as spaces in it and in all groups
inside, or else as line feeds where they are its own. -/
def Trace.Uniform (parts : Trace) : Prop :=
  (∀ indent, Mark.line indent ∉ parts.marks) ∨ Mark.space ∉ parts.ownMarks

/-- On one line, all groups are on one line. -/
theorem uniform_flatTrace (d : List Elem) :
    ∀ parts ∈ (Doc.flatTrace d).groups, parts.Uniform := by
  induction d using Doc.induction with
  | nil => exact List.forall_mem_nil _
  | literal s es ih => exact ih
  | text s es ih => exact ih
  | newline delta es ih => exact ih
  | group parts es inside others =>
      have here : (Doc.flatTrace parts).Uniform :=
        .inl fun indent => line_notMem_flatMarks indent parts
      exact List.forall_mem_cons.mpr ⟨here, List.forall_mem_append.mpr ⟨inside, others⟩⟩

/-! ## Layouts -/

namespace Placed

variable (ps : List Placed)

@[simp]
theorem marks_nil : marks [] = [] :=
  rfl

@[simp]
theorem marks_text (s : Bytes) : marks (.text s :: ps) = .text false s :: marks ps :=
  rfl

@[simp]
theorem marks_line (indent : Int) : marks (.line indent :: ps) = .line indent :: marks ps :=
  rfl

@[simp]
theorem marks_flat (parts : List Elem) :
    marks (.flat parts :: ps) = Doc.flatMarks parts ++ marks ps :=
  rfl

@[simp]
theorem marks_tall (parts : List Placed) :
    marks (.tall parts :: ps) = marks parts ++ marks ps :=
  rfl

theorem marks_append (qs : List Placed) : marks (ps ++ qs) = marks ps ++ marks qs := by
  induction ps with
  | nil => rfl
  | cons p ps ih => cases p <;> simp [ih]

end Placed

section Width

variable (width : Int) (d : List Elem) (room : Room)

theorem traced_placeAll : Traced d (Placed.traceAll (placeAll width d room).1) := by
  induction d using Doc.induction generalizing room with
  | nil => exact .nil
  | literal s es ih => exact .literal (ih _)
  | text s es ih => exact .text (ih _)
  | newline delta es ih => exact .line (ih _)
  | group parts es inside others =>
      by_cases fits : (Doc.flatWidth parts : Int) ≤ room.rest
      · rw [placeAll_group_of_le fits]
        exact .group (traced_flatTrace parts) (others _)
      · rw [placeAll_group_of_lt (Int.not_le.mp fits)]
        exact .group (inside _) (others _)

/-- The marks of a layout are its text. -/
theorem flatMap_bytes_marks :
    (Placed.marks (placeAll width d room).1).flatMap Mark.bytes =
      Placed.writeAll (placeAll width d room).1 := by
  induction d using Doc.induction generalizing room with
  | nil => rfl
  | literal s es ih => exact congrArg (s ++ ·) (ih _)
  | text s es ih => exact congrArg (s ++ ·) (ih _)
  | newline delta es ih =>
      simp only [placeAll_newline, Placed.marks_line, Placed.writeAll_line, List.flatMap_cons, ih]
      rfl
  | group parts es inside others =>
      by_cases fits : (Doc.flatWidth parts : Int) ≤ room.rest
      · rw [placeAll_group_of_le fits, Placed.marks_flat, Placed.writeAll_flat,
          List.flatMap_append, flatMap_bytes_flatMarks, others]
      · rw [placeAll_group_of_lt (Int.not_le.mp fits), Placed.marks_tall, Placed.writeAll_tall,
          List.flatMap_append, inside, others]

/-- Outside of groups, all line breaks are kept. -/
theorem space_notMem_ownMarks :
    Mark.space ∉ (Placed.traceAll (placeAll width d room).1).ownMarks := by
  induction d using Doc.induction generalizing room with
  | nil => exact List.not_mem_nil
  | literal s es ih => exact List.not_mem_cons_of_ne_of_not_mem Mark.noConfusion (ih _)
  | text s es ih => exact List.not_mem_cons_of_ne_of_not_mem Mark.noConfusion (ih _)
  | newline delta es ih => exact List.not_mem_cons_of_ne_of_not_mem Mark.noConfusion (ih _)
  | group parts es inside others =>
      by_cases fits : (Doc.flatWidth parts : Int) ≤ room.rest
      · rw [placeAll_group_of_le fits]
        exact others _
      · rw [placeAll_group_of_lt (Int.not_le.mp fits)]
        exact others _

/-- A layout keeps or joins the line breaks of a group all together. -/
theorem uniform_placeAll :
    ∀ parts ∈ (Placed.traceAll (placeAll width d room).1).groups, parts.Uniform := by
  induction d using Doc.induction generalizing room with
  | nil => exact List.forall_mem_nil _
  | literal s es ih => exact ih _
  | text s es ih => exact ih _
  | newline delta es ih => exact ih _
  | group parts es inside others =>
      by_cases fits : (Doc.flatWidth parts : Int) ≤ room.rest
      · rw [placeAll_group_of_le fits]
        have here : (Doc.flatTrace parts).Uniform :=
          .inl fun indent => line_notMem_flatMarks indent parts
        exact List.forall_mem_cons.mpr
          ⟨here, List.forall_mem_append.mpr ⟨uniform_flatTrace parts, others _⟩⟩
      · rw [placeAll_group_of_lt (Int.not_le.mp fits)]
        have here : (Placed.traceAll (placeAll width parts room).1).Uniform :=
          .inr (space_notMem_ownMarks width parts room)
        exact List.forall_mem_cons.mpr
          ⟨here, List.forall_mem_append.mpr ⟨inside _, others _⟩⟩

end Width

/-- A layout changes only line breaks.  Its trace has a mark for each text and each line
break of the document, in the same order and in the same groups.  The marks are the
text that is written, and with a space for each line feed and its indentation they are
the flat form.  In every group all line breaks are spaces, at any depth, or all its own
ones are line feeds. -/
theorem layout_changes_breaks_only (d : Doc) (width : Int) (nonneg : 0 ≤ width) :
    let trace := Placed.traceAll (layout width d)
    render? width d = .ok (trace.marks.flatMap Mark.bytes) ∧
      Traced d trace ∧
      (trace.marks.map Mark.joined).flatMap Mark.bytes = Doc.flat d ∧
      ∀ parts ∈ trace.groups,
        (∀ indent, Mark.line indent ∉ parts.marks) ∨ Mark.space ∉ parts.ownMarks := by
  intro trace
  have traced : Traced d trace := traced_placeAll width d (Room.fresh width)
  have written : trace.marks.flatMap Mark.bytes = render width d :=
    flatMap_bytes_marks width d (Room.fresh width)
  constructor
  · rw [render?, if_neg (Int.not_lt.mpr nonneg), written]
  constructor
  · exact traced
  constructor
  · exact traced.flatMap_joined
  · exact uniform_placeAll width d (Room.fresh width)

/-- A tall group with a flat group in it, on lines of five bytes. -/
theorem layout_changes_breaks_only_nested :
    let inner : Elem := .group [.literal [98], .newline 0, .literal [99]]
    let d : Doc := [.literal [97], .group [.newline 2, inner, .newline (-2)]]
    let trace := Placed.traceAll (layout 5 d)
    (0 : Int) ≤ 5 ∧
      trace.marks = [.text false [97], .line 2, .text true [98], .space, .text true [99],
        .line 0] ∧
      (trace.marks.map Mark.joined).flatMap Mark.bytes = Doc.flat d ∧
      ∀ parts ∈ trace.groups,
        (∀ indent, Mark.line indent ∉ parts.marks) ∨ Mark.space ∉ parts.ownMarks := by
  intro inner d trace
  have nonneg : (0 : Int) ≤ 5 := by decide
  have whole := layout_changes_breaks_only d 5 nonneg
  exact ⟨nonneg, by decide, whole.2.2⟩

section Width

variable {width : Int} {room : Room}

/-- As long as there is room, spending it does not overflow. -/
theorem Room.rest_spend_of_le {n : Nat} (isWord : room.rest ≤ Word.maximum)
    (fits : (n : Int) ≤ room.rest) : (room.spend n).rest = room.rest - n := by
  apply Word.wrap_of_inRange
  simp only [Word.InRange, Word.minimum, Word.maximum] at isWord ⊢
  omega

/-- What has no line breaks of its own is written flat, if all of it fits. -/
theorem writeAll_placeAll_of_le {d : List Elem} (unbroken : Doc.ownDeltas d = [])
    (isWord : room.rest ≤ Word.maximum) (fits : (Doc.flatWidth d : Int) ≤ room.rest) :
    Placed.writeAll (placeAll width d room).1 = Doc.flat d := by
  induction d generalizing room with
  | nil => rfl
  | cons e es ih =>
      rw [Doc.flatWidth] at fits
      have restEq : (room.spend e.flatWidth).rest = room.rest - e.flatWidth :=
        Room.rest_spend_of_le isWord (by omega)
      have others (unbroken : Doc.ownDeltas es = []) :
          Placed.writeAll (placeAll width es (room.spend e.flatWidth)).1 = Doc.flat es :=
        ih unbroken (by omega) (by omega)
      cases e with
      | literal s => exact congrArg (s ++ ·) (others unbroken)
      | text s => exact congrArg (s ++ ·) (others unbroken)
      | newline delta => contradiction
      | group parts =>
          have fitsHere : (Doc.flatWidth parts : Int) ≤ room.rest := by
            rw [Elem.flatWidth] at fits
            omega
          rw [placeAll_group_of_le fitsHere, Placed.writeAll_flat, Doc.flat_group]
          exact congrArg (Doc.flat parts ++ ·) (others unbroken)

/-- A document without line breaks of its own is written flat if it fits. -/
theorem render_eq_flat {d : Doc} (unbroken : Doc.ownDeltas d = [])
    (fits : (Doc.flatWidth d : Int) ≤ width) (isWord : width ≤ Word.maximum) :
    render width d = Doc.flat d :=
  writeAll_placeAll_of_le unbroken isWord fits

end Width

end JsonFit.Layout
