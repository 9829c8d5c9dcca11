import JsonFit.Layout.Placed

/-!
# Texts of layouts

The writers put a text in front of another one.  Here the texts are taken for
themselves: that of a sequence is the texts of its elements, one behind the
other.  With the equations for each kind of first element, later proofs go by
`Doc.induction` and open neither the writers nor the layout.
-/

namespace JsonFit.Layout

/-- Induction over a document and all groups in it. -/
@[elab_as_elim]
theorem Doc.induction {motive : List Elem → Prop} (nil : motive [])
    (literal : ∀ s es, motive es → motive (.literal s :: es))
    (text : ∀ s es, motive es → motive (.text s :: es))
    (newline : ∀ delta es, motive es → motive (.newline delta :: es))
    (group : ∀ parts es, motive parts → motive es → motive (.group parts :: es)) :
    ∀ d, motive d
  | [] => nil
  | .literal s :: es => literal s es (induction nil literal text newline group es)
  | .text s :: es => text s es (induction nil literal text newline group es)
  | .newline delta :: es => newline delta es (induction nil literal text newline group es)
  | .group parts :: es =>
      group parts es (induction nil literal text newline group parts)
        (induction nil literal text newline group es)

mutual

theorem Elem.flatOnto_eq (e : Elem) (tail : Bytes) : e.flatOnto tail = e.flat ++ tail := by
  cases e with
  | literal s => simp [Elem.flat, Elem.flatOnto]
  | text s => simp [Elem.flat, Elem.flatOnto]
  | newline delta => rfl
  | group parts => exact Doc.flatOnto_eq parts tail

/-- The flat form is written as it is, whatever follows. -/
theorem Doc.flatOnto_eq (d : List Elem) (tail : Bytes) :
    Doc.flatOnto d tail = Doc.flat d ++ tail := by
  cases d with
  | nil => rfl
  | cons e es =>
      have others := Doc.flatOnto_eq es tail
      rw [Doc.flat, Doc.flatOnto, Doc.flatOnto, others, e.flatOnto_eq, e.flatOnto_eq]
      exact (List.append_assoc _ _ _).symm

end

namespace Doc

@[simp]
theorem flat_nil : Doc.flat [] = [] :=
  rfl

theorem flat_cons (e : Elem) (es : List Elem) : Doc.flat (e :: es) = e.flat ++ Doc.flat es :=
  e.flatOnto_eq (Doc.flat es)

@[simp]
theorem flat_literal (s : Bytes) (es : List Elem) :
    Doc.flat (.literal s :: es) = s ++ Doc.flat es :=
  rfl

@[simp]
theorem flat_text (s : Bytes) (es : List Elem) : Doc.flat (.text s :: es) = s ++ Doc.flat es :=
  rfl

@[simp]
theorem flat_newline (delta : Int) (es : List Elem) :
    Doc.flat (.newline delta :: es) = Ascii.space :: Doc.flat es :=
  rfl

@[simp]
theorem flat_group (parts es : List Elem) :
    Doc.flat (.group parts :: es) = Doc.flat parts ++ Doc.flat es :=
  flat_cons (.group parts) es

theorem flatWidth_append (d d' : List Elem) :
    Doc.flatWidth (d ++ d') = Doc.flatWidth d + Doc.flatWidth d' := by
  induction d with
  | nil => simp [Doc.flatWidth]
  | cons e es ih => rw [List.cons_append, Doc.flatWidth, Doc.flatWidth, ih, Nat.add_assoc]

end Doc

namespace Placed

mutual

theorem writeOnto_eq (p : Placed) (tail : Bytes) : p.writeOnto tail = p.writeOnto [] ++ tail := by
  cases p with
  | text s => simp [writeOnto]
  | line indent => simp [writeOnto]
  | flat parts => exact Doc.flatOnto_eq parts tail
  | tall parts => exact writeAllOnto_eq parts tail

/-- Placed elements are written as they are, whatever follows. -/
theorem writeAllOnto_eq (ps : List Placed) (tail : Bytes) :
    writeAllOnto ps tail = writeAll ps ++ tail := by
  cases ps with
  | nil => rfl
  | cons p ps =>
      have others := writeAllOnto_eq ps tail
      have here := p.writeOnto_eq (writeAll ps ++ tail)
      have alone := p.writeOnto_eq (writeAllOnto ps [])
      rw [writeAll, writeAllOnto, writeAllOnto, others, here, alone]
      exact (List.append_assoc _ _ _).symm

end

@[simp]
theorem writeAll_nil : writeAll [] = [] :=
  rfl

@[simp]
theorem writeAll_text (s : Bytes) (ps : List Placed) :
    writeAll (.text s :: ps) = s ++ writeAll ps :=
  rfl

@[simp]
theorem writeAll_line (indent : Int) (ps : List Placed) :
    writeAll (.line indent :: ps) =
      Ascii.lineFeed :: (List.replicate indent.toNat Ascii.space ++ writeAll ps) :=
  rfl

@[simp]
theorem writeAll_flat (parts : List Elem) (ps : List Placed) :
    writeAll (.flat parts :: ps) = Doc.flat parts ++ writeAll ps :=
  Doc.flatOnto_eq parts (writeAll ps)

@[simp]
theorem writeAll_tall (parts ps : List Placed) :
    writeAll (.tall parts :: ps) = writeAll parts ++ writeAll ps :=
  writeAllOnto_eq parts (writeAll ps)

end Placed

section Width

variable (width : Int) (room : Room)

@[simp]
theorem placeAll_nil : placeAll width [] room = ([], room) :=
  rfl

@[simp]
theorem placeAll_literal (s : Bytes) (es : List Elem) :
    placeAll width (.literal s :: es) room =
      (.text s :: (placeAll width es (room.spend s.length)).1,
        (placeAll width es (room.spend s.length)).2) :=
  rfl

@[simp]
theorem placeAll_text (s : Bytes) (es : List Elem) :
    placeAll width (.text s :: es) room =
      (.text s :: (placeAll width es (room.spend s.length)).1,
        (placeAll width es (room.spend s.length)).2) :=
  rfl

@[simp]
theorem placeAll_newline (delta : Int) (es : List Elem) :
    placeAll width (.newline delta :: es) room =
      (.line (room.breakLine width delta).indent ::
          (placeAll width es (room.breakLine width delta)).1,
        (placeAll width es (room.breakLine width delta)).2) :=
  rfl

variable {width room}

/-- A group that fits is placed flat. -/
theorem placeAll_group_of_le {parts : List Elem} (fits : (Doc.flatWidth parts : Int) ≤ room.rest)
    (es : List Elem) :
    placeAll width (.group parts :: es) room =
      (.flat parts :: (placeAll width es (room.spend (Doc.flatWidth parts))).1,
        (placeAll width es (room.spend (Doc.flatWidth parts))).2) := by
  rw [placeAll, place, if_pos fits]

/-- A group that does not fit is placed tall. -/
theorem placeAll_group_of_lt {parts : List Elem} (wide : room.rest < (Doc.flatWidth parts : Int))
    (es : List Elem) :
    placeAll width (.group parts :: es) room =
      (.tall (placeAll width parts room).1 ::
          (placeAll width es (placeAll width parts room).2).1,
        (placeAll width es (placeAll width parts room).2).2) := by
  rw [placeAll, place, if_neg (Int.not_le.mpr wide)]

end Width

namespace Room

variable (room : Room)

@[simp]
theorem indent_spend (n : Nat) : (room.spend n).indent = room.indent :=
  rfl

@[simp]
theorem rest_spend (n : Nat) : (room.spend n).rest = Word.wrap (room.rest - n) :=
  rfl

@[simp]
theorem indent_breakLine (width delta : Int) :
    (room.breakLine width delta).indent = Word.wrap (room.indent + delta) :=
  rfl

@[simp]
theorem rest_breakLine (width delta : Int) :
    (room.breakLine width delta).rest = Word.wrap (width - Word.wrap (room.indent + delta)) :=
  rfl

end Room

end JsonFit.Layout
