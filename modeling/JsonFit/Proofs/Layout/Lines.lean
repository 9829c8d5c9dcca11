import JsonFit.Proofs.Layout.Written

/-!
# Lines of a layout

A layout is cut into lines at the line breaks that it has placed.  A line is an
indentation and the pieces behind it: texts, and groups on one line.  A tall group
is no piece; what is inside it is spread over the lines.  A line feed in a text is
part of that text and ends no line.

Nothing is lost: `intercalate_lines` puts the lines together again.  The cut is
made from the right, so that what stands behind an element is known when the
element is added.

`Room.At` says where on its line a layout has come to.  As long as all lengths are
words, the room that is left is the width without the columns that are used.
-/

namespace JsonFit.Layout

/-- What stands on a line as a whole. -/
inductive Piece where
  /-- Text. -/
  | text (s : Bytes)
  /-- A group on one line. -/
  | flat (parts : List Elem)

/-- The text of a piece. -/
def Piece.bytes : Piece → Bytes
  | text s => s
  | flat parts => Doc.flat parts

/-- A line of a layout. -/
structure Line where
  /-- The number of spaces in front. -/
  indent : Nat
  /-- What stands behind them. -/
  pieces : List Piece

namespace Line

/-- The text of a line. -/
def bytes (l : Line) : Bytes :=
  List.replicate l.indent Ascii.space ++ l.pieces.flatMap Piece.bytes

/-- The length of a line. -/
def length (l : Line) : Nat :=
  l.bytes.length

theorem length_mk (indent : Nat) (pieces : List Piece) :
    length ⟨indent, pieces⟩ = indent + (pieces.flatMap Piece.bytes).length := by
  simp [length, bytes]

end Line

/-- A part of a layout that goes on to the end: the pieces in front of its first
line break, and the lines behind that. -/
structure Cut where
  /-- The pieces that end a line. -/
  pieces : List Piece
  /-- The lines behind that one. -/
  lines : List Line

namespace Cut

/-- The end of a layout. -/
def finish : Cut :=
  ⟨[], []⟩

/-- One more piece in front. -/
def add (piece : Piece) (cut : Cut) : Cut :=
  ⟨piece :: cut.pieces, cut.lines⟩

/-- All lines, where the first one begins with an indentation and other pieces. -/
def linesFrom (indent : Nat) (before : List Piece) (cut : Cut) : List Line :=
  ⟨indent, before ++ cut.pieces⟩ :: cut.lines

/-- A line break in front. -/
def breakLine (indent : Nat) (cut : Cut) : Cut :=
  ⟨[], cut.linesFrom indent []⟩

/-- The text of a part. -/
def bytes (cut : Cut) : Bytes :=
  cut.pieces.flatMap Piece.bytes ++ cut.lines.flatMap fun l => Ascii.lineFeed :: l.bytes

@[simp]
theorem pieces_add (piece : Piece) (cut : Cut) : (cut.add piece).pieces = piece :: cut.pieces :=
  rfl

@[simp]
theorem lines_add (piece : Piece) (cut : Cut) : (cut.add piece).lines = cut.lines :=
  rfl

@[simp]
theorem bytes_add (piece : Piece) (cut : Cut) :
    (cut.add piece).bytes = piece.bytes ++ cut.bytes := by
  simp [bytes]

@[simp]
theorem bytes_breakLine (indent : Nat) (cut : Cut) :
    (cut.breakLine indent).bytes =
      Ascii.lineFeed :: (List.replicate indent Ascii.space ++ cut.bytes) := by
  simp [bytes, breakLine, linesFrom, Line.bytes]

/-- A piece goes on with the line that has begun. -/
theorem linesFrom_add (indent : Nat) (before : List Piece) (piece : Piece) (cut : Cut) :
    (cut.add piece).linesFrom indent before = cut.linesFrom indent (before ++ [piece]) := by
  simp [linesFrom]

end Cut

namespace Placed

mutual

/-- Cuts a placed element in front of a part that is cut already. -/
def cutOnto : Placed → Cut → Cut
  | text s, cut => cut.add (.text s)
  | line indent, cut => cut.breakLine indent.toNat
  | flat parts, cut => cut.add (.flat parts)
  | tall parts, cut => cutAllOnto parts cut

/-- Cuts placed elements in front of a part that is cut already. -/
def cutAllOnto : List Placed → Cut → Cut
  | [], cut => cut
  | p :: ps, cut => p.cutOnto (cutAllOnto ps cut)

end

/-- The lines of placed elements. -/
def lines (ps : List Placed) : List Line :=
  (cutAllOnto ps Cut.finish).linesFrom 0 []

variable (ps : List Placed) (cut : Cut)

@[simp]
theorem cutAllOnto_nil : cutAllOnto [] cut = cut :=
  rfl

@[simp]
theorem cutAllOnto_text (s : Bytes) :
    cutAllOnto (.text s :: ps) cut = (cutAllOnto ps cut).add (.text s) :=
  rfl

@[simp]
theorem cutAllOnto_line (indent : Int) :
    cutAllOnto (.line indent :: ps) cut = (cutAllOnto ps cut).breakLine indent.toNat :=
  rfl

@[simp]
theorem cutAllOnto_flat (parts : List Elem) :
    cutAllOnto (.flat parts :: ps) cut = (cutAllOnto ps cut).add (.flat parts) :=
  rfl

@[simp]
theorem cutAllOnto_tall (parts : List Placed) :
    cutAllOnto (.tall parts :: ps) cut = cutAllOnto parts (cutAllOnto ps cut) :=
  rfl

theorem cutAllOnto_append (qs : List Placed) :
    cutAllOnto (ps ++ qs) cut = cutAllOnto ps (cutAllOnto qs cut) := by
  induction ps with
  | nil => rfl
  | cons p ps ih => rw [List.cons_append, cutAllOnto, cutAllOnto, ih]

mutual

theorem bytes_cutOnto (p : Placed) (cut : Cut) : (p.cutOnto cut).bytes = p.writeOnto cut.bytes := by
  cases p with
  | text s => exact Cut.bytes_add _ cut
  | line indent => exact Cut.bytes_breakLine _ cut
  | flat parts => exact (Cut.bytes_add _ cut).trans (Doc.flatOnto_eq parts cut.bytes).symm
  | tall parts => exact bytes_cutAllOnto parts cut

/-- Cutting changes no text. -/
theorem bytes_cutAllOnto (ps : List Placed) (cut : Cut) :
    (cutAllOnto ps cut).bytes = writeAllOnto ps cut.bytes := by
  cases ps with
  | nil => rfl
  | cons p ps => rw [cutAllOnto, writeAllOnto, bytes_cutOnto, bytes_cutAllOnto]

end

/-- The lines of a layout, with line feeds between them, are its text. -/
theorem intercalate_lines :
    [Ascii.lineFeed].intercalate ((lines ps).map Line.bytes) = writeAll ps := by
  have joined (l : Line) (ls : List Line) :
      [Ascii.lineFeed].intercalate ((l :: ls).map Line.bytes) =
        l.bytes ++ ls.flatMap fun l => Ascii.lineFeed :: l.bytes := by
    induction ls generalizing l with
    | nil => simp
    | cons l' ls ih =>
        rw [List.map_cons, List.map_cons, List.intercalate_cons_cons, ← List.map_cons, ih]
        simp
  have written : (cutAllOnto ps Cut.finish).bytes = writeAll ps := bytes_cutAllOnto ps Cut.finish
  rw [lines, Cut.linesFrom, joined, ← written]
  rfl

end Placed

section Width

variable {width : Int}

/-- Elements in front of others are laid out first. -/
theorem placeAll_append (d d' : List Elem) (room : Room) :
    placeAll width (d ++ d') room =
      ((placeAll width d room).1 ++ (placeAll width d' (placeAll width d room).2).1,
        (placeAll width d' (placeAll width d room).2).2) := by
  induction d generalizing room with
  | nil => rfl
  | cons e es ih => simp only [List.cons_append, placeAll, ih]

/-- The layout stands at a column of a line with a known indentation. -/
structure Room.At (room : Room) (width : Int) (indent column : Nat) : Prop where
  indentEq : room.indent = indent
  restEq : room.rest = width - column

namespace Room

variable {room : Room} {indent column : Nat}

theorem at_fresh (width : Int) : (Room.fresh width).At width 0 0 :=
  ⟨rfl, (Int.sub_zero width).symm⟩

theorem At.spend (here : room.At width indent column) (nonneg : 0 ≤ width)
    (isWord : width ≤ Word.maximum) {n : Nat} (fits : (column : Int) + n ≤ Word.maximum) :
    (room.spend n).At width indent (column + n) where
  indentEq := here.indentEq
  restEq := by
    have inRange : Word.InRange (width - column - n) := by
      simp only [Word.InRange, Word.minimum, Word.maximum] at isWord fits ⊢
      omega
    rw [rest_spend, here.restEq, Word.wrap_of_inRange inRange]
    omega

/-- A line break to an indentation that is a word. -/
theorem indent_breakLine_of_sum {delta next : Int} (sum : room.indent + delta = next)
    (nonneg : 0 ≤ next) (isWord : next ≤ Word.maximum) (width : Int) :
    (room.breakLine width delta).indent = next := by
  rw [indent_breakLine, sum, Word.wrap_of_inRange (Word.inRange_of_nonneg nonneg isWord)]

/-- Behind a line break the column is the indentation. -/
theorem at_breakLine (indentEq : room.indent = indent) (nonneg : 0 ≤ width)
    (isWord : width ≤ Word.maximum) (delta : Int) (next : Nat)
    (sum : (indent : Int) + delta = next) (fits : (next : Int) ≤ Word.maximum) :
    (room.breakLine width delta).At width next next := by
  have inRange : Word.InRange (next : Int) :=
    Word.inRange_of_nonneg (Int.natCast_nonneg next) fits
  have inRange' : Word.InRange (width - next) := by
    simp only [Word.InRange, Word.minimum, Word.maximum] at isWord fits ⊢
    omega
  constructor
  · rw [indent_breakLine, indentEq, sum, Word.wrap_of_inRange inRange]
  · rw [rest_breakLine, indentEq, sum, Word.wrap_of_inRange inRange, Word.wrap_of_inRange inRange']

end Room

end Width

end JsonFit.Layout
