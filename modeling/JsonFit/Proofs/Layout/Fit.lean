import JsonFit.Proofs.Layout.Lines

/-!
# Which groups fit

A layout does not count columns.  It keeps the room that is left on the line, and
every text, every flat group and every line break has its own way to update it.
Here the column is counted from what has been written, and compared with that
room at each group that is decided, which is each one outside of flat groups.

A decision remembers what had been placed before it.  `Spot` counts on from there:
the column is the length of the line so far (`getLast?_lines`).  The invariant is
`Room.Counts`.  The room is the width without the column as long as indentations
are not negative.  A negative one is written as no spaces at all, but it is
subtracted from the width nevertheless, so the line gets room beyond its width:
there groups are placed flat that do not fit.
-/

namespace JsonFit.Layout

/-- A place in a text that is being laid out. -/
structure Spot where
  /-- The number of bytes on the line so far. -/
  column : Nat
  /-- The indentation that the last line break came to.  It may be negative. -/
  indent : Int
  deriving DecidableEq, Repr

namespace Spot

/-- The start of a text. -/
def origin : Spot :=
  ⟨0, 0⟩

/-- How far the indentation lies below zero. -/
def debt (spot : Spot) : Nat :=
  (-spot.indent).toNat

mutual

/-- The place behind a placed element. -/
def after : Spot → Placed → Spot
  | spot, .text s => { spot with column := spot.column + s.length }
  | _, .line indent => ⟨indent.toNat, indent⟩
  | spot, .flat parts => { spot with column := spot.column + (Doc.flat parts).length }
  | spot, .tall parts => afterAll spot parts

/-- The place behind several placed elements. -/
def afterAll : Spot → List Placed → Spot
  | spot, [] => spot
  | spot, p :: ps => afterAll (after spot p) ps

end

variable (spot : Spot)

@[simp]
theorem afterAll_nil : spot.afterAll [] = spot :=
  rfl

@[simp]
theorem afterAll_cons (p : Placed) (ps : List Placed) :
    spot.afterAll (p :: ps) = (spot.after p).afterAll ps :=
  rfl

theorem afterAll_append (ps qs : List Placed) :
    spot.afterAll (ps ++ qs) = (spot.afterAll ps).afterAll qs := by
  induction ps generalizing spot with
  | nil => rfl
  | cons p ps ih => exact ih (spot.after p)

mutual

theorem column_after_le (spot : Spot) (p : Placed) :
    (spot.after p).column ≤ spot.column + (p.writeOnto []).length := by
  cases p with
  | text s => simp [after, Placed.writeOnto]
  | line indent =>
      simp only [after, Placed.writeOnto, List.append_nil, List.length_cons, List.length_replicate]
      omega
  | flat parts => simp [after, Placed.writeOnto, Doc.flat]
  | tall parts => exact column_afterAll_le spot parts

/-- No more bytes are on the line than have been written at all. -/
theorem column_afterAll_le (spot : Spot) (ps : List Placed) :
    (spot.afterAll ps).column ≤ spot.column + (Placed.writeAll ps).length := by
  cases ps with
  | nil => exact Nat.le_add_right _ _
  | cons p ps =>
      have here := column_after_le spot p
      have further := column_afterAll_le (spot.after p) ps
      have written : Placed.writeAll (p :: ps) = p.writeOnto [] ++ Placed.writeAll ps :=
        p.writeOnto_eq (Placed.writeAll ps)
      rw [afterAll_cons, written, List.length_append]
      omega

end

end Spot

/-! ## The line so far -/

namespace Cut

/-- The length of the last line, if the first one goes on from a column. -/
def endColumn (column : Nat) (cut : Cut) : Nat :=
  match cut.lines.getLast? with
  | none => column + (cut.pieces.flatMap Piece.bytes).length
  | some l => l.length

variable (column : Nat) (cut : Cut)

theorem endColumn_add (piece : Piece) :
    (cut.add piece).endColumn column = cut.endColumn (column + piece.bytes.length) := by
  simp only [endColumn, lines_add, pieces_add, List.flatMap_cons, List.length_append,
    Nat.add_assoc]

theorem getLast?_linesFrom (indent : Nat) :
    ((cut.linesFrom indent []).getLast?).map Line.length = some (cut.endColumn indent) := by
  rw [linesFrom, List.getLast?_cons, endColumn]
  cases cut.lines.getLast? with
  | none => simp [Line.length_mk]
  | some l => rfl

theorem endColumn_breakLine (indent : Nat) :
    (cut.breakLine indent).endColumn column = cut.endColumn indent := by
  have last := cut.getLast?_linesFrom indent
  rw [endColumn, breakLine]
  cases found : (cut.linesFrom indent []).getLast? with
  | none => simp [found] at last
  | some l => simpa [found] using last

end Cut

namespace Placed

mutual

theorem endColumn_cutOnto (p : Placed) (cut : Cut) (spot : Spot) :
    (p.cutOnto cut).endColumn spot.column = cut.endColumn (spot.after p).column := by
  cases p with
  | text s => exact cut.endColumn_add _ _
  | line indent => exact cut.endColumn_breakLine _ _
  | flat parts => exact cut.endColumn_add _ _
  | tall parts => exact endColumn_cutAllOnto parts cut spot

/-- Lines that are cut from the right end where counting from the left comes to. -/
theorem endColumn_cutAllOnto (ps : List Placed) (cut : Cut) (spot : Spot) :
    (cutAllOnto ps cut).endColumn spot.column = cut.endColumn (spot.afterAll ps).column := by
  cases ps with
  | nil => rfl
  | cons p ps =>
      rw [cutAllOnto, endColumn_cutOnto, endColumn_cutAllOnto, Spot.afterAll_cons]

end

/-- The column is the length of the last line. -/
theorem getLast?_lines (ps : List Placed) :
    ((lines ps).getLast?).map Line.length = some (Spot.origin.afterAll ps).column := by
  have counted := endColumn_cutAllOnto ps Cut.finish Spot.origin
  rw [lines, Cut.getLast?_linesFrom]
  exact congrArg some counted

theorem writeAll_append (ps qs : List Placed) :
    writeAll (ps ++ qs) = writeAll ps ++ writeAll qs := by
  induction ps with
  | nil => rfl
  | cons p ps ih =>
      have whole : writeAll (p :: (ps ++ qs)) = p.writeOnto [] ++ writeAll (ps ++ qs) :=
        p.writeOnto_eq _
      have part : writeAll (p :: ps) = p.writeOnto [] ++ writeAll ps := p.writeOnto_eq _
      rw [List.cons_append, whole, part, ih, List.append_assoc]

end Placed

/-! ## Decisions -/

/-- What became of a group. -/
structure Decision where
  /-- What had been placed before. -/
  before : List Placed
  /-- The elements of the group. -/
  parts : List Elem
  /-- Was the group placed on one line? -/
  isFlat : Bool
  deriving Repr

namespace Decision

/-- The place where the group begins. -/
def spot (g : Decision) : Spot :=
  Spot.origin.afterAll g.before

/-- The number of bytes on the line where the group begins. -/
def column (g : Decision) : Nat :=
  g.spot.column

/-- The width of the flat form. -/
def flatWidth (g : Decision) : Nat :=
  Doc.flatWidth g.parts

end Decision

mutual

/-- The decisions about an element and the groups in it, read off from how the
element has been placed. -/
def Elem.decisions : Elem → Placed → (before : List Placed) → List Decision
  | .group parts, .flat _, before => [⟨before, parts, true⟩]
  | .group parts, .tall placed, before =>
      ⟨before, parts, false⟩ :: Doc.decisions parts placed before
  | _, _, _ => []

/-- The decisions about several elements and the groups in them. -/
def Doc.decisions : List Elem → List Placed → (before : List Placed) → List Decision
  | e :: es, p :: ps, before => e.decisions p before ++ Doc.decisions es ps (before ++ [p])
  | _, _, _ => []

end

/-- The decisions about the groups that a layout reaches outside of flat groups. -/
def decisions (width : Int) (d : Doc) : List Decision :=
  Doc.decisions d (layout width d) []

/-- A decision is made behind a first part of the text. -/
theorem Doc.before_of_mem_decisions (d : List Elem) :
    ∀ (placed before : List Placed), ∀ g ∈ Doc.decisions d placed before,
      Placed.writeAll g.before <+: Placed.writeAll (before ++ placed) := by
  -- What holds of the decisions about the first element holds of all, because the
  -- first placed element is a part of what stands before the others.
  have cons {e : Elem} {es : List Elem}
      (first : ∀ (p : Placed) (before : List Placed), ∀ g ∈ e.decisions p before,
        Placed.writeAll g.before <+: Placed.writeAll (before ++ [p]))
      (others : ∀ (placed before : List Placed), ∀ g ∈ Doc.decisions es placed before,
        Placed.writeAll g.before <+: Placed.writeAll (before ++ placed))
      (placed before : List Placed) : ∀ g ∈ Doc.decisions (e :: es) placed before,
        Placed.writeAll g.before <+: Placed.writeAll (before ++ placed) := by
    intro g found
    cases placed with
    | nil => simp [Doc.decisions] at found
    | cons p ps =>
        rw [List.append_cons]
        rcases List.mem_append.mp found with here | further
        · rw [Placed.writeAll_append]
          exact (first p before g here).trans (List.prefix_append _ _)
        · exact others ps (before ++ [p]) g further
  induction d using Doc.induction with
  | nil => simp [Doc.decisions]
  | literal s es ih => exact cons (by simp [Elem.decisions]) ih
  | text s es ih => exact cons (by simp [Elem.decisions]) ih
  | newline delta es ih => exact cons (by simp [Elem.decisions]) ih
  | group parts es inner ih =>
      refine cons ?_ ih
      intro p before g found
      have start : Placed.writeAll before <+: Placed.writeAll (before ++ [p]) := by
        rw [Placed.writeAll_append]
        exact List.prefix_append _ _
      cases p with
      | text s => simp [Elem.decisions] at found
      | line indent => simp [Elem.decisions] at found
      | flat flattened =>
          obtain rfl := List.mem_singleton.mp found
          exact start
      | tall placed =>
          rcases List.mem_cons.mp found with rfl | deeper
          · exact start
          · have spliced : Placed.writeAll (before ++ [.tall placed]) =
                Placed.writeAll (before ++ placed) := by
              simp [Placed.writeAll_append]
            rw [spliced]
            exact inner placed before g deeper

/-- The room of a layout counts the line that is written, except that it takes a
negative indentation for room won. -/
structure Room.Counts (room : Room) (width : Int) (spot : Spot) : Prop where
  indentEq : room.indent = spot.indent
  isWord : Word.InRange spot.indent
  restEq : room.rest = Word.wrap (width + spot.debt - spot.column)

namespace Room

variable {room : Room} {width : Int} {spot : Spot}

theorem counts_fresh (isWord : Word.InRange width) :
    (Room.fresh width).Counts width Spot.origin where
  indentEq := rfl
  isWord := by decide
  restEq := by simp [fresh, Spot.origin, Spot.debt, Word.wrap_of_inRange isWord]

theorem Counts.spend (counts : room.Counts width spot) (n : Nat) :
    (room.spend n).Counts width { spot with column := spot.column + n } where
  indentEq := counts.indentEq
  isWord := counts.isWord
  restEq := by
    rw [rest_spend, counts.restEq, Int.sub_eq_add_neg, Word.wrap_wrap_add]
    congr 1
    simp only [Spot.debt]
    omega

/-- Behind a line break it does not matter what has been counted before. -/
theorem counts_breakLine (room : Room) (width delta : Int) :
    (room.breakLine width delta).Counts width
      ⟨(room.breakLine width delta).indent.toNat, (room.breakLine width delta).indent⟩ where
  indentEq := rfl
  isWord := Word.inRange_wrap _
  restEq := by
    rw [rest_breakLine, indent_breakLine]
    congr 1
    simp only [Spot.debt]
    omega

/-- A layout of several elements goes on counting. -/
theorem Counts.placeAll (counts : room.Counts width spot) (d : List Elem) :
    (placeAll width d room).2.Counts width (spot.afterAll (Layout.placeAll width d room).1) := by
  induction d using Doc.induction generalizing room spot with
  | nil => exact counts
  | literal s es ih => exact ih (counts.spend s.length)
  | text s es ih => exact ih (counts.spend s.length)
  | newline delta es ih => exact ih (counts_breakLine room width delta)
  | group parts es inner ih =>
      by_cases fits : (Doc.flatWidth parts : Int) ≤ room.rest
      · rw [placeAll_group_of_le fits, Spot.afterAll_cons]
        apply ih
        rw [Spot.after, Doc.length_flat]
        exact counts.spend _
      · rw [placeAll_group_of_lt (Int.not_le.mp fits), Spot.afterAll_cons]
        exact ih (inner counts)

end Room

/-- A decision is made by comparing with a room that counts the line. -/
def Decision.Counted (width : Int) (g : Decision) : Prop :=
  ∃ room : Room, room.Counts width g.spot ∧ (g.isFlat = true ↔ (g.flatWidth : Int) ≤ room.rest)

section Width

variable {width : Int}

theorem Doc.counted_cons {e : Elem} {es : List Elem} {room : Room} {before : List Placed}
    (counts : room.Counts width (Spot.origin.afterAll before))
    (first : ∀ g ∈ e.decisions (place width e room).1 before, g.Counted width)
    (others : ∀ {next : Room} {between : List Placed},
      next.Counts width (Spot.origin.afterAll between) →
      ∀ g ∈ Doc.decisions es (placeAll width es next).1 between, g.Counted width) :
    ∀ g ∈ Doc.decisions (e :: es) (placeAll width (e :: es) room).1 before, g.Counted width := by
  intro g found
  rcases List.mem_append.mp found with here | further
  · exact first g here
  · refine others ?_ g further
    rw [Spot.afterAll_append]
    exact counts.placeAll [e]

/-- Every group is decided in a room that counts the line. -/
theorem Doc.counted_of_mem_decisions (d : List Elem) {room : Room} {before : List Placed}
    (counts : room.Counts width (Spot.origin.afterAll before)) :
    ∀ g ∈ Doc.decisions d (placeAll width d room).1 before, g.Counted width := by
  induction d using Doc.induction generalizing room before with
  | nil => simp [Doc.decisions]
  | literal s es ih => exact Doc.counted_cons counts (by simp [Elem.decisions]) ih
  | text s es ih => exact Doc.counted_cons counts (by simp [Elem.decisions]) ih
  | newline delta es ih => exact Doc.counted_cons counts (by simp [Elem.decisions]) ih
  | group parts es inner ih =>
      apply Doc.counted_cons counts _ ih
      intro g found
      by_cases fits : (Doc.flatWidth parts : Int) ≤ room.rest
      · rw [place, if_pos fits] at found
        obtain rfl := List.mem_singleton.mp found
        exact ⟨room, counts, iff_of_true rfl fits⟩
      · rw [place, if_neg fits] at found
        rcases List.mem_cons.mp found with rfl | deeper
        · exact ⟨room, counts, iff_of_false Bool.false_ne_true fits⟩
        · exact inner counts g deeper

/-- For lines and widths in memory, the room decides as a comparison of columns.
Where it overflows it is negative, and then no group is flat. -/
theorem Decision.Counted.isFlat_iff {g : Decision} (counted : g.Counted width) (nonneg : 0 ≤ width)
    (isWord : width ≤ Word.maximum) (inMemory : (g.column : Int) ≤ Word.maximum) :
    g.isFlat = true ↔
      (g.column : Int) + g.flatWidth ≤ width + g.spot.debt ∧
        width + g.spot.debt ≤ g.column + Word.maximum := by
  obtain ⟨room, ⟨_, ⟨low, _⟩, restEq⟩, decided⟩ := counted
  have column : g.spot.column = g.column := rfl
  have debtLe : (g.spot.debt : Int) ≤ Word.maximum + 1 := by
    simp only [Spot.debt, Word.minimum, Word.maximum] at low ⊢
    omega
  rw [decided, restEq, column]
  by_cases fits : width + g.spot.debt - g.column ≤ Word.maximum
  · have inRange : Word.InRange (width + g.spot.debt - g.column) := by
      simp only [Word.InRange, Word.minimum, Word.maximum] at inMemory fits ⊢
      omega
    rw [Word.wrap_of_inRange inRange]
    omega
  · have near : width + g.spot.debt - g.column ≤ Word.maximum + Word.modulus := by
      simp only [Word.maximum, Word.modulus] at *
      omega
    rw [Word.wrap_of_maximum_lt (Int.not_le.mp fits) near]
    simp only [Word.maximum, Word.modulus] at *
    omega

/-- The rule by which groups are placed, for every text in memory.  A decision is
made behind a first part of the text, and its column is the length of the line that
this part ends in.  The group is flat exactly if its flat form ends at most as far
right of the width as the indentation lies left of zero, and if the room that this
comes to is still a word.  So as long as the indentation is not negative, a group is
flat exactly if its flat form fits on the line. -/
theorem decisions_isFlat_iff (nonneg : 0 ≤ width) (isWord : width ≤ Word.maximum) (d : Doc)
    (inMemory : ((render width d).length : Int) ≤ Word.maximum) :
    render? width d = .ok (render width d) ∧
      ∀ g ∈ decisions width d,
        Placed.writeAll g.before <+: render width d ∧
        ((Placed.lines g.before).getLast?).map Line.length = some g.column ∧
        (g.isFlat = true ↔
          (g.column : Int) + g.flatWidth ≤ width + g.spot.debt ∧
            width + g.spot.debt ≤ g.column + Word.maximum) ∧
        (0 ≤ g.spot.indent → (g.isFlat = true ↔ (g.column : Int) + g.flatWidth ≤ width)) := by
  constructor
  · exact if_neg (Int.not_lt.mpr nonneg)
  intro g found
  have prefixed : Placed.writeAll g.before <+: render width d :=
    Doc.before_of_mem_decisions d (layout width d) [] g found
  have columnLe : (g.column : Int) ≤ Word.maximum := by
    have counted : g.column ≤ 0 + (Placed.writeAll g.before).length :=
      Spot.column_afterAll_le Spot.origin g.before
    have shorter := prefixed.length_le
    omega
  have isWidth : Word.InRange width := by
    simp only [Word.InRange, Word.minimum, Word.maximum] at isWord ⊢
    omega
  have counted : g.Counted width :=
    Doc.counted_of_mem_decisions d (Room.counts_fresh isWidth) g found
  have rule := counted.isFlat_iff nonneg isWord columnLe
  constructor
  · exact prefixed
  constructor
  · exact Placed.getLast?_lines g.before
  constructor
  · exact rule
  · intro indented
    have free : g.spot.debt = 0 := by
      simp only [Spot.debt]
      omega
    rw [rule, free]
    omega

end Width

/-- On a line with indentation -1 and width 2, a flat form of three bytes is placed:
it ends one byte right of the width. -/
theorem decisions_isFlat_iff_negative :
    let d : Doc := [.newline (-1), .group [.literal [97], .newline 0, .literal [98]]]
    (0 : Int) ≤ 2 ∧ (2 : Int) ≤ Word.maximum ∧ ((render 2 d).length : Int) ≤ Word.maximum ∧
      ∃ g ∈ decisions 2 d, g.isFlat = true ∧ g.column = 0 ∧ g.flatWidth = 3 ∧
        (g.column : Int) + g.flatWidth ≤ 2 + g.spot.debt := by
  intro d
  have nonneg : (0 : Int) ≤ 2 := by decide
  have isWord : (2 : Int) ≤ Word.maximum := by decide
  have inMemory : ((render 2 d).length : Int) ≤ Word.maximum := by decide
  have only : ⟨[.line (-1)], [.literal [97], .newline 0, .literal [98]], true⟩ ∈ decisions 2 d :=
    List.mem_singleton.mpr rfl
  have rule := (decisions_isFlat_iff nonneg isWord d inMemory).2 _ only
  exact ⟨nonneg, isWord, inMemory, _, only, rfl, rfl, rfl, (rule.2.2.1.mp rfl).1⟩

/-- The documented rule, that a group is placed flat if its flat form fits on the
line, fails on a line with a negative indentation. -/
theorem not_isFlat_iff_fits :
    let d : Doc := [.newline (-1), .group [.literal [97], .newline 0, .literal [98]]]
    render 2 d = Bytes.ofString "\na b" ∧
      ¬ ∀ g ∈ decisions 2 d, (g.isFlat = true ↔ (g.column : Int) + g.flatWidth ≤ 2) := by
  intro d
  constructor
  · rfl
  · intro fits
    have only : ⟨[.line (-1)], [.literal [97], .newline 0, .literal [98]], true⟩ ∈ decisions 2 d :=
      List.mem_singleton.mpr rfl
    exact absurd ((fits _ only).mp rfl) (by decide)

end JsonFit.Layout
