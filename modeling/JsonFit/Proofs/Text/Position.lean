import JsonFit.Text.Position
import Mathlib.Algebra.Ring.Nat
import Mathlib.Data.List.TakeWhile

/-!
# Positions and offsets

The pieces of a text between its line feeds are its lines.  There is one more of them
than there are line feeds, so a text always has a line, and behind a line feed at its
end there is an empty one.

The position of an offset lies in the text: there is a line of this number, and the
column is at most its length.  Every position in the text belongs to one offset, that
of the start of its line and its columns together, so positions and offsets are in the
same order.  A line feed itself is the last column of the line that it ends.
-/

namespace JsonFit.Text

/-- The lines of a text: its pieces between line feeds. -/
def lines (text : Bytes) : List Bytes :=
  text.splitOn Ascii.lineFeed

variable {line text : Bytes}

theorem lines_of_notMem (noFeed : Ascii.lineFeed ∉ text) : lines text = [text] :=
  List.splitOn_eq_singleton noFeed

theorem lines_append (noFeed : Ascii.lineFeed ∉ line) (text : Bytes) :
    lines (line ++ Ascii.lineFeed :: text) = line :: lines text := by
  apply List.splitOnP_append_cons_of_forall_mem
  · intro b inLine
    exact beq_eq_false_iff_ne.mpr fun same => noFeed (same ▸ inLine)
  · exact beq_self_eq_true _

/-- Induction over the lines of a text. -/
@[elab_as_elim]
theorem lines_induction {motive : Bytes → Prop}
    (last : ∀ text, Ascii.lineFeed ∉ text → motive text)
    (line : ∀ line text, Ascii.lineFeed ∉ line → motive text →
      motive (line ++ Ascii.lineFeed :: text)) (text : Bytes) : motive text := by
  induction size : text.length using Nat.strongRecOn generalizing text with
  | ind size ih =>
      by_cases feed : Ascii.lineFeed ∈ text
      · obtain ⟨before, behind, rfl, noFeed⟩ := List.eq_append_cons_of_mem feed
        apply line before behind noFeed
        apply ih behind.length _ behind rfl
        rw [← size]
        simp only [List.length_append, List.length_cons]
        omega
      · exact last text feed

namespace Position

/-- The offset of the line behind the first `n` lines. -/
def lineStart (lines : List Bytes) (n : Nat) : Nat :=
  ((lines.take n).map fun line => line.length + 1).sum

/-- The offset that a position stands for. -/
def toOffset (lines : List Bytes) (p : Position) : Nat :=
  lineStart lines (p.line - 1) + p.column

/-- There is a line of this number, and the column is in it or at its end. -/
structure IsIn (lines : List Bytes) (p : Position) : Prop where
  line_pos : 1 ≤ p.line
  line_le : p.line ≤ lines.length
  column_le : ∀ line, lines[p.line - 1]? = some line → p.column ≤ line.length

/-- The position is on an earlier line, or on the same line in an earlier column. -/
def Before (p q : Position) : Prop :=
  p.line < q.line ∨ p.line = q.line ∧ p.column < q.column

/-- The same column on the line behind. -/
def nextLine (p : Position) : Position :=
  ⟨p.line + 1, p.column⟩

variable {lines : List Bytes} {p q : Position}

theorem isIn_first {column : Nat} (inside : column ≤ line.length) (lines : List Bytes) :
    IsIn (line :: lines) ⟨1, column⟩ where
  line_pos := Nat.le_refl 1
  line_le := by simp
  column_le := by simpa using inside

theorem toOffset_first (lines : List Bytes) (column : Nat) :
    toOffset lines ⟨1, column⟩ = column := by
  simp [toOffset, lineStart]

theorem IsIn.nextLine (isIn : IsIn lines p) (line : Bytes) : IsIn (line :: lines) p.nextLine where
  line_pos := Nat.le_add_left 1 p.line
  line_le := by simpa [Position.nextLine] using isIn.line_le
  column_le := by
    obtain ⟨n, lineEq⟩ := Nat.exists_eq_add_of_le' isIn.line_pos
    have columnLe := isIn.column_le
    simpa [Position.nextLine, lineEq] using columnLe

theorem toOffset_nextLine (line_pos : 1 ≤ p.line) (line : Bytes) (lines : List Bytes) :
    toOffset (line :: lines) p.nextLine = line.length + 1 + toOffset lines p := by
  obtain ⟨n, lineEq⟩ := Nat.exists_eq_add_of_le' line_pos
  simp only [toOffset, lineStart, nextLine, lineEq, Nat.add_sub_cancel, List.take_succ_cons,
    List.map_cons, List.sum_cons]
  omega

/-! ## Order -/

theorem lineStart_le {m n : Nat} (le : m ≤ n) (lines : List Bytes) :
    lineStart lines m ≤ lineStart lines n := by
  obtain ⟨k, rfl⟩ := Nat.exists_eq_add_of_le le
  rw [lineStart, lineStart, List.take_add, List.map_append, List.sum_append]
  exact Nat.le_add_right _ _

theorem lineStart_succ {n : Nat} (found : lines[n]? = some line) :
    lineStart lines (n + 1) = lineStart lines n + line.length + 1 := by
  simp [lineStart, List.take_add_one, found, Nat.add_assoc]

/-- A position is in front of every later line. -/
theorem IsIn.toOffset_lt (isIn : IsIn lines p) {n : Nat} (later : p.line ≤ n) :
    toOffset lines p < lineStart lines n := by
  obtain ⟨k, lineEq⟩ := Nat.exists_eq_add_of_le' isIn.line_pos
  have inside : k < lines.length := by
    have := isIn.line_le
    omega
  have found : lines[k]? = some lines[k] := List.getElem?_eq_getElem inside
  have columnLe : p.column ≤ lines[k].length := isIn.column_le _ (by rw [lineEq]; exact found)
  have start : lineStart lines (k + 1) ≤ lineStart lines n := lineStart_le (by omega) lines
  rw [lineStart_succ found] at start
  rw [toOffset, lineEq, Nat.add_sub_cancel]
  omega

/-- Earlier positions stand for smaller offsets. -/
theorem toOffset_lt_of_before (isIn : IsIn lines p) (before : p.Before q) :
    toOffset lines p < toOffset lines q := by
  rcases before with earlier | ⟨sameLine, less⟩
  · have := isIn.toOffset_lt (Nat.le_sub_one_of_lt earlier)
    exact Nat.lt_of_lt_of_le this (Nat.le_add_right _ _)
  · rw [toOffset, toOffset, sameLine]
    exact Nat.add_lt_add_left less _

theorem before_or_eq_or_before (p q : Position) : p.Before q ∨ p = q ∨ q.Before p := by
  obtain ⟨line, column⟩ := p
  obtain ⟨line', column'⟩ := q
  simp only [Before, Position.mk.injEq]
  omega

theorem before_iff_toOffset_lt (isIn : IsIn lines p) (isIn' : IsIn lines q) :
    p.Before q ↔ toOffset lines p < toOffset lines q := by
  refine ⟨toOffset_lt_of_before isIn, fun less => ?_⟩
  rcases before_or_eq_or_before p q with before | rfl | behind
  · exact before
  · exact absurd less (Nat.lt_irrefl _)
  · exact absurd less (Nat.lt_asymm (toOffset_lt_of_before isIn' behind))

theorem toOffset_inj (isIn : IsIn lines p) (isIn' : IsIn lines q)
    (same : toOffset lines p = toOffset lines q) : p = q := by
  rcases before_or_eq_or_before p q with before | samePlace | behind
  · exact absurd same (Nat.ne_of_lt (toOffset_lt_of_before isIn before))
  · exact samePlace
  · exact absurd same.symm (Nat.ne_of_lt (toOffset_lt_of_before isIn' behind))

/-! ## Positions of offsets -/

theorem after_of_notMem {head : Bytes} (noFeed : Ascii.lineFeed ∉ head) :
    after head = ⟨1, head.length⟩ := by
  have all : ∀ b ∈ head.reverse, (b != Ascii.lineFeed) = true := by
    intro b inside
    exact bne_iff_ne.mpr fun same => noFeed (same ▸ List.mem_reverse.mp inside)
  rw [after, List.count_eq_zero_of_not_mem noFeed, List.takeWhile_eq_self_iff.mpr all,
    List.length_reverse]

/-- Behind a line, columns are counted anew. -/
theorem after_append (noFeed : Ascii.lineFeed ∉ line) (head : Bytes) :
    after (line ++ Ascii.lineFeed :: head) = (after head).nextLine := by
  have feed : (line ++ Ascii.lineFeed :: head).reverse =
      head.reverse ++ Ascii.lineFeed :: line.reverse := by simp
  have stops : (Ascii.lineFeed :: line.reverse).takeWhile (· != Ascii.lineFeed) = [] := by simp
  have columns : (line ++ Ascii.lineFeed :: head).reverse.takeWhile (· != Ascii.lineFeed) =
      head.reverse.takeWhile (· != Ascii.lineFeed) := by
    rw [feed, List.takeWhile_append, stops, List.append_nil]
    split
    · rename_i whole
      exact (List.takeWhile_prefix _).eq_of_length whole |>.symm
    · rfl
  rw [after, columns, List.count_append, List.count_eq_zero_of_not_mem noFeed,
    List.count_cons_self, Nat.zero_add]
  rfl

theorem ofOffset_natCast (text : Bytes) (n : Nat) : ofOffset text n = after (text.take n) := by
  rw [ofOffset, Int.toNat_natCast]

/-- On the first line, the offset is the column. -/
theorem ofOffset_of_le {n : Nat} (noFeed : Ascii.lineFeed ∉ line) (inside : n ≤ line.length)
    (rest : Bytes) : ofOffset (line ++ rest) n = ⟨1, n⟩ := by
  have noFeed' : Ascii.lineFeed ∉ line.take n := fun there => noFeed (List.mem_of_mem_take there)
  rw [ofOffset_natCast, List.take_append_of_le_length inside, after_of_notMem noFeed',
    List.length_take, Nat.min_eq_left inside]

theorem ofOffset_append (noFeed : Ascii.lineFeed ∉ line) (text : Bytes) (n : Nat) :
    ofOffset (line ++ Ascii.lineFeed :: text) ((line.length + 1 + n : Nat) : Int) =
      (ofOffset text n).nextLine := by
  have head : (line ++ Ascii.lineFeed :: text).take (line.length + 1 + n) =
      line ++ Ascii.lineFeed :: text.take n := by
    rw [Nat.add_assoc, List.take_length_add_append, Nat.add_comm 1 n, List.take_succ_cons]
  rw [ofOffset_natCast, ofOffset_natCast, head, after_append noFeed]

/-- The position of an offset lies in the text and stands for that offset. -/
theorem isIn_ofOffset {n : Nat} (inside : n ≤ text.length) :
    IsIn (Text.lines text) (ofOffset text n) ∧
      toOffset (Text.lines text) (ofOffset text n) = n := by
  induction text using lines_induction generalizing n with
  | last text noFeed =>
      have here := ofOffset_of_le noFeed inside []
      rw [List.append_nil] at here
      rw [here, lines_of_notMem noFeed]
      exact ⟨isIn_first inside [], toOffset_first _ n⟩
  | line line text noFeed ih =>
      rw [lines_append noFeed]
      by_cases onFirst : n ≤ line.length
      · rw [ofOffset_of_le noFeed onFirst]
        exact ⟨isIn_first onFirst _, toOffset_first _ n⟩
      · obtain ⟨k, rfl⟩ := Nat.exists_eq_add_of_le (Nat.lt_of_not_le onFirst)
        rw [List.length_append, List.length_cons] at inside
        obtain ⟨isIn, offsetEq⟩ := ih (n := k) (by omega)
        rw [ofOffset_append noFeed, toOffset_nextLine isIn.line_pos, offsetEq]
        exact ⟨isIn.nextLine line, rfl⟩

theorem lineStart_length (text : Bytes) :
    lineStart (Text.lines text) (Text.lines text).length = text.length + 1 := by
  simp only [lineStart, List.take_length]
  induction text using lines_induction with
  | last text noFeed => simp [lines_of_notMem noFeed]
  | line line text noFeed ih =>
      simp only [lines_append noFeed, List.map_cons, List.sum_cons, ih, List.length_append,
        List.length_cons]
      omega

/-- A position in the text is the position of the offset that it stands for. -/
theorem ofOffset_toOffset (isIn : IsIn (Text.lines text) p) :
    toOffset (Text.lines text) p ≤ text.length ∧
      ofOffset text (toOffset (Text.lines text) p) = p := by
  have inside : toOffset (Text.lines text) p ≤ text.length := by
    have less := isIn.toOffset_lt isIn.line_le
    rw [lineStart_length] at less
    exact Nat.le_of_lt_succ less
  obtain ⟨isIn', offsetEq⟩ := isIn_ofOffset inside
  exact ⟨inside, toOffset_inj isIn' isIn offsetEq⟩

/-- Offsets in a text and positions in it stand for each other.  The position of an
offset has the number of a line of the text and a column of this line, and the offset
is the length of the lines before, with their line feeds, and the column.  Every such
position is that of exactly this offset.  A larger offset has a later position.  Offsets
outside the text have the position of the nearer end. -/
theorem ofOffset_corresponds (text : Bytes) :
    (∀ offset : Int, 0 ≤ offset → offset ≤ text.length →
      IsIn (Text.lines text) (ofOffset text offset) ∧
        offset = toOffset (Text.lines text) (ofOffset text offset)) ∧
    (∀ p, IsIn (Text.lines text) p →
      toOffset (Text.lines text) p ≤ text.length ∧
        ∀ offset : Int, 0 ≤ offset → offset ≤ text.length →
          (ofOffset text offset = p ↔ offset = toOffset (Text.lines text) p)) ∧
    (∀ offset offset' : Int, 0 ≤ offset → offset < offset' → offset' ≤ text.length →
      (ofOffset text offset).Before (ofOffset text offset')) ∧
    ∀ offset : Int, (offset < 0 → ofOffset text offset = ofOffset text 0) ∧
      (text.length < offset → ofOffset text offset = ofOffset text text.length) := by
  have inText (offset : Int) (nonneg : 0 ≤ offset) (inside : offset ≤ text.length) :
      IsIn (Text.lines text) (ofOffset text offset) ∧
        offset = toOffset (Text.lines text) (ofOffset text offset) := by
    obtain ⟨n, rfl⟩ := Int.eq_ofNat_of_zero_le nonneg
    obtain ⟨isIn, offsetEq⟩ := isIn_ofOffset (Int.ofNat_le.mp inside)
    exact ⟨isIn, congrArg Int.ofNat offsetEq.symm⟩
  refine ⟨inText, ?_, ?_, ?_⟩
  · intro p isIn
    obtain ⟨inside, back⟩ := ofOffset_toOffset isIn
    refine ⟨inside, fun offset nonneg le => ⟨?_, ?_⟩⟩
    · rintro rfl
      exact (inText offset nonneg le).2
    · rintro rfl
      exact back
  · intro offset offset' nonneg less inside
    obtain ⟨isIn, offsetEq⟩ := inText offset nonneg (by omega)
    obtain ⟨isIn', offsetEq'⟩ := inText offset' (by omega) inside
    rw [before_iff_toOffset_lt isIn isIn']
    omega
  · intro offset
    exact ⟨ofOffset_of_neg text, fun beyond => ofOffset_of_length_le text (Int.le_of_lt beyond)⟩

/-- A text with an empty line and a line feed at its end: the line feed of the first
line, the empty line behind it, and the empty line behind the last line feed. -/
theorem ofOffset_corresponds_emptyLine :
    let text := Bytes.ofString "ab\n\nc\n"
    IsIn (Text.lines text) (ofOffset text 2) ∧ ofOffset text 2 = ⟨1, 2⟩ ∧
      (ofOffset text 2).Before (ofOffset text 3) ∧
      IsIn (Text.lines text) ⟨4, 0⟩ ∧ ofOffset text 6 = ⟨4, 0⟩ ∧
      ofOffset text (-1) = ofOffset text 0 ∧ ofOffset text 7 = ofOffset text 6 := by
  intro text
  obtain ⟨inText, unique, ordered, outside⟩ := ofOffset_corresponds text
  have empty : IsIn (Text.lines text) ⟨4, 0⟩ := ⟨by decide, by decide, by simp⟩
  exact ⟨(inText 2 (by decide) (by decide)).1, rfl, ordered 2 3 (by decide) (by decide) (by decide),
    empty, ((unique _ empty).2 6 (by decide) (by decide)).mpr (by decide),
    (outside (-1)).1 (by decide), (outside 7).2 (by decide)⟩

end Position

end JsonFit.Text
