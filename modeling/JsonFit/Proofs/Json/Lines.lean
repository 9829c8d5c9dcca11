import JsonFit.Proofs.Json.Widening
import JsonFit.Proofs.Layout.Lines

/-!
# Lines of fitted values

A line of a fitted value holds one item: a container on one line, a text that is
never broken, or a bracket.  In front of the item there may be a key, and behind it
a comma.  A container is put on one line only if it fits there, but its comma is not
counted.  So a line is too long by this one byte, or because its item cannot be
broken.

The induction is on the value.  What stands behind a value on its line is known
then: nothing or a comma, and the lines further on are of the three kinds already.
Room is counted in words, so the width and the length of the flat form must be
words.
-/

namespace JsonFit.Json

open Layout (Cut Doc Elem Line Piece Placed Room)
open Value (stringText)

variable {α : Type}

/-- The texts that are never broken: those of scalars and of empty containers, and
single brackets. -/
inductive IsAtom : Bytes → Prop where
  /-- A string. -/
  | string (raw : Bytes) : IsAtom (stringText raw)
  /-- A number. -/
  | number (x : Binary64) : IsAtom (Decimal.write x)
  /-- A truth value. -/
  | bool (b : Bool) : IsAtom (Value.boolText b)
  /-- The null constant. -/
  | null : IsAtom Value.nullText
  /-- An object without members. -/
  | emptyObject : IsAtom [Ascii.openBrace, Ascii.closeBrace]
  /-- An array without elements. -/
  | emptyArray : IsAtom [Ascii.openBracket, Ascii.closeBracket]
  /-- A bracket. -/
  | bracket {b : UInt8} (isBracket : b = Ascii.openBrace ∨ b = Ascii.closeBrace ∨
      b = Ascii.openBracket ∨ b = Ascii.closeBracket) : IsAtom [b]

/-- What stands in front of an item: a key and a colon, or nothing. -/
def keyPieces : Option Bytes → List Piece
  | none => []
  | some key => [.text (stringText key), .text [Ascii.colon, Ascii.space]]

/-- What stands behind an item: a comma, or nothing. -/
def commaPieces : Bool → List Piece
  | false => []
  | true => [.text [Ascii.comma]]

/-- The kinds of lines of a value fitted to a width. -/
inductive LineKind (width : Int) (l : Line) : Prop where
  /-- The line fits. -/
  | fitting (fits : (l.length : Int) ≤ width)
  /-- The line ends in a container that fits and in a comma that does not. -/
  | overhanging {key : Option Bytes} {v : Value} {parts : List Elem}
      (container : v.elem = .group parts)
      (piecesEq : l.pieces = keyPieces key ++ [.flat parts, .text [Ascii.comma]])
      (lengthEq : (l.length : Int) = width + 1)
  /-- No container is on the line, only a text that is never broken. -/
  | unbroken {key : Option Bytes} {atom : Bytes} {comma : Bool} (isAtom : IsAtom atom)
      (piecesEq : l.pieces = keyPieces key ++ .text atom :: commaPieces comma)

/-! ## Laying out parts of a value -/

section Width

variable {width : Int}

/-- Behind a value: a comma or nothing, a line break, and lines of the three
kinds. -/
structure Follows (width : Int) (comma : Bool) (cut : Cut) : Prop where
  piecesEq : cut.pieces = commaPieces comma
  kinds : ∀ l ∈ cut.lines, LineKind width l

/-- Laid out behind an indentation and other pieces, the elements keep the
indentation and come to stand on lines of the three kinds. -/
def Settles (width : Int) (indent : Nat) (before : List Piece) (es : List Elem) : Prop :=
  ∀ ⦃room : Room⦄, room.At width indent (indent + (before.flatMap Piece.bytes).length) →
    (Layout.placeAll width es room).2.indent = indent ∧
      ∀ ⦃comma cut⦄, Follows width comma cut →
        ∀ l ∈ (Placed.cutAllOnto (Layout.placeAll width es room).1 cut).linesFrom indent before,
          LineKind width l

section Follows

variable {indent : Nat} {key : Option Bytes} {comma : Bool} {cut : Cut}

/-- A text that is never broken may stand in front of all that follows. -/
theorem Follows.forall_atom (follows : Follows width comma cut) {atom : Bytes}
    (isAtom : IsAtom atom) :
    ∀ l ∈ (cut.add (.text atom)).linesFrom indent (keyPieces key), LineKind width l := by
  refine List.forall_mem_cons.mpr ⟨?_, follows.kinds⟩
  exact .unbroken isAtom (by rw [Cut.pieces_add, follows.piecesEq])

/-- A container that fits may stand in front of all that follows. -/
theorem Follows.forall_flat (follows : Follows width comma cut) {v : Value} {parts : List Elem}
    (container : v.elem = .group parts)
    (fits : ((indent + ((keyPieces key).flatMap Piece.bytes).length : Nat) : Int) +
      Doc.flatWidth parts ≤ width) :
    ∀ l ∈ (cut.add (.flat parts)).linesFrom indent (keyPieces key), LineKind width l := by
  refine List.forall_mem_cons.mpr ⟨?_, follows.kinds⟩
  have piecesEq : (cut.add (.flat parts)).pieces = .flat parts :: commaPieces comma := by
    rw [Cut.pieces_add, follows.piecesEq]
  have lengthEq : (Line.length ⟨indent, keyPieces key ++ .flat parts :: commaPieces comma⟩) =
      indent + ((keyPieces key).flatMap Piece.bytes).length + Doc.flatWidth parts +
        ((commaPieces comma).flatMap Piece.bytes).length := by
    simp only [Line.length_mk, List.flatMap_append, List.flatMap_cons, List.length_append,
      Piece.bytes, Doc.length_flat]
    omega
  rw [piecesEq]
  cases comma with
  | false =>
      refine .fitting ?_
      simp only [commaPieces, List.flatMap_nil, List.length_nil] at lengthEq ⊢
      omega
  | true =>
      have one : ((commaPieces true).flatMap Piece.bytes).length = 1 := rfl
      rcases Int.lt_or_eq_of_le fits with less | equal
      · refine .fitting ?_
        omega
      · refine .overhanging container rfl ?_
        omega

/-- A line break ends a line, and what follows begins another. -/
theorem follows_breakLine {i : Int} (indentEq : i = indent)
    (kinds : ∀ l ∈ cut.linesFrom indent [], LineKind width l) :
    Follows width false (cut.breakLine i.toNat) := by
  rw [indentEq, Int.toNat_natCast]
  exact ⟨rfl, kinds⟩

/-- A comma may stand in front of a line break. -/
theorem Follows.addComma (follows : Follows width false cut) :
    Follows width true (cut.add (.text [Ascii.comma])) :=
  ⟨congrArg (Piece.text [Ascii.comma] :: ·) follows.piecesEq, follows.kinds⟩

end Follows

section Container

variable {opening closing : UInt8} {docOf : α → List Elem} {a : α} {as : List α} {indent : Nat}

/-- Behind an item of a container: the further items and the closing bracket.  The
room that the item has left does not matter, since a line break comes first or
behind a comma. -/
theorem follows_further (nonneg : 0 ≤ width) (isWord : width ≤ Word.maximum)
    (deep : ((indent + 2 : Nat) : Int) ≤ Word.maximum) (closes : IsAtom [closing])
    (each : ∀ a' ∈ as, Settles width (indent + 2) [] (docOf a')) {room : Room}
    (indentEq : room.indent = (indent + 2 : Nat)) :
    let placed := Layout.placeAll width ((as.flatMap fun a => Value.separator ++ docOf a) ++
      [.newline (-Value.indentation), .literal [closing]]) room
    placed.2.indent = indent ∧ ∀ ⦃comma cut⦄, Follows width comma cut →
      ∃ comma', Follows width comma' (Placed.cutAllOnto placed.1 cut) := by
  induction as generalizing room with
  | nil =>
      have outside := Room.at_breakLine indentEq nonneg isWord (-Value.indentation) indent
        (by simp only [Value.indentation]; omega) (by omega)
      refine ⟨outside.indentEq, fun comma cut follows => ⟨false, ?_⟩⟩
      have bracket : ∀ l ∈ (cut.add (.text [closing])).linesFrom indent (keyPieces none),
          LineKind width l := follows.forall_atom closes
      exact follows_breakLine outside.indentEq bracket
  | cons a as ih =>
      rw [List.forall_mem_cons] at each
      have kept : (room.spend 1).indent = (indent + 2 : Nat) := indentEq
      have inside := Room.at_breakLine kept nonneg isWord 0 (indent + 2) (by omega) deep
      obtain ⟨kept, lines⟩ := each.1 inside
      obtain ⟨closed, further⟩ := ih each.2 kept
      rw [List.flatMap_cons, Value.separator, List.append_assoc, List.append_assoc]
      simp only [List.cons_append, List.nil_append, Layout.placeAll_literal,
        Layout.placeAll_newline, Layout.placeAll_append (docOf a), List.length_singleton]
      refine ⟨closed, fun comma cut follows => ⟨true, ?_⟩⟩
      obtain ⟨comma', others⟩ := further follows
      rw [Placed.cutAllOnto_text, Placed.cutAllOnto_line, Placed.cutAllOnto_append]
      exact (follows_breakLine inside.indentEq (lines others)).addComma

/-- A container whose items settle one indentation further in settles where its
opening bracket stands. -/
theorem settles_container (nonneg : 0 ≤ width) (isWord : width ≤ Word.maximum)
    (deep : ((indent + 2 : Nat) : Int) ≤ Word.maximum) (opens : IsAtom [opening])
    (closes : IsAtom [closing]) {key : Option Bytes} {v : Value}
    (container : v.elem = .group (containerDoc opening closing docOf a as))
    (each : ∀ a' ∈ a :: as, Settles width (indent + 2) [] (docOf a')) :
    Settles width indent (keyPieces key) [v.elem] := by
  intro room here
  rw [container]
  by_cases isFlat : (Doc.flatWidth (containerDoc opening closing docOf a as) : Int) ≤ room.rest
  · rw [Layout.placeAll_group_of_le isFlat]
    refine ⟨here.indentEq, fun comma cut follows => ?_⟩
    rw [here.restEq] at isFlat
    exact follows.forall_flat container (by omega)
  · rw [Layout.placeAll_group_of_lt (Int.not_le.mp isFlat)]
    rw [List.forall_mem_cons] at each
    have kept : (room.spend 1).indent = indent := here.indentEq
    have inside := Room.at_breakLine kept nonneg isWord Value.indentation (indent + 2)
      (by simp [Value.indentation]) deep
    obtain ⟨kept, lines⟩ := each.1 inside
    obtain ⟨closed, further⟩ := follows_further nonneg isWord deep closes each.2 kept
    simp only [containerDoc, Layout.placeAll_literal, Layout.placeAll_newline,
      Layout.placeAll_append (docOf a), List.length_singleton, Layout.placeAll_nil]
    refine ⟨closed, fun comma cut follows => ?_⟩
    obtain ⟨comma', others⟩ := further follows
    rw [Placed.cutAllOnto_tall, Placed.cutAllOnto_nil, Placed.cutAllOnto_text,
      Placed.cutAllOnto_line, Placed.cutAllOnto_append]
    exact (follows_breakLine inside.indentEq (lines others)).forall_atom opens

end Container

variable {indent : Nat} {key : Option Bytes}

theorem settles_text {atom : Bytes} (isAtom : IsAtom atom) :
    Settles width indent (keyPieces key) [.text atom] := by
  intro room here
  exact ⟨here.indentEq, fun comma cut follows => follows.forall_atom isAtom⟩

theorem settles_literal {atom : Bytes} (isAtom : IsAtom atom) :
    Settles width indent (keyPieces key) [.literal atom] :=
  settles_text isAtom

/-- A member settles at the start of a line if its value settles behind the key. -/
theorem settles_memberDoc (nonneg : 0 ≤ width) (isWord : width ≤ Word.maximum)
    {m : Bytes × Value}
    (fits : (indent : Int) + Doc.flatWidth (memberDoc m) ≤ Word.maximum)
    (value : Settles width indent (keyPieces (some m.1)) [m.2.elem]) :
    Settles width indent [] (memberDoc m) := by
  intro room here
  simp only [memberDoc, Value.keySeparator, Doc.flatWidth, Elem.flatWidth, List.length_cons,
    List.length_nil] at fits
  have behindKey := here.spend nonneg isWord (n := (stringText m.1).length)
    (by simp only [List.flatMap_nil, List.length_nil]; omega)
  have behindColon := behindKey.spend nonneg isWord (n := 2)
    (by simp only [List.flatMap_nil, List.length_nil]; omega)
  have columnEq : indent + (([] : List Piece).flatMap Piece.bytes).length +
      (stringText m.1).length + 2 =
        indent + ((keyPieces (some m.1)).flatMap Piece.bytes).length := by
    simp [keyPieces, Piece.bytes]
    omega
  rw [columnEq] at behindColon
  obtain ⟨kept, lines⟩ := value behindColon
  refine ⟨kept, fun comma cut follows => ?_⟩
  have all := lines follows
  simp only [memberDoc, Value.keySeparator, Layout.placeAll_text, Layout.placeAll_literal,
    Placed.cutAllOnto_text, Cut.linesFrom_add, List.nil_append, List.cons_append]
  exact all

/-- A value settles wherever there is room for its flat form in a word. -/
theorem settles_elem (nonneg : 0 ≤ width) (isWord : width ≤ Word.maximum) {v : Value}
    (complete : v.isComplete = true)
    (fits : ((indent + ((keyPieces key).flatMap Piece.bytes).length : Nat) : Int) +
      v.elem.flatWidth ≤ Word.maximum) :
    Settles width indent (keyPieces key) [v.elem] := by
  induction v using Value.induction generalizing indent key with
  | object members ih =>
      cases members with
      | nil => exact settles_literal .emptyObject
      | cons m ms =>
          rw [Value.isComplete, Value.allMembersComplete_iff] at complete
          rw [elem_object_cons, Elem.flatWidth] at fits
          have inner (m' : Bytes × Value) (inside : m' ∈ m :: ms) :
              ((indent + 2 : Nat) : Int) + Doc.flatWidth (memberDoc m') ≤ Word.maximum := by
            have longer :=
              flatWidth_le_containerDoc Ascii.openBrace Ascii.closeBrace memberDoc inside
            omega
          have first := inner m List.mem_cons_self
          refine settles_container nonneg isWord (by omega) (.bracket (by simp))
            (.bracket (by simp)) (elem_object_cons m ms) ?_
          intro m' inside
          refine settles_memberDoc nonneg isWord (inner m' inside) ?_
          apply ih m' inside (complete m' inside)
          have room := inner m' inside
          simp only [memberDoc, Value.keySeparator, Doc.flatWidth, Elem.flatWidth] at room
          simp only [keyPieces, List.flatMap_cons, List.flatMap_nil, Piece.bytes,
            List.length_append, List.length_nil]
          omega
  | array elements ih =>
      cases elements with
      | nil => exact settles_literal .emptyArray
      | cons v vs =>
          rw [Value.isComplete, Value.allComplete_iff] at complete
          rw [elem_array_cons, Elem.flatWidth] at fits
          have inner (v' : Value) (inside : v' ∈ v :: vs) :
              ((indent + 2 : Nat) : Int) + v'.elem.flatWidth ≤ Word.maximum := by
            have longer := flatWidth_le_containerDoc Ascii.openBracket Ascii.closeBracket
              (fun v => [v.elem]) inside
            simp only [Doc.flatWidth] at longer
            omega
          have first := inner v List.mem_cons_self
          refine settles_container nonneg isWord (by omega) (.bracket (by simp))
            (.bracket (by simp)) (elem_array_cons v vs) ?_
          intro v' inside
          have settles : Settles width (indent + 2) (keyPieces none) [v'.elem] :=
            ih v' inside (complete v' inside) (inner v' inside)
          exact settles
  | string raw => exact settles_text (.string raw)
  | number x => exact settles_text (.number x)
  | bool b => exact settles_text (.bool b)
  | null => exact settles_text .null
  | missing => contradiction

end Width

/-! ## The law -/

/-- A complete value, fitted to a width that is not negative, is made up of lines of
the three kinds. -/
theorem format_lines_kind (v : Value) (width : Int) (complete : v.isComplete = true)
    (nonneg : 0 ≤ width) (isWord : width ≤ Word.maximum)
    (short : (v.format width).length ≤ Word.maximum) :
    v.format? width = .ok (v.format width) ∧
      [Ascii.lineFeed].intercalate
        ((Placed.lines (Layout.layout width v.doc)).map Line.bytes) = v.format width ∧
      ∀ l ∈ Placed.lines (Layout.layout width v.doc), LineKind width l := by
  have settles : Settles width 0 (keyPieces none) v.doc := by
    apply settles_elem nonneg isWord complete
    have longer : Doc.flatWidth v.doc ≤ (v.format width).length :=
      Layout.flatWidth_le_length_render width v.doc
    simp only [Value.doc, Doc.flatWidth] at longer
    simp only [keyPieces, List.flatMap_nil, List.length_nil]
    omega
  have ends : Follows width false Cut.finish := ⟨rfl, List.forall_mem_nil _⟩
  have lines := (settles (Room.at_fresh width)).2 ends
  exact ⟨Value.format?_eq_ok complete nonneg, Placed.intercalate_lines _, lines⟩

/-- On lines of ten bytes, the inner array fits with its last byte, and its comma
is one byte too many. -/
theorem format_lines_kind_overhanging :
    let v : Value := .array [.array [.bool true], .null]
    (∃ l ∈ Placed.lines (Layout.layout 10 v.doc), l.length = 11) ∧
      ∀ l ∈ Placed.lines (Layout.layout 10 v.doc), LineKind 10 l := by
  intro v
  have short : (v.format 10).length ≤ Word.maximum := by decide
  have lengths : 11 ∈ (Placed.lines (Layout.layout 10 v.doc)).map Line.length := by decide
  exact ⟨List.mem_map.mp lengths,
    (format_lines_kind v 10 rfl (by decide) (by decide) short).2.2⟩

end JsonFit.Json
