import JsonFit.Proofs.Json.Widening
import JsonFit.Proofs.Layout.Lines
import JsonFit.Proofs.Layout.Marks

/-!
# Indentation of fitted values

Line breaks are indented by the containers around them.  The containers that are open at
some place are found by reading the marks up to there: an opening bracket opens one, and
a closing bracket closes the last one.  At every line break all of them are on several
lines, and there are two spaces for each, except for one whose closing bracket comes
next.  No space is in front of a line break, and the line goes on with no space.

`Neat` states this for marks that are read from some place on.  The induction is on the
shape of the value.  What a value puts between two line breaks is a `NeatItem`: whatever
may stand behind a byte that is no space may stand behind the item.  A container is
written with the same marks on one line and on several lines, except for its line
breaks, so that one lemma serves for both.
-/

namespace JsonFit.Json

open Layout (Doc Elem Mark Placed Room)
open Value (stringText)

variable {α : Type}

/-- Is the text an opening bracket? -/
def isOpening (s : Bytes) : Bool :=
  s == [Ascii.openBrace] || s == [Ascii.openBracket]

/-- Is the text a closing bracket? -/
def isClosing (s : Bytes) : Bool :=
  s == [Ascii.closeBrace] || s == [Ascii.closeBracket]

/-- The containers that are open behind a mark, the inner ones first.  Of each it is
known whether it is on one line, as its opening bracket is. -/
def openBehind (opened : List Bool) : Mark → List Bool
  | .text isFlat s =>
      if isOpening s then isFlat :: opened else if isClosing s then opened.tail else opened
  | .space => opened
  | .line _ => opened

/-- The indentation inside of the open containers. -/
def indentIn (opened : List Bool) : Int :=
  2 * (opened.length : Int)

theorem indentIn_cons (isFlat : Bool) (opened : List Bool) :
    indentIn (isFlat :: opened) = indentIn opened + 2 := by
  rw [indentIn, indentIn, List.length_cons, Int.natCast_add_one, Int.mul_add, Int.mul_one]

theorem indentIn_nonneg (opened : List Bool) : 0 ≤ indentIn opened :=
  Int.mul_nonneg (by decide) (Int.natCast_nonneg _)

/-- The number of containers that are closed by the mark that comes next. -/
def closedNext : List Mark → Nat
  | .text _ s :: _ => if isClosing s then 1 else 0
  | _ => 0

/-- The byte is there, and it is not a space. -/
def IsInk (b? : Option UInt8) : Prop :=
  ∃ b, b? = some b ∧ b ≠ Ascii.space

/-- How a line break stands between what is written before and behind it, where some
containers are open. -/
structure Indented (opened : List Bool) (before : Bytes) (indent : Int) (behind : List Mark) :
    Prop where
  /-- All open containers are tall. -/
  tall : ∀ isFlat ∈ opened, isFlat = false
  /-- The indentation is two for each open container, but for one that is closed at the
  start of the line. -/
  indentEq : ∃ k : Nat, indent = 2 * k ∧ opened.length = k + closedNext behind
  /-- No space is in front of the line break. -/
  inkBefore : IsInk before.getLast?
  /-- No further space is behind the indentation. -/
  inkBehind : IsInk (behind.flatMap Mark.bytes).head?

/-- All line breaks of the marks are indented, where some containers are open already
and something has been written before. -/
def Neat : List Bool → Bytes → List Mark → Prop
  | _, _, [] => True
  | opened, before, m :: ms =>
      (∀ indent, m = .line indent → Indented opened before indent ms) ∧
        Neat (openBehind opened m) (before ++ m.bytes) ms

theorem Neat.indented {opened : List Bool} {front : Bytes} {marks before behind : List Mark}
    {indent : Int} (neat : Neat opened front marks)
    (split : marks = before ++ .line indent :: behind) :
    Indented (before.foldl openBehind opened) (front ++ before.flatMap Mark.bytes) indent
      behind := by
  subst split
  induction before generalizing opened front with
  | nil =>
      rw [List.flatMap_nil, List.append_nil]
      exact neat.1 indent rfl
  | cons m ms ih =>
      rw [List.flatMap_cons, ← List.append_assoc]
      exact ih neat.2

section Neat

variable {opened : List Bool} {before : Bytes} {isFlat : Bool} {s : Bytes} {ms : List Mark}

theorem isInk_getLast?_append (t : Bytes) (ink : IsInk s.getLast?) :
    IsInk (t ++ s).getLast? := by
  rcases ink with ⟨b, found, notSpace⟩
  exact ⟨b, by rw [List.getLast?_append, found, Option.some_or], notSpace⟩

theorem isInk_head?_append (t : Bytes) (ink : IsInk s.head?) : IsInk (s ++ t).head? := by
  rcases ink with ⟨b, found, notSpace⟩
  exact ⟨b, by rw [List.head?_append, found, Option.some_or], notSpace⟩

theorem neat_text (neat : Neat (openBehind opened (.text isFlat s)) (before ++ s) ms) :
    Neat opened before (.text isFlat s :: ms) :=
  ⟨fun _ isLine => Mark.noConfusion isLine, neat⟩

/-- Marks that may stand behind every line break inside of the open containers, in front
of all that may stand behind a byte that is not a space. -/
structure NeatItem (opened : List Bool) (ms : List Mark) : Prop where
  inkFirst : ∀ rest, IsInk ((ms ++ rest).flatMap Mark.bytes).head?
  notClosing : ∀ rest, closedNext (ms ++ rest) = 0
  neat : ∀ before rest, (∀ before', IsInk before'.getLast? → Neat opened before' rest) →
    Neat opened before (ms ++ rest)

end Neat

/-! ## Texts in fitted values -/

/-- A text that begins visibly and is no bracket. -/
structure IsPlainText (s : Bytes) : Prop where
  inkFirst : IsInk s.head?
  notOpening : isOpening s = false
  notClosing : isClosing s = false

/-- A text that also ends visibly. -/
structure IsSolidText (s : Bytes) : Prop extends IsPlainText s where
  inkLast : IsInk s.getLast?

theorem isPlainText_stringText (raw : Bytes) : IsPlainText (stringText raw) where
  inkFirst := ⟨Ascii.quotationMark, rfl, by decide⟩
  notOpening := rfl
  notClosing := rfl

theorem isSolidText_stringText (raw : Bytes) : IsSolidText (stringText raw) where
  toIsPlainText := isPlainText_stringText raw
  inkLast := isInk_getLast?_append _ ⟨Ascii.quotationMark, rfl, by decide⟩

/-- A text without spaces that is no bracket. -/
theorem isSolidText_of_spaceless {s : Bytes} (some : s ≠ []) (spaceless : Ascii.space ∉ s)
    (notOpening : isOpening s = false) (notClosing : isClosing s = false) : IsSolidText s where
  inkFirst := ⟨s.head some, List.head?_eq_some_head some,
    ne_of_mem_of_not_mem (List.head_mem some) spaceless⟩
  notOpening := notOpening
  notClosing := notClosing
  inkLast := ⟨s.getLast some, List.getLast?_eq_some_getLast some,
    ne_of_mem_of_not_mem (List.getLast_mem some) spaceless⟩

theorem isSolidText_number (x : Binary64) : IsSolidText (Decimal.write x) := by
  by_cases finite : x.isFinite = true
  · have numeral := Decimal.isNumeralText_write finite
    have notByte {b : UInt8} (other : ¬ Decimal.IsNumeralByte b) :
        (Decimal.write x == [b]) = false := by
      rw [beq_eq_false_iff_ne]
      intro written
      exact other (numeral b (written ▸ List.mem_singleton_self b))
    apply isSolidText_of_spaceless
    · intro empty
      have read := Decimal.read?_write finite
      rw [empty] at read
      contradiction
    · intro member
      exact absurd (numeral _ member) (by decide)
    · rw [isOpening, notByte (by decide), notByte (by decide), Bool.or_self]
    · rw [isClosing, notByte (by decide), notByte (by decide), Bool.or_self]
  · rw [Decimal.write, if_neg finite]
    split
    · cases x.isNegative <;> exact isSolidText_of_spaceless (by decide) (by decide) rfl rfl
    · exact isSolidText_of_spaceless (by decide) (by decide) rfl rfl

theorem isSolidText_bool (b : Bool) : IsSolidText (Value.boolText b) := by
  cases b <;> exact isSolidText_of_spaceless (by decide) (by decide) rfl rfl

theorem isSolidText_null : IsSolidText Value.nullText :=
  isSolidText_of_spaceless (by decide) (by decide) rfl rfl

/-! ## Shapes of fitted values -/

/-- The brackets of a container. -/
inductive IsPair : UInt8 → UInt8 → Prop where
  /-- Those of an object. -/
  | braces : IsPair Ascii.openBrace Ascii.closeBrace
  /-- Those of an array. -/
  | brackets : IsPair Ascii.openBracket Ascii.closeBracket

/-- The elements of an item of a container: a value, in an object behind its key. -/
def itemDoc : Option Bytes × Value → List Elem
  | (none, v) => v.doc
  | (some key, v) => memberDoc (key, v)

/-- The shapes of fitted values: a text, or a container of items. -/
inductive Shaped : Value → Prop where
  /-- A scalar. -/
  | scalar {v : Value} {s : Bytes} (solid : IsSolidText s) (docEq : v.doc = [.text s]) : Shaped v
  /-- A container without items. -/
  | empty {v : Value} {s : Bytes} (solid : IsSolidText s) (docEq : v.doc = [.literal s]) :
      Shaped v
  /-- A container with items. -/
  | container {v : Value} {opening closing : UInt8} {item : Option Bytes × Value}
      {items : List (Option Bytes × Value)} (pair : IsPair opening closing)
      (docEq : v.doc = [.group (containerDoc opening closing itemDoc item items)])
      (each : ∀ item' ∈ item :: items, Shaped item'.2) : Shaped v

/-- What has an item for each of its parts is a container. -/
theorem shaped_of_items {v : Value} {opening closing : UInt8} {a : α} {as : List α}
    (toItem : α → Option Bytes × Value) (pair : IsPair opening closing)
    (elemEq : v.elem =
      .group (containerDoc opening closing (fun a => itemDoc (toItem a)) a as))
    (each : ∀ a' ∈ a :: as, Shaped (toItem a').2) : Shaped v := by
  apply Shaped.container pair
  · rw [containerDoc_map, Value.doc, elemEq]
  · rw [← List.map_cons, List.forall_mem_map]
    exact each

/-- A complete value has one of the shapes. -/
theorem shaped_of_isComplete {v : Value} (complete : v.isComplete = true) : Shaped v := by
  induction v using Value.induction with
  | object members ih =>
      cases members with
      | nil => exact .empty (isSolidText_of_spaceless (by decide) (by decide) rfl rfl) rfl
      | cons m ms =>
          rw [Value.isComplete, Value.allMembersComplete_iff] at complete
          apply shaped_of_items (fun m : Bytes × Value => (some m.1, m.2)) .braces
            (elem_object_cons m ms)
          exact fun m' inside => ih m' inside (complete m' inside)
  | array elements ih =>
      cases elements with
      | nil => exact .empty (isSolidText_of_spaceless (by decide) (by decide) rfl rfl) rfl
      | cons v vs =>
          rw [Value.isComplete, Value.allComplete_iff] at complete
          apply shaped_of_items (fun v => (none, v)) .brackets (elem_array_cons v vs)
          exact fun v' inside => ih v' inside (complete v' inside)
  | string raw => exact .scalar (isSolidText_stringText raw) rfl
  | number x => exact .scalar (isSolidText_number x) rfl
  | bool b => exact .scalar (isSolidText_bool b) rfl
  | null => exact .scalar isSolidText_null rfl
  | missing => contradiction

section Texts

variable {opened : List Bool} {isFlat : Bool} {s : Bytes} {ms : List Mark}

theorem IsPlainText.openBehind_eq (isPlain : IsPlainText s) :
    openBehind opened (.text isFlat s) = opened := by
  simp only [openBehind, isPlain.notOpening, isPlain.notClosing, Bool.false_eq_true, if_false]

theorem IsSolidText.neatItem (solid : IsSolidText s) : NeatItem opened [.text isFlat s] where
  inkFirst _ := isInk_head?_append _ solid.inkFirst
  notClosing _ := if_neg (Bool.eq_false_iff.mp solid.notClosing)
  neat before rest further := by
    apply neat_text
    rw [solid.openBehind_eq]
    exact further _ (isInk_getLast?_append before solid.inkLast)

theorem NeatItem.cons (item : NeatItem opened ms) (isPlain : IsPlainText s) :
    NeatItem opened (.text isFlat s :: ms) where
  inkFirst _ := isInk_head?_append _ isPlain.inkFirst
  notClosing _ := if_neg (Bool.eq_false_iff.mp isPlain.notClosing)
  neat before rest further := by
    apply neat_text
    rw [isPlain.openBehind_eq]
    exact item.neat _ rest further

/-- A value behind a key. -/
theorem NeatItem.member (item : NeatItem opened ms) (key : Bytes) :
    NeatItem opened
      (.text isFlat (stringText key) :: .text isFlat [Ascii.colon, Ascii.space] :: ms) :=
  have colon : IsPlainText [Ascii.colon, Ascii.space] := ⟨⟨_, rfl, by decide⟩, rfl, rfl⟩
  (item.cons colon).cons (isPlainText_stringText key)

end Texts

/-- A line break as it is written in a container that is on one line, or not. -/
def breakMark (isFlat : Bool) (indent : Int) : Mark :=
  if isFlat then .space else .line indent

/-- The marks of a container that is not empty, from those of its items. -/
def containerMarks (isFlat : Bool) (indent : Int) (opening closing : UInt8) (item : List Mark)
    (items : List (List Mark)) : List Mark :=
  .text isFlat [opening] :: breakMark isFlat (indent + 2) ::
    (item ++ ((items.flatMap fun ms =>
        .text isFlat [Ascii.comma] :: breakMark isFlat (indent + 2) :: ms) ++
      [breakMark isFlat indent, .text isFlat [closing]]))

section Container

variable {opened : List Bool} {isFlat : Bool} {indent : Int} {opening closing : UInt8}

/-- If the container is on several lines, so are those around it, and they are
indented. -/
def Settled (opened : List Bool) (isFlat : Bool) (indent : Int) : Prop :=
  isFlat = false → (∀ outer ∈ opened, outer = false) ∧ indent = indentIn opened

theorem neat_breakMark {before : Bytes} {ms : List Mark}
    (indented : isFlat = false → Indented opened before indent ms)
    (neat : Neat opened (before ++ (breakMark isFlat indent).bytes) ms) :
    Neat opened before (breakMark isFlat indent :: ms) := by
  cases isFlat with
  | true => exact ⟨fun _ isLine => Mark.noConfusion isLine, neat⟩
  | false =>
      constructor
      · rintro _ ⟨⟩
        exact indented rfl
      · exact neat

/-- A line break in front of an item of the container. -/
theorem neat_break_item (settled : Settled opened isFlat indent) {before : Bytes}
    (ink : IsInk before.getLast?) {ms rest : List Mark} (item : NeatItem (isFlat :: opened) ms)
    (further : ∀ before', IsInk before'.getLast? → Neat (isFlat :: opened) before' rest) :
    Neat (isFlat :: opened) before (breakMark isFlat (indent + 2) :: (ms ++ rest)) := by
  apply neat_breakMark
  · rintro rfl
    rcases settled rfl with ⟨tall, indentEq⟩
    constructor
    · exact List.forall_mem_cons.mpr ⟨rfl, tall⟩
    · rw [item.notClosing rest, indentEq]
      exact ⟨opened.length + 1, (indentIn_cons false opened).symm, rfl⟩
    · exact ink
    · exact item.inkFirst rest
  · exact item.neat _ rest further

/-- Behind an item of the container: further items, and the closing bracket. -/
theorem neat_further (pair : IsPair opening closing) (settled : Settled opened isFlat indent)
    {items : List (List Mark)} (each : ∀ ms ∈ items, NeatItem (isFlat :: opened) ms)
    {rest : List Mark} (further : ∀ before', IsInk before'.getLast? → Neat opened before' rest)
    {before : Bytes} (ink : IsInk before.getLast?) :
    Neat (isFlat :: opened) before
      ((items.flatMap fun ms =>
          .text isFlat [Ascii.comma] :: breakMark isFlat (indent + 2) :: ms) ++
        ([breakMark isFlat indent, .text isFlat [closing]] ++ rest)) := by
  induction items generalizing before with
  | nil =>
      apply neat_breakMark
      · rintro rfl
        rcases settled rfl with ⟨tall, indentEq⟩
        constructor
        · exact List.forall_mem_cons.mpr ⟨rfl, tall⟩
        · refine ⟨opened.length, indentEq, ?_⟩
          cases pair <;> rfl
        · exact ink
        · cases pair <;> exact ⟨_, rfl, by decide⟩
      · apply neat_text
        have closed : openBehind (isFlat :: opened) (.text isFlat [closing]) = opened := by
          cases pair <;> rfl
        rw [closed]
        apply further
        apply isInk_getLast?_append
        cases pair <;> exact ⟨_, rfl, by decide⟩
  | cons ms items ih =>
      rw [List.forall_mem_cons] at each
      rw [List.flatMap_cons, List.append_assoc]
      apply neat_text
      rw [List.cons_append]
      apply neat_break_item settled _ each.1
      · intro before' ink'
        exact ih each.2 ink'
      · exact isInk_getLast?_append _ ⟨Ascii.comma, rfl, by decide⟩

/-- A container may stand wherever it is settled, if its items may stand inside. -/
theorem neatItem_containerMarks (pair : IsPair opening closing)
    (settled : Settled opened isFlat indent) {item : List Mark} {items : List (List Mark)}
    (each : ∀ ms ∈ item :: items, NeatItem (isFlat :: opened) ms) :
    NeatItem opened (containerMarks isFlat indent opening closing item items) where
  inkFirst _ := by cases pair <;> exact ⟨_, rfl, by decide⟩
  notClosing _ := by cases pair <;> rfl
  neat before rest further := by
    rw [List.forall_mem_cons] at each
    have inside : openBehind opened (.text isFlat [opening]) = isFlat :: opened := by
      cases pair <;> rfl
    have ink : IsInk [opening].getLast? := by
      cases pair <;> exact ⟨_, rfl, by decide⟩
    rw [containerMarks, List.cons_append]
    apply neat_text
    rw [inside, List.cons_append, List.append_assoc, List.append_assoc]
    apply neat_break_item settled (isInk_getLast?_append before ink) each.1
    intro before' ink'
    exact neat_further pair settled each.2 further ink'

end Container

section Flat

variable {opening closing : UInt8} {docOf : α → List Elem} {a : α} {as : List α}

theorem flatMarks_containerDoc (indent : Int) :
    Doc.flatMarks (containerDoc opening closing docOf a as) =
      containerMarks true indent opening closing (Doc.flatMarks (docOf a))
        (as.map fun a => Doc.flatMarks (docOf a)) := by
  have further : Doc.flatMarks (as.flatMap fun a => Value.separator ++ docOf a) =
      (as.map fun a => Doc.flatMarks (docOf a)).flatMap fun ms =>
        .text true [Ascii.comma] :: .space :: ms := by
    induction as with
    | nil => rfl
    | cons a as ih =>
        rw [List.flatMap_cons, Doc.flatMarks_append, Doc.flatMarks_append, ih]
        rfl
  simp only [containerDoc, containerMarks, Doc.flatMarks_literal, Doc.flatMarks_newline,
    Doc.flatMarks_append, further]
  rfl

theorem neatItem_flat_container {opened : List Bool} (pair : IsPair opening closing)
    (each : ∀ a' ∈ a :: as, NeatItem (true :: opened) (Doc.flatMarks (docOf a'))) :
    NeatItem opened (Doc.flatMarks (containerDoc opening closing docOf a as)) := by
  rw [flatMarks_containerDoc 0]
  apply neatItem_containerMarks pair
  · exact fun isTall => Bool.noConfusion isTall
  · rw [← List.map_cons (f := fun a => Doc.flatMarks (docOf a)), List.forall_mem_map]
    exact each

end Flat

/-- On one line, a value may stand in all containers. -/
theorem Shaped.neatItem_flatMarks {v : Value} (shaped : Shaped v) (opened : List Bool) :
    NeatItem opened (Doc.flatMarks v.doc) := by
  induction shaped generalizing opened with
  | scalar solid docEq =>
      rw [docEq]
      exact solid.neatItem
  | empty solid docEq =>
      rw [docEq]
      exact solid.neatItem
  | container pair docEq each ih =>
      rw [docEq, Doc.flatMarks_group, Doc.flatMarks_nil, List.append_nil]
      apply neatItem_flat_container pair
      rintro ⟨key, v'⟩ inside
      have value := ih _ inside (true :: opened)
      cases key with
      | none => exact value
      | some key => exact value.member key

/-! ## Values on several lines -/

section Width

variable {width : Int} {opened : List Bool}

/-- Laid out with the indentation of the open containers, the elements may stand in them,
and they leave the indentation as it is. -/
def NeatlyLaid (width : Int) (opened : List Bool) (es : List Elem) : Prop :=
  ∀ room : Room, room.indent = indentIn opened →
    NeatItem opened (Placed.marks (Layout.placeAll width es room).1) ∧
      (Layout.placeAll width es room).2.indent = room.indent

/-- A value behind a key. -/
theorem neatlyLaid_memberDoc {m : Bytes × Value} (value : NeatlyLaid width opened m.2.doc) :
    NeatlyLaid width opened (memberDoc m) := by
  intro room indentEq
  have behindKey := value ((room.spend (stringText m.1).length).spend 2) indentEq
  exact ⟨behindKey.1.member m.1, behindKey.2⟩

/-- A separator is a comma and a line break that keeps the indentation. -/
theorem placeAll_separator (es : List Elem) (room : Room) :
    Layout.placeAll width (Value.separator ++ es) room =
      (.text [Ascii.comma] :: .line ((room.spend 1).breakLine width 0).indent ::
          (Layout.placeAll width es ((room.spend 1).breakLine width 0)).1,
        (Layout.placeAll width es ((room.spend 1).breakLine width 0)).2) :=
  rfl

section Container

variable {opening closing : UInt8} {docOf : α → List Elem} {a : α} {as : List α}

/-- Behind an item of a container: further items, and the closing bracket. -/
theorem exists_further_items (short : indentIn opened + 2 ≤ Word.maximum)
    (each : ∀ a' ∈ as, NeatlyLaid width (false :: opened) (docOf a')) {room : Room}
    (indentEq : room.indent = indentIn opened + 2) :
    let placed := Layout.placeAll width ((as.flatMap fun a => Value.separator ++ docOf a) ++
      [.newline (-Value.indentation), .literal [closing]]) room
    placed.2.indent = indentIn opened ∧
      ∃ items : List (List Mark), (∀ ms ∈ items, NeatItem (false :: opened) ms) ∧
        Placed.marks placed.1 = (items.flatMap fun ms => .text false [Ascii.comma] ::
            breakMark false (indentIn opened + 2) :: ms) ++
          [breakMark false (indentIn opened), .text false [closing]] := by
  have nonneg : 0 ≤ indentIn opened := indentIn_nonneg opened
  induction as generalizing room with
  | nil =>
      have outside : (room.breakLine width (-Value.indentation)).indent = indentIn opened := by
        apply Room.indent_breakLine_of_sum _ nonneg (by omega)
        rw [indentEq]
        exact Int.add_neg_cancel_right _ _
      constructor
      · exact outside
      · refine ⟨[], List.forall_mem_nil _, ?_⟩
        simp only [List.flatMap_nil, List.nil_append, Layout.placeAll_newline,
          Layout.placeAll_literal, Layout.placeAll_nil, Placed.marks_line, Placed.marks_text,
          Placed.marks_nil, outside]
        rfl
  | cons a as ih =>
      rw [List.forall_mem_cons] at each
      have inside : ((room.spend 1).breakLine width 0).indent = indentIn opened + 2 := by
        apply Room.indent_breakLine_of_sum _ (by omega) short
        rw [Int.add_zero]
        exact indentEq
      have first := each.1 _ (inside.trans (indentIn_cons false opened).symm)
      rcases ih each.2 (first.2.trans inside) with ⟨closed, items, neat, marksEq⟩
      rw [List.flatMap_cons, List.append_assoc, List.append_assoc, placeAll_separator,
        Layout.placeAll_append (docOf a)]
      constructor
      · exact closed
      · refine ⟨_ :: items, List.forall_mem_cons.mpr ⟨first.1, neat⟩, ?_⟩
        rw [Placed.marks_text, Placed.marks_line, Placed.marks_append, marksEq, inside,
          List.flatMap_cons, List.append_assoc]
        rfl

/-- A container on one line or on several may stand wherever its items may stand
inside. -/
theorem neatlyLaid_container (pair : IsPair opening closing)
    (tall : ∀ outer ∈ opened, outer = false)
    (short : indentIn opened + 2 ≤ Word.maximum)
    (flat : NeatItem opened (Doc.flatMarks (containerDoc opening closing docOf a as)))
    (each : ∀ a' ∈ a :: as, NeatlyLaid width (false :: opened) (docOf a')) :
    NeatlyLaid width opened [.group (containerDoc opening closing docOf a as)] := by
  intro room indentEq
  by_cases fits : (Doc.flatWidth (containerDoc opening closing docOf a as) : Int) ≤ room.rest
  · rw [Layout.placeAll_group_of_le fits]
    constructor
    · rw [Layout.placeAll_nil, Placed.marks_flat, Placed.marks_nil, List.append_nil]
      exact flat
    · rfl
  · rw [Layout.placeAll_group_of_lt (Int.not_le.mp fits)]
    rw [List.forall_mem_cons] at each
    have nonneg : 0 ≤ indentIn opened + 2 := Int.add_nonneg (indentIn_nonneg opened) (by decide)
    have inside : ((room.spend 1).breakLine width Value.indentation).indent =
        indentIn opened + 2 :=
      Room.indent_breakLine_of_sum (congrArg (· + Value.indentation) indentEq) nonneg short _
    have first := each.1 _ (inside.trans (indentIn_cons false opened).symm)
    rcases exists_further_items short each.2 (first.2.trans inside) with
      ⟨closed, items, neat, marksEq⟩
    simp only [containerDoc, Layout.placeAll_literal, Layout.placeAll_newline,
      Layout.placeAll_append (docOf a), List.length_singleton, Layout.placeAll_nil]
    constructor
    · have settled : Settled opened false (indentIn opened) := fun _ => ⟨tall, rfl⟩
      have item := neatItem_containerMarks pair settled
        (List.forall_mem_cons.mpr ⟨first.1, neat⟩)
      rw [Placed.marks_tall, Placed.marks_nil, List.append_nil, Placed.marks_text,
        Placed.marks_line, Placed.marks_append, marksEq, inside]
      exact item
    · exact closed.trans indentEq.symm

end Container

/-- A value may stand in open containers that are all on several lines, if the length of
its flat form leaves room for the indentation. -/
theorem Shaped.neatlyLaid_doc {v : Value} (shaped : Shaped v)
    (tall : ∀ outer ∈ opened, outer = false)
    (short : indentIn opened + Doc.flatWidth v.doc ≤ Word.maximum) :
    NeatlyLaid width opened v.doc := by
  induction shaped generalizing opened with
  | scalar solid docEq =>
      rw [docEq]
      exact fun _ _ => ⟨solid.neatItem, rfl⟩
  | empty solid docEq =>
      rw [docEq]
      exact fun _ _ => ⟨solid.neatItem, rfl⟩
  | @container v opening closing item items pair docEq each ih =>
      have flat := (Shaped.container pair docEq each).neatItem_flatMarks opened
      rw [docEq] at flat short ⊢
      rw [Doc.flatMarks_group, Doc.flatMarks_nil, List.append_nil] at flat
      simp only [Doc.flatWidth, Elem.flatWidth] at short
      have shorter (item' : Option Bytes × Value) (inside : item' ∈ item :: items) :=
        flatWidth_le_containerDoc opening closing itemDoc inside
      have first := shorter item List.mem_cons_self
      apply neatlyLaid_container pair tall (by omega) flat
      rintro ⟨key, v'⟩ inside
      have longer := shorter (key, v') inside
      have value : indentIn opened + 2 + Doc.flatWidth v'.doc ≤ Word.maximum →
          NeatlyLaid width (false :: opened) v'.doc := by
        rw [← indentIn_cons false opened]
        exact ih (key, v') inside (List.forall_mem_cons.mpr ⟨rfl, tall⟩)
      cases key with
      | none =>
          simp only [itemDoc] at longer
          exact value (by omega)
      | some key =>
          simp only [itemDoc, memberDoc, Doc.flatWidth] at longer
          apply neatlyLaid_memberDoc
          apply value
          simp only [Value.doc, Doc.flatWidth]
          omega

end Width

/-- Every line break of a complete value that is fitted to a width is indented by two
spaces for each open container, but for one that is closed next, and all of these are
on several lines.  No space is in front of the line break, and none behind its
indentation.  In the end the indentation is zero. -/
theorem format_breaks_indented (v : Value) (width : Int) (complete : v.isComplete = true)
    (nonneg : 0 ≤ width) (short : ((v.format width).length : Int) ≤ Word.maximum) :
    let marks := Placed.marks (Layout.layout width v.doc)
    v.format? width = .ok (marks.flatMap Mark.bytes) ∧
      (∀ before indent behind, marks = before ++ .line indent :: behind →
        Indented (before.foldl openBehind []) (before.flatMap Mark.bytes) indent behind) ∧
      (Layout.placeAll width v.doc (Room.fresh width)).2.indent = 0 := by
  intro marks
  have written : marks.flatMap Mark.bytes = v.format width :=
    Layout.flatMap_bytes_marks width v.doc (Room.fresh width)
  have laid : NeatlyLaid width [] v.doc := by
    apply (shaped_of_isComplete complete).neatlyLaid_doc (List.forall_mem_nil _)
    have longer : Doc.flatWidth v.doc ≤ (v.format width).length :=
      Layout.flatWidth_le_length_render width v.doc
    have outermost : indentIn [] = 0 := rfl
    omega
  rcases laid (Room.fresh width) rfl with ⟨item, indentEq⟩
  have neat : Neat [] [] (marks ++ []) := item.neat [] [] fun _ _ => trivial
  rw [List.append_nil] at neat
  constructor
  · rw [Value.format?_eq_ok complete nonneg, written]
  constructor
  · intro before indent behind split
    exact neat.indented split
  · exact indentEq

/-- An array on one line in an array on several lines, which is closed at the start of
the next line. -/
theorem format_breaks_indented_closing :
    let v : Value := .array [.array [.null, .array [.bool true]]]
    let marks := Placed.marks (Layout.layout 12 v.doc)
    v.isComplete = true ∧ (0 : Int) ≤ 12 ∧ ((v.format 12).length : Int) ≤ Word.maximum ∧
      ∃ before behind, marks = before ++ .line 2 :: behind ∧ closedNext behind = 1 ∧
        before.foldl openBehind [] = [false, false] ∧
        Indented (before.foldl openBehind []) (before.flatMap Mark.bytes) 2 behind := by
  intro v marks
  have nonneg : (0 : Int) ≤ 12 := by decide
  have short : ((v.format 12).length : Int) ≤ Word.maximum := by decide
  have split : marks = marks.take 12 ++ .line 2 :: marks.drop 13 := by decide
  have indented := (format_breaks_indented v 12 rfl nonneg short).2.1 _ _ _ split
  exact ⟨rfl, nonneg, short, _, _, split, by decide, by decide, indented⟩

end JsonFit.Json
