import JsonFit.Fault
import JsonFit.Layout.Elem
import JsonFit.Word

/-!
# Layout to a width

A document is laid out from left to right in one pass that keeps two numbers:
the indentation, and the room that is left on the current line.  A group whose
flat form fits in that room is placed flat; any other group is placed tall, with
its own line breaks kept and its inner groups decided in turn.

The result is a tree of placed elements, which records every decision, and
`render` writes it out.  Both numbers are signed words and wrap around.
-/

namespace JsonFit.Layout

/-- An element of a document that has been laid out. -/
inductive Placed where
  /-- Text. -/
  | text (s : Bytes)
  /-- A line break, and the indentation of the line behind it.  A negative
  indentation counts as none. -/
  | line (indent : Int)
  /-- A group on one line. -/
  | flat (parts : List Elem)
  /-- A group with its line breaks kept. -/
  | tall (parts : List Placed)
  deriving Repr

/-- The state of a layout. -/
structure Room where
  /-- Bytes left on the current line; negative when it is too long already. -/
  rest : Int
  /-- The current indentation. -/
  indent : Int
  deriving DecidableEq, Repr

namespace Room

/-- A fresh line of the given width. -/
def fresh (width : Int) : Room :=
  ⟨width, 0⟩

/-- The room left behind `n` more bytes on the line. -/
def spend (room : Room) (n : Nat) : Room :=
  { room with rest := Word.wrap (room.rest - n) }

/-- The room on a new line whose indentation differs by `delta`. -/
def breakLine (room : Room) (width delta : Int) : Room :=
  let indent := Word.wrap (room.indent + delta)
  ⟨Word.wrap (width - indent), indent⟩

end Room

mutual

/-- Lays out an element. -/
def place (width : Int) : Elem → Room → Placed × Room
  | .literal s, room => (.text s, room.spend s.length)
  | .text s, room => (.text s, room.spend s.length)
  | .newline delta, room =>
      let next := room.breakLine width delta
      (.line next.indent, next)
  | .group parts, room =>
      if (Doc.flatWidth parts : Int) ≤ room.rest then
        (.flat parts, room.spend (Doc.flatWidth parts))
      else
        let (placed, next) := placeAll width parts room
        (.tall placed, next)

/-- Lays out several elements, one behind the other. -/
def placeAll (width : Int) : List Elem → Room → List Placed × Room
  | [], room => ([], room)
  | e :: es, room =>
      let (placed, middle) := place width e room
      let (others, next) := placeAll width es middle
      (placed :: others, next)

end

/-- The placed elements of a document laid out to a width. -/
def layout (width : Int) (d : Doc) : List Placed :=
  (placeAll width d (Room.fresh width)).1

mutual

/-- Writes a placed element in front of a text. -/
def Placed.writeOnto : Placed → Bytes → Bytes
  | .text s, tail => s ++ tail
  | .line indent, tail =>
      Ascii.lineFeed :: (List.replicate indent.toNat Ascii.space ++ tail)
  | .flat parts, tail => Doc.flatOnto parts tail
  | .tall parts, tail => Placed.writeAllOnto parts tail

/-- Writes placed elements in front of a text. -/
def Placed.writeAllOnto : List Placed → Bytes → Bytes
  | [], tail => tail
  | p :: ps, tail => p.writeOnto (Placed.writeAllOnto ps tail)

end

/-- The text of placed elements. -/
def Placed.writeAll (ps : List Placed) : Bytes :=
  Placed.writeAllOnto ps []

/-- A document as text, fitted to a width. -/
def render (width : Int) (d : Doc) : Bytes :=
  Placed.writeAll (layout width d)

/-- As `render`, with the precondition checked. -/
def render? (width : Int) (d : Doc) : Except Fault Bytes :=
  if width < 0 then .error (.negativeWidth width) else .ok (render width d)

end JsonFit.Layout
