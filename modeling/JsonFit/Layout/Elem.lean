import JsonFit.Bytes

/-!
# Documents

A document is a sequence of elements: fixed text, text from the content, line
breaks that change the indentation, and groups.  The flat form of a document is
one line, with a space for every line break.

`flatWidth` measures the flat form without building it; `length_flat` says that
it measures right.
-/

namespace JsonFit.Layout

/-- An element of a document. -/
inductive Elem where
  /-- Fixed text, such as punctuation. -/
  | literal (s : Bytes)
  /-- Text from the content, such as a number.  It is laid out like fixed
  text. -/
  | text (s : Bytes)
  /-- A line break, which first adds `delta` to the indentation. -/
  | newline (delta : Int)
  /-- A part that is kept on one line if it fits. -/
  | group (parts : List Elem)
  deriving Repr

/-- A complete document.  Its own line breaks are always kept. -/
abbrev Doc := List Elem

mutual

/-- Writes the flat form of an element in front of a text. -/
def Elem.flatOnto : Elem → Bytes → Bytes
  | .literal s, tail => s ++ tail
  | .text s, tail => s ++ tail
  | .newline _, tail => Ascii.space :: tail
  | .group parts, tail => Doc.flatOnto parts tail

/-- Writes the flat form of a document in front of a text. -/
def Doc.flatOnto : List Elem → Bytes → Bytes
  | [], tail => tail
  | e :: es, tail => e.flatOnto (Doc.flatOnto es tail)

end

/-- The flat form of an element. -/
def Elem.flat (e : Elem) : Bytes :=
  e.flatOnto []

/-- The flat form of a document. -/
def Doc.flat (d : Doc) : Bytes :=
  Doc.flatOnto d []

mutual

/-- The length of the flat form of an element. -/
def Elem.flatWidth : Elem → Nat
  | .literal s => s.length
  | .text s => s.length
  | .newline _ => 1
  | .group parts => Doc.flatWidth parts

/-- The length of the flat form of a document. -/
def Doc.flatWidth : List Elem → Nat
  | [] => 0
  | e :: es => e.flatWidth + Doc.flatWidth es

end

mutual

theorem Elem.length_flatOnto (e : Elem) (tail : Bytes) :
    (e.flatOnto tail).length = e.flatWidth + tail.length := by
  cases e with
  | literal s => simp [Elem.flatOnto, Elem.flatWidth]
  | text s => simp [Elem.flatOnto, Elem.flatWidth]
  | newline delta => simp [Elem.flatOnto, Elem.flatWidth, Nat.add_comm]
  | group parts => simpa [Elem.flatOnto, Elem.flatWidth] using Doc.length_flatOnto parts tail

theorem Doc.length_flatOnto (d : List Elem) (tail : Bytes) :
    (Doc.flatOnto d tail).length = Doc.flatWidth d + tail.length := by
  cases d with
  | nil => simp [Doc.flatOnto, Doc.flatWidth]
  | cons e es =>
      rw [Doc.flatOnto, Elem.length_flatOnto, Doc.length_flatOnto, Doc.flatWidth]
      omega

end

/-- The measured width is the length of the flat form. -/
theorem Doc.length_flat (d : Doc) : (Doc.flat d).length = Doc.flatWidth d := by
  simpa [Doc.flat] using Doc.length_flatOnto d []

end JsonFit.Layout
