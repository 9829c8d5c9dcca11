import JsonFit.Fault
import JsonFit.Word

/-!
# Cursors

A cursor is a text together with an offset into it.  It is a value: moving
makes a new cursor and leaves the old one as it was.

Offsets are signed words.  `advance` adds to the offset with wrap-around before
it checks the end of the text, so a large enough step can carry a cursor to a
negative offset, from which every view is out of bounds.  `InRange` is the
condition under which all views exist, and `forward` is the step that parsers
use: it never leaves the text.
-/

namespace JsonFit

/-- A text and an offset into it. -/
structure Cursor where
  /-- The whole text. -/
  input : Array UInt8
  /-- The offset, counted in bytes from the start of the text. -/
  offset : Int
  deriving DecidableEq, Repr

namespace Cursor

/-- The cursor at the start of a text. -/
def ofBytes (text : Bytes) : Cursor :=
  ⟨text.toArray, 0⟩

/-- The number of bytes of the whole text. -/
def size (c : Cursor) : Nat :=
  c.input.size

/-- Does the offset lie in the text or just behind it? -/
def InRange (c : Cursor) : Prop :=
  0 ≤ c.offset ∧ c.offset ≤ c.size

instance (c : Cursor) : Decidable c.InRange :=
  inferInstanceAs (Decidable (_ ∧ _))

/-- Is the cursor at the end of its text? -/
def atEnd (c : Cursor) : Bool :=
  decide ((c.size : Int) ≤ c.offset)

/-- The number of bytes from the cursor to the end of its text. -/
def remaining (c : Cursor) : Nat :=
  (c.size - c.offset).toNat

/-- The bytes of the text between two offsets. -/
def slice (c : Cursor) (start stop : Int) : Except Fault Bytes :=
  if 0 ≤ start ∧ start ≤ stop ∧ stop ≤ c.size then
    .ok (c.input.extract start.toNat stop.toNat).toList
  else
    .error .outOfBounds

/-- The text from the cursor to the end. -/
def rest (c : Cursor) : Except Fault Bytes :=
  c.slice c.offset c.size

/-- At most `n` bytes of the text from the cursor on. -/
def peek (c : Cursor) (n : Int) : Except Fault Bytes :=
  if n < (c.size : Int) - c.offset then c.slice c.offset (c.offset + n) else c.rest

/-- The text between an earlier cursor and this one. -/
def since (c start : Cursor) : Except Fault Bytes :=
  c.slice start.offset c.offset

/-- The cursor `n` bytes further on.  The sum wraps around before it is
compared with the length of the text. -/
def advance (c : Cursor) (n : Int) : Except Fault Cursor :=
  if n < 0 ∨ (c.size : Int) < Word.wrap (c.offset + n) then
    .error (.advance n c.offset c.size)
  else
    .ok { c with offset := Word.wrap (c.offset + n) }

/-- The cursor `n` bytes further on, if the text has that many bytes left. -/
def forward (c : Cursor) (n : Nat) : Except Fault Cursor :=
  if c.offset + n ≤ c.size then
    .ok { c with offset := c.offset + n }
  else
    .error (.advance n c.offset c.size)

/-- A description of the cursor for people. -/
def describe (c : Cursor) : Bytes :=
  Bytes.ofString "Cursor(pos=" ++ Bytes.decimalInt c.offset ++
    Bytes.ofString ", len=" ++ Bytes.decimal c.size ++ Bytes.ofString ")"

@[simp]
theorem size_ofBytes (text : Bytes) : (ofBytes text).size = text.length := by
  simp [ofBytes, size]

@[simp]
theorem offset_ofBytes (text : Bytes) : (ofBytes text).offset = 0 :=
  rfl

theorem inRange_ofBytes (text : Bytes) : (ofBytes text).InRange := by
  simp [InRange]

/-- In range, the rest of the text is what remains after dropping the bytes
before the cursor. -/
theorem rest_eq_ok {c : Cursor} (h : c.InRange) :
    c.rest = .ok (c.input.toList.drop c.offset.toNat) := by
  obtain ⟨low, high⟩ := h
  rw [rest, slice, if_pos ⟨low, high, Int.le_refl _⟩]
  simp [size, List.take_of_length_le]

/-- In range, a look ahead is an initial part of the rest of the text. -/
theorem peek_eq_ok {c : Cursor} (h : c.InRange) (n : Nat) :
    c.peek n = .ok ((c.input.toList.drop c.offset.toNat).take n) := by
  obtain ⟨low, high⟩ := h
  unfold peek
  split
  · rename_i short
    rw [slice, if_pos (by omega)]
    simp only [Array.toList_extract, List.extract_eq_take_drop, Except.ok.injEq]
    congr 1
    omega
  · rename_i long
    rw [rest_eq_ok ⟨low, high⟩, List.take_of_length_le]
    simp only [List.length_drop, Array.length_toList]
    simp only [size] at long high
    omega

end Cursor

end JsonFit
