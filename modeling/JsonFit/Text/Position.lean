import JsonFit.Bytes

/-!
# Lines and columns

Lines are counted from one and end at a line feed; columns are counted in bytes
from zero.  An offset outside the text counts as the nearer end of it.
-/

namespace JsonFit.Text

/-- A place in a text as people speak of it. -/
structure Position where
  /-- Line number, from one. -/
  line : Nat
  /-- Bytes before the place in its line. -/
  column : Nat
  deriving DecidableEq, Repr

namespace Position

/-- The position behind the given text: one line more than it has line feeds,
and as many columns as bytes follow the last of them. -/
def after (head : Bytes) : Position where
  line := head.count Ascii.lineFeed + 1
  column := (head.reverse.takeWhile (· != Ascii.lineFeed)).length

/-- The position of an offset in a text. -/
def ofOffset (text : Bytes) (offset : Int) : Position :=
  after (text.take offset.toNat)

/-- Offsets before the text count as its start. -/
theorem ofOffset_of_neg {offset : Int} (text : Bytes) (h : offset < 0) :
    ofOffset text offset = ofOffset text 0 := by
  have zero : offset.toNat = 0 := by omega
  simp [ofOffset, zero]

/-- Offsets behind the text count as its end. -/
theorem ofOffset_of_length_le {offset : Int} (text : Bytes) (h : text.length ≤ offset) :
    ofOffset text offset = ofOffset text text.length := by
  have low : text.length ≤ offset.toNat := by omega
  simp [ofOffset, List.take_of_length_le low]

end Position

end JsonFit.Text
