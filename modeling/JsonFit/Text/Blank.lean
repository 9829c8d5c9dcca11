import JsonFit.Text.Utf8

/-!
# Blank text

White space is what Unicode calls so: the controls from tab to carriage return,
the next-line control, and the space separators and line separators of every
width.  A text is blank when it holds nothing else.
-/

namespace JsonFit.Text

/-- Is this code point white space? -/
def isWhite (point : Nat) : Bool :=
  (0x09 ≤ point && point ≤ 0x0D) || point == 0x20 || point == 0x85 || point == 0xA0 ||
    point == 0x1680 || (0x2000 ≤ point && point ≤ 0x200A) || point == 0x2028 ||
    point == 0x2029 || point == 0x202F || point == 0x205F || point == 0x3000

/-- Does the text hold nothing but white space? -/
def isBlank (text : Bytes) : Bool :=
  (Utf8.symbols text).all fun
    | .char point => isWhite point
    | .stray _ => false

@[simp]
theorem isBlank_nil : isBlank [] = true :=
  rfl

end JsonFit.Text
