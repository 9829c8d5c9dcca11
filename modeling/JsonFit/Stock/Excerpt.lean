import JsonFit.Bytes

/-!
# Excerpts

An error report shows the beginning of the text at the place of the error.  The
cut never falls inside a character: whatever bytes of a multi-byte character
stand last before the limit are left out, also when the character is complete.
-/

namespace JsonFit.Stock

/-- A byte of the form `10xxxxxx`, which continues a character. -/
def continues (b : UInt8) : Bool :=
  b &&& 0xC0 == 0x80

/-- A byte of the form `11xxxxxx`, which begins a multi-byte character. -/
def begins (b : UInt8) : Bool :=
  b &&& 0xC0 == 0xC0

/-- Takes a multi-byte character, or what there is of it, off the front of a
reversed text. -/
def dropCharacter (reversed : Bytes) : Bytes :=
  match reversed.dropWhile continues with
  | b :: rest => if begins b then rest else b :: rest
  | [] => []

/-- The first bytes of a text, at most `limit` of them. -/
def excerpt (text : Bytes) (limit : Nat) : Bytes :=
  if text.length ≤ limit then text
  else (dropCharacter (text.take limit).reverse).reverse

end JsonFit.Stock
