import JsonFit.Text.Printable
import JsonFit.Text.Utf8

/-!
# Quoted text for messages

Messages show a piece of text between double quotes and a character between
single quotes, in a form that is always printable: what is not printable is
written as an escape.  A stray byte of a text keeps its value as `\xNN`.
-/

namespace JsonFit.Text

open Utf8 (Symbol)

/-- The letter of the one-letter escape of a control character. -/
def controlLetter? (point : Nat) : Option Char :=
  match point with
  | 7 => some 'a'
  | 8 => some 'b'
  | 9 => some 't'
  | 10 => some 'n'
  | 11 => some 'v'
  | 12 => some 'f'
  | 13 => some 'r'
  | _ => none

/-- A character as it stands between quotation marks of the given kind. -/
def quotedPoint (mark : Char) (point : Nat) : Bytes :=
  if point = mark.toNat ∨ point = '\\'.toNat then
    Ascii.backslash :: Utf8.encode point
  else if isPrintable point then Utf8.encode point
  else
    match controlLetter? point with
    | some letter => [Ascii.backslash, Bytes.ofAscii letter]
    | none =>
        if point < 0x20 ∨ point = 0x7F then Bytes.ofString "\\x" ++ Bytes.hex 2 point
        else if point < 0x10000 then Bytes.ofString "\\u" ++ Bytes.hex 4 point
        else Bytes.ofString "\\U" ++ Bytes.hex 8 point

/-- A symbol of a text as it stands between double quotes. -/
def quotedSymbol : Symbol → Bytes
  | .char point => quotedPoint '"' point
  | .stray byte => Bytes.ofString "\\x" ++ Bytes.hex 2 byte.toNat

/-- A text between double quotes. -/
def quoted (text : Bytes) : Bytes :=
  Ascii.quotationMark :: (Utf8.symbols text).flatMap quotedSymbol ++ [Ascii.quotationMark]

/-- A character between single quotes.  A number that is no character shows as
the replacement character. -/
def quotedChar (point : Int) : Bytes :=
  let shown :=
    match point with
    | .ofNat n => if Utf8.isScalar n then n else Utf8.replacement
    | .negSucc _ => Utf8.replacement
  Ascii.apostrophe :: quotedPoint '\'' shown ++ [Ascii.apostrophe]

end JsonFit.Text
