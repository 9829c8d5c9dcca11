import JsonFit.Text.Utf8

/-!
# Escapes of JSON strings

`quote` writes a text as the inside of a JSON string.  Quotation marks,
backslashes and controls are escaped, and so are the line separator and the
paragraph separator; what is not valid UTF-8 becomes an escaped replacement
character.

`unquote` decodes escapes.  It is lenient: an unknown letter and a malformed
`\u` escape decode as the replacement character, and each half of a surrogate
pair stands alone.  It fails only where the text ends inside an escape.
-/

namespace JsonFit.Json.Escape

open Utf8 (Symbol)

/-- The letter of the one-letter escape of a character. -/
def letterOf? (point : Nat) : Option UInt8 :=
  match point with
  | 8 => some Ascii.letterB
  | 9 => some Ascii.letterT
  | 10 => some Ascii.letterN
  | 12 => some Ascii.letterF
  | 13 => some Ascii.letterR
  | 34 => some Ascii.quotationMark
  | 92 => some Ascii.backslash
  | _ => none

/-- The byte that a one-letter escape stands for. -/
def ofLetter? (letter : UInt8) : Option UInt8 :=
  match letter with
  | Ascii.letterB => some Ascii.backspace
  | Ascii.letterT => some Ascii.tab
  | Ascii.letterN => some Ascii.lineFeed
  | Ascii.letterF => some Ascii.formFeed
  | Ascii.letterR => some Ascii.carriageReturn
  | Ascii.quotationMark => some Ascii.quotationMark
  | Ascii.backslash => some Ascii.backslash
  | Ascii.slash => some Ascii.slash
  | _ => none

/-- The four-digit escape of a character below `0x10000`. -/
def unicodeEscape (point : Nat) : Bytes :=
  Ascii.backslash :: Ascii.letterU :: Bytes.hex 4 point

/-- Characters without a letter that are escaped nevertheless. -/
def needsUnicodeEscape (point : Nat) : Bool :=
  point < 0x20 || point == Utf8.replacement || point == 0x2028 || point == 0x2029

/-- A symbol as it stands in a JSON string. -/
def quoteSymbol (s : Symbol) : Bytes :=
  match letterOf? s.point with
  | some letter => [Ascii.backslash, letter]
  | none =>
      if needsUnicodeEscape s.point then unicodeEscape s.point else Utf8.encode s.point

/-- A text as the inside of a JSON string. -/
def quote (text : Bytes) : Bytes :=
  (Utf8.symbols text).flatMap quoteSymbol

/-- The ways in which a text can end inside an escape. -/
inductive Truncation where
  /-- Behind a backslash. -/
  | escape
  /-- Among the digits of a `\u` escape. -/
  | unicode
  deriving DecidableEq, Repr

/-- The wording of a truncation. -/
def Truncation.message : Truncation → Bytes
  | escape => Bytes.ofString "incomplete escape sequence"
  | unicode => Bytes.ofString "incomplete Unicode escape"

/-- The value of four hexadecimal digits; anything else stands for the
replacement character. -/
def hexPoint (a b c d : UInt8) : Nat :=
  match Ascii.hexValue? a, Ascii.hexValue? b, Ascii.hexValue? c, Ascii.hexValue? d with
  | some a, some b, some c, some d => ((a * 16 + b) * 16 + c) * 16 + d
  | _, _, _, _ => Utf8.replacement

/-- Decodes the escapes in the inside of a JSON string. -/
def unquote : Bytes → Except Truncation Bytes
  | [] => .ok []
  | b :: rest =>
      if b ≠ Ascii.backslash then (unquote rest).map (b :: ·)
      else
        match rest with
        | [] => .error .escape
        | letter :: rest =>
            match ofLetter? letter with
            | some decoded => (unquote rest).map (decoded :: ·)
            | none =>
                if letter ≠ Ascii.letterU then
                  (unquote rest).map (Utf8.encode Utf8.replacement ++ ·)
                else
                  match rest with
                  | a :: b :: c :: d :: rest =>
                      (unquote rest).map (Utf8.encode (hexPoint a b c d) ++ ·)
                  | _ => .error .unicode

end JsonFit.Json.Escape
