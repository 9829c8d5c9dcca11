import JsonFit.Stock.Config.Quotation

/-!
# Keys of a configuration file

A key has one or more parts with points between them.  A part of letters, digits,
underscores and hyphens needs no quotation marks; any other one is a string on
one line.
-/

namespace JsonFit.Stock.Config

/-- The parts of a dotted key. -/
abbrev Key := List Bytes

/-- The bytes of keys without quotation marks. -/
def isBareKeyByte (b : UInt8) : Bool :=
  Ascii.isDigit b || Ascii.isLetter b || b == Ascii.underscore || b == Ascii.hyphen

/-- Reads one part of a key. -/
def keyPart? : Bytes → Option (Bytes × Bytes)
  | Ascii.quotationMark :: rest => basicString? rest
  | Ascii.apostrophe :: rest => literalString? rest
  | text =>
      let name := text.takeWhile isBareKeyByte
      if name.isEmpty then none else some (name, text.drop name.length)

/-- Reads a key of at most `fuel` parts with points between them. -/
def keyPath? : (fuel : Nat) → Bytes → Option (Key × Bytes)
  | 0, _ => none
  | fuel + 1, text => do
      let (part, rest) ← keyPart? (skipBlanks text)
      match skipBlanks rest with
      | Ascii.point :: rest =>
          let (parts, others) ← keyPath? fuel rest
          some (part :: parts, others)
      | others => some ([part], others)

/-- A character of a quoted key. -/
def quotedKeyByte (b : UInt8) : Bytes :=
  match b with
  | Ascii.quotationMark => [Ascii.backslash, Ascii.quotationMark]
  | Ascii.backslash => [Ascii.backslash, Ascii.backslash]
  | Ascii.backspace => [Ascii.backslash, Ascii.letterB]
  | Ascii.tab => [Ascii.backslash, Ascii.letterT]
  | Ascii.lineFeed => [Ascii.backslash, Ascii.letterN]
  | Ascii.formFeed => [Ascii.backslash, Ascii.letterF]
  | Ascii.carriageReturn => [Ascii.backslash, Ascii.letterR]
  | _ =>
      if b < Ascii.space || b == Ascii.delete then
        Ascii.backslash :: Ascii.letterU :: Bytes.hex 4 b.toNat
      else [b]

/-- A part of a key as it is written: in double quotes unless it can do
without. -/
def keyPartText (part : Bytes) : Bytes :=
  if !part.isEmpty && part.all isBareKeyByte then part
  else Ascii.quotationMark :: part.flatMap quotedKeyByte ++ [Ascii.quotationMark]

/-- A whole key as it is written. -/
def keyText (key : Key) : Bytes :=
  [Ascii.point].intercalate (key.map keyPartText)

end JsonFit.Stock.Config
