import JsonFit.Stock.Config.Line

/-!
# Strings of a configuration file

A string stands between double quotes, where a backslash starts an escape, or
between single quotes, where it is an ordinary character.  Between three quotes
of either kind a string may have many lines.
-/

namespace JsonFit.Stock.Config

/-- The byte that a one-letter escape stands for. -/
def escapeLetter? (b : UInt8) : Option UInt8 :=
  match b with
  | Ascii.letterB => some Ascii.backspace
  | Ascii.letterT => some Ascii.tab
  | Ascii.letterN => some Ascii.lineFeed
  | Ascii.letterF => some Ascii.formFeed
  | Ascii.letterR => some Ascii.carriageReturn
  | Ascii.quotationMark => some Ascii.quotationMark
  | Ascii.backslash => some Ascii.backslash
  | _ => none

/-- The encoding of the character with the given hexadecimal digits. -/
def escapedPoint? (digits : List UInt8) : Option Bytes := do
  let point ← digits.foldlM (fun n d => (Ascii.hexValue? d).map (16 * n + ·)) 0
  if Utf8.isScalar point then some (Utf8.encode point) else none

/-- Reads the rest of a string behind its opening double quote. -/
def basicString? : Bytes → Option (Bytes × Bytes)
  | [] => none
  | b :: rest =>
      if b = Ascii.quotationMark then some ([], rest)
      else if b = Ascii.lineFeed then none
      else if b ≠ Ascii.backslash then (basicString? rest).map fun (s, others) => (b :: s, others)
      else
        match rest with
        | Ascii.letterU :: d₁ :: d₂ :: d₃ :: d₄ :: rest => do
            let point ← escapedPoint? [d₁, d₂, d₃, d₄]
            let (s, others) ← basicString? rest
            some (point ++ s, others)
        | Ascii.capitalU :: d₁ :: d₂ :: d₃ :: d₄ :: d₅ :: d₆ :: d₇ :: d₈ :: rest => do
            let point ← escapedPoint? [d₁, d₂, d₃, d₄, d₅, d₆, d₇, d₈]
            let (s, others) ← basicString? rest
            some (point ++ s, others)
        | letter :: rest => do
            let decoded ← escapeLetter? letter
            let (s, others) ← basicString? rest
            some (decoded :: s, others)
        | [] => none

/-- Reads the rest of a string behind its opening single quote. -/
def literalString? (text : Bytes) : Option (Bytes × Bytes) :=
  let inside := text.takeWhile fun b => b != Ascii.apostrophe && b != Ascii.lineFeed
  match text.drop inside.length with
  | Ascii.apostrophe :: rest => some (inside, rest)
  | _ => none

/-- Reads the rest of a string of many lines behind its opening three double
quotes; the result is the text behind it.

Up to two quotation marks may stand in front of the three that close the string.
What has been read ends in the given number of quotation marks, in front of which
a backslash may stand: it takes a place of its own, so that behind it one more
mark is allowed.  A backslash at the end of a line joins it with the next one;
blanks may stand between them. -/
def longBasicString? : (marks : Nat) → (afterBackslash : Bool) → Bytes → Option Bytes
  | _, _, [] => none
  | marks, afterBackslash, b :: rest =>
      if b = Ascii.quotationMark then
        if rest.take 2 ≠ [Ascii.quotationMark, Ascii.quotationMark] then
          longBasicString? (marks + 1) afterBackslash rest
        else if rest[2]? ≠ some Ascii.quotationMark then some (rest.drop 2)
        else if marks < 2 || (marks == 2 && afterBackslash) then
          longBasicString? (marks + 1) afterBackslash rest
        else none
      else if b ≠ Ascii.backslash then longBasicString? 0 false rest
      else
        match rest with
        | Ascii.letterU :: d₁ :: d₂ :: d₃ :: d₄ :: rest =>
            if (escapedPoint? [d₁, d₂, d₃, d₄]).isSome then longBasicString? 0 false rest
            else none
        | Ascii.capitalU :: d₁ :: d₂ :: d₃ :: d₄ :: d₅ :: d₆ :: d₇ :: d₈ :: rest =>
            if (escapedPoint? [d₁, d₂, d₃, d₄, d₅, d₆, d₇, d₈]).isSome then
              longBasicString? 0 false rest
            else none
        | letter :: rest =>
            if letter = Ascii.quotationMark then longBasicString? 1 true rest
            else if letter = Ascii.backslash then longBasicString? 0 true rest
            else if (escapeLetter? letter).isSome then longBasicString? 0 false rest
            else if ((letter :: rest).dropWhile isBlank).head? = some Ascii.lineFeed then
              longBasicString? 0 false rest
            else none
        | [] => none

/-- Reads the rest of a string of many lines behind its opening three single
quotes; the result is the text behind it.  Up to two quotes may stand in front of
the three that close the string; what has been read ends in the given number of
them. -/
def longLiteralString? : (marks : Nat) → Bytes → Option Bytes
  | _, [] => none
  | marks, b :: rest =>
      if b ≠ Ascii.apostrophe then longLiteralString? 0 rest
      else if rest.take 2 ≠ [Ascii.apostrophe, Ascii.apostrophe] then
        longLiteralString? (marks + 1) rest
      else if rest[2]? ≠ some Ascii.apostrophe then some (rest.drop 2)
      else if marks < 2 then longLiteralString? (marks + 1) rest
      else none

end JsonFit.Stock.Config
