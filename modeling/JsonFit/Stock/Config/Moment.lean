import JsonFit.Bytes

/-!
# Dates and times

A moment is a date `2024-02-29`, a time of day `07:32:00`, or both with a `T`
between them, behind which the distance from universal time may stand: `Z`, or
hours and minutes with a sign.  Seconds may have a fraction.  Small letters and a
blank in place of `T` are allowed.

Only whether a text is a moment is of interest here, not which one it is.
-/

namespace JsonFit.Stock.Config

/-- Reads a number of exactly this many digits. -/
def digits? (count : Nat) (text : Bytes) : Option (Nat × Bytes) :=
  let digits := text.take count
  if digits.length = count && digits.all Ascii.isDigit then
    some (Bytes.digitsValue digits, text.drop count)
  else none

/-- Reads one given byte. -/
def mark? (b : UInt8) : Bytes → Option Bytes
  | c :: rest => if c = b then some rest else none
  | [] => none

/-- Does the year have a 29th of February? -/
def isLeap (year : Nat) : Bool :=
  year % 4 == 0 && (year % 100 != 0 || year % 400 == 0)

/-- The number of days of a month. -/
def daysIn (year month : Nat) : Nat :=
  if month = 2 then if isLeap year then 29 else 28
  else if month = 4 ∨ month = 6 ∨ month = 9 ∨ month = 11 then 30
  else 31

/-- Reads a date; the result is the text behind it. -/
def date? (text : Bytes) : Option Bytes := do
  let (year, rest) ← digits? 4 text
  let rest ← mark? Ascii.hyphen rest
  let (month, rest) ← digits? 2 rest
  let rest ← mark? Ascii.hyphen rest
  let (day, rest) ← digits? 2 rest
  if 1 ≤ month ∧ month ≤ 12 ∧ 1 ≤ day ∧ day ≤ daysIn year month then some rest else none

/-- Leaves out a fraction of a second. -/
def skipFraction : Bytes → Bytes
  | Ascii.point :: d :: rest =>
      if Ascii.isDigit d then rest.dropWhile Ascii.isDigit else Ascii.point :: d :: rest
  | text => text

/-- Reads a time of day; the result is the text behind it. -/
def timeOfDay? (text : Bytes) : Option Bytes := do
  let (hour, rest) ← digits? 2 text
  let rest ← mark? Ascii.colon rest
  let (minute, rest) ← digits? 2 rest
  let rest ← mark? Ascii.colon rest
  let (second, rest) ← digits? 2 rest
  if hour < 24 ∧ minute < 60 ∧ second < 60 then some (skipFraction rest) else none

/-- Reads the distance from universal time; the result is the text behind it.
A whole day and a whole hour are allowed as distances. -/
def distance? : Bytes → Option Bytes
  | Ascii.capitalZ :: rest => some rest
  | sign :: rest => do
      if sign ≠ Ascii.plus ∧ sign ≠ Ascii.hyphen then none
      let (hours, rest) ← digits? 2 rest
      let rest ← mark? Ascii.colon rest
      let (minutes, rest) ← digits? 2 rest
      if hours ≤ 24 ∧ minutes ≤ 60 then some rest else none
  | [] => none

/-- One spelling for all marks between the parts of a moment. -/
def momentMark (b : UInt8) : UInt8 :=
  if b = Ascii.letterT ∨ b = Ascii.space then Ascii.capitalT
  else if b = Ascii.letterZ then Ascii.capitalZ
  else b

/-- Is this text a moment? -/
def isMoment (text : Bytes) : Bool :=
  let text := text.map momentMark
  match date? text with
  | some [] => true
  | some (Ascii.capitalT :: rest) =>
      match timeOfDay? rest with
      | some [] => true
      | some rest => distance? rest == some []
      | none => false
  | some _ => false
  | none => timeOfDay? text == some []

/-- The bytes that a moment may hold. -/
def isMomentByte (b : UInt8) : Bool :=
  Ascii.isDigit b || b == Ascii.hyphen || b == Ascii.colon || b == Ascii.capitalT ||
    b == Ascii.letterT || b == Ascii.space || b == Ascii.point || b == Ascii.capitalZ ||
    b == Ascii.letterZ || b == Ascii.plus

/-- The text without the blanks at its end. -/
def trimEnd (text : Bytes) : Bytes :=
  (text.reverse.dropWhile (· == Ascii.space)).reverse

/-- Reads a moment: some digits with a hyphen or a colon behind them start one.
The outer result is `none` where no moment starts, the inner one where it is not
well formed. -/
def moment? (text : Bytes) : Option (Option Bytes) :=
  let digits := text.takeWhile Ascii.isDigit
  let startsHere :=
    match text.drop digits.length with
    | b :: _ => !digits.isEmpty && (b == Ascii.hyphen || b == Ascii.colon)
    | [] => false
  if startsHere then
    let token := text.takeWhile isMomentByte
    some (if isMoment (trimEnd token) then some (text.drop token.length) else none)
  else none

end JsonFit.Stock.Config
