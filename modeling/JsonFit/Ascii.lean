/-!
# ASCII

Names for the bytes that stand for themselves in the formats of this library.
They may be used in patterns.
-/

namespace JsonFit.Ascii

@[match_pattern] abbrev backspace : UInt8 := 8
@[match_pattern] abbrev tab : UInt8 := 9
@[match_pattern] abbrev lineFeed : UInt8 := 10
@[match_pattern] abbrev formFeed : UInt8 := 12
@[match_pattern] abbrev carriageReturn : UInt8 := 13
@[match_pattern] abbrev space : UInt8 := 32
@[match_pattern] abbrev quotationMark : UInt8 := 34
@[match_pattern] abbrev numberSign : UInt8 := 35
@[match_pattern] abbrev apostrophe : UInt8 := 39
@[match_pattern] abbrev asterisk : UInt8 := 42
@[match_pattern] abbrev plus : UInt8 := 43
@[match_pattern] abbrev comma : UInt8 := 44
@[match_pattern] abbrev hyphen : UInt8 := 45
@[match_pattern] abbrev point : UInt8 := 46
@[match_pattern] abbrev slash : UInt8 := 47
@[match_pattern] abbrev zero : UInt8 := 48
@[match_pattern] abbrev colon : UInt8 := 58
@[match_pattern] abbrev equalsSign : UInt8 := 61
@[match_pattern] abbrev capitalE : UInt8 := 69
@[match_pattern] abbrev capitalT : UInt8 := 84
@[match_pattern] abbrev capitalU : UInt8 := 85
@[match_pattern] abbrev capitalZ : UInt8 := 90
@[match_pattern] abbrev openBracket : UInt8 := 91
@[match_pattern] abbrev backslash : UInt8 := 92
@[match_pattern] abbrev closeBracket : UInt8 := 93
@[match_pattern] abbrev underscore : UInt8 := 95
@[match_pattern] abbrev letterB : UInt8 := 98
@[match_pattern] abbrev letterE : UInt8 := 101
@[match_pattern] abbrev letterF : UInt8 := 102
@[match_pattern] abbrev letterH : UInt8 := 104
@[match_pattern] abbrev letterI : UInt8 := 105
@[match_pattern] abbrev letterN : UInt8 := 110
@[match_pattern] abbrev letterO : UInt8 := 111
@[match_pattern] abbrev letterP : UInt8 := 112
@[match_pattern] abbrev letterR : UInt8 := 114
@[match_pattern] abbrev letterT : UInt8 := 116
@[match_pattern] abbrev letterU : UInt8 := 117
@[match_pattern] abbrev letterV : UInt8 := 118
@[match_pattern] abbrev letterW : UInt8 := 119
@[match_pattern] abbrev letterX : UInt8 := 120
@[match_pattern] abbrev letterZ : UInt8 := 122
@[match_pattern] abbrev openBrace : UInt8 := 123
@[match_pattern] abbrev closeBrace : UInt8 := 125
@[match_pattern] abbrev delete : UInt8 := 127

/-- Is this byte a decimal digit? -/
def isDigit (b : UInt8) : Bool :=
  48 ≤ b && b ≤ 57

/-- Is this byte a letter? -/
def isLetter (b : UInt8) : Bool :=
  (65 ≤ b && b ≤ 90) || (97 ≤ b && b ≤ 122)

/-- The lower-case form of a letter; any other byte is unchanged. -/
def toLower (b : UInt8) : UInt8 :=
  if 65 ≤ b ∧ b ≤ 90 then b + 32 else b

/-- The value of a decimal digit. -/
def digitValue (b : UInt8) : Nat :=
  b.toNat - 48

/-- The hexadecimal digit of a number below sixteen, in lower case. -/
def hexDigit (n : Nat) : UInt8 :=
  if n < 10 then UInt8.ofNat (48 + n) else UInt8.ofNat (87 + n)

/-- The value of a hexadecimal digit in either case. -/
def hexValue? (b : UInt8) : Option Nat :=
  if 48 ≤ b ∧ b ≤ 57 then some (b.toNat - 48)
  else if 97 ≤ b ∧ b ≤ 102 then some (b.toNat - 87)
  else if 65 ≤ b ∧ b ≤ 70 then some (b.toNat - 55)
  else none

end JsonFit.Ascii
