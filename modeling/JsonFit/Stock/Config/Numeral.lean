import JsonFit.Stock.Config.Key
import JsonFit.Number.Integer

/-!
# Numbers of a configuration file

An integer is decimal with an optional sign, or has a base and no sign.  A float
has a fraction, an exponent or both, or is the name of infinity or of what is no
number.  Underscores may stand between digits, and a number has no zeros in front
of its digits.
-/

namespace JsonFit.Stock.Config

/-- Does every underscore of a number stand between two digits? -/
def underscoresSurrounded : (afterDigit : Bool) → Bytes → Bool
  | afterDigit, [] => afterDigit
  | afterDigit, b :: rest =>
      (b != Ascii.underscore || afterDigit) && underscoresSurrounded (Ascii.hexValue? b).isSome rest

/-- Does a number have a zero in front that it may not have?  A base may be
given behind a zero, but not behind a sign, and a digit follows it. -/
def hasLeadingZero : Bytes → Bool
  | Ascii.zero :: b :: rest =>
      !((b == Ascii.letterB || b == Ascii.letterO || b == Ascii.letterX) &&
        (rest.head?.bind Ascii.hexValue?).isSome)
  | sign :: Ascii.zero :: _ :: _ => sign == Ascii.plus || sign == Ascii.hyphen
  | _ => false

/-- Reads an integer. -/
def integer? (token : Bytes) : Option Int :=
  if underscoresSurrounded false token && !hasLeadingZero token then
    Integer.readLiteral? token
  else none

/-- The marks that part a float: the point and the mark of the exponent. -/
def partsFloat (b : UInt8) : Bool :=
  b == Ascii.point || b == Ascii.letterE || b == Ascii.capitalE

/-- The non-empty pieces of a text between bytes of a kind. -/
def pieces (isMark : UInt8 → Bool) : Bytes → List Bytes
  | [] => []
  | b :: rest =>
      if isMark b then pieces isMark rest
      else
        match rest, pieces isMark rest with
        | c :: _, piece :: others =>
            if isMark c then [b] :: piece :: others else (b :: piece) :: others
        | _, others => [b] :: others

/-- Does a digit follow every point? -/
def pointsFollowed : Bytes → Bool
  | [] => true
  | Ascii.point :: rest =>
      (match rest with
        | d :: _ => Ascii.isDigit d
        | [] => false) && pointsFollowed rest
  | _ :: rest => pointsFollowed rest

/-- The names of infinity and of what is no number. -/
def specialFloats : List Bytes :=
  ["inf", "+inf", "-inf", "nan", "+nan", "-nan"].map Bytes.ofString

/-- Is this token a float? -/
def isFloat (token : Bytes) : Bool :=
  specialFloats.contains token ||
    (((Decimal.takeSign token).2.head?.map Ascii.isDigit).getD false &&
      token.any partsFloat &&
      (pieces partsFloat token).all (underscoresSurrounded false) &&
      !((pieces partsFloat token).head?.map hasLeadingZero).getD false &&
      pointsFollowed token &&
      (Decimal.read? (token.filter (· != Ascii.underscore))).isSome)

/-- The bytes that a number may hold. -/
def isNumberByte (b : UInt8) : Bool :=
  isBareKeyByte b || b == Ascii.plus || b == Ascii.point

end JsonFit.Stock.Config
