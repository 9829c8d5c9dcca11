import JsonFit.Fault
import JsonFit.Json.Escape
import JsonFit.Number.Shortest

/-!
# JSON values

A value is a tree.  Objects keep the order of their members and keep members
with equal keys.  A string is the raw text between its quotation marks: escapes
are not decoded, and keys are compared raw.

A value may be missing, as the result of a function along a path.  A missing
value has no text; `isComplete` says that a tree holds none.
-/

namespace JsonFit.Json

/-- A JSON value. -/
inductive Value where
  /-- Members in order, each a raw key and a value. -/
  | object (members : List (Bytes × Value))
  /-- Elements in order. -/
  | array (elements : List Value)
  /-- The raw text between quotation marks. -/
  | string (raw : Bytes)
  /-- A number. -/
  | number (x : Binary64)
  /-- A truth value. -/
  | bool (b : Bool)
  /-- The null constant. -/
  | null
  /-- No value at all. -/
  | missing
  deriving Repr

namespace Value

/-- The name of the kind of a value, as messages give it. -/
def kindName : Value → Bytes
  | object _ => Bytes.ofString "ast.Object"
  | array _ => Bytes.ofString "ast.Array"
  | string _ => Bytes.ofString "ast.String"
  | number _ => Bytes.ofString "ast.Number"
  | bool _ => Bytes.ofString "ast.Bool"
  | null => Bytes.ofString "ast.Null"
  | missing => Bytes.ofString "<nil>"

mutual

/-- Is nothing missing in the tree? -/
def isComplete : Value → Bool
  | object members => allMembersComplete members
  | array elements => allComplete elements
  | string _ => true
  | number _ => true
  | bool _ => true
  | null => true
  | missing => false

/-- Is nothing missing in these trees? -/
def allComplete : List Value → Bool
  | [] => true
  | v :: vs => v.isComplete && allComplete vs

/-- Is nothing missing in the values of these members? -/
def allMembersComplete : List (Bytes × Value) → Bool
  | [] => true
  | (_, v) :: ms => v.isComplete && allMembersComplete ms

end

/-- The number of members or elements of a container. -/
def length? : Value → Option Nat
  | object members => some members.length
  | array elements => some elements.length
  | _ => none

/-- The first member with the given raw key. -/
def findMember? (key : Bytes) (members : List (Bytes × Value)) : Option (Bytes × Value) :=
  members.find? fun m => m.1 = key

mutual

/-- The raw strings of a tree in order, a key before its value. -/
def strings : Value → List Bytes
  | object members => memberStrings members
  | array elements => elementStrings elements
  | string raw => [raw]
  | number _ => []
  | bool _ => []
  | null => []
  | missing => []

/-- The raw strings of several trees in order. -/
def elementStrings : List Value → List Bytes
  | [] => []
  | v :: vs => v.strings ++ elementStrings vs

/-- The raw strings of members in order. -/
def memberStrings : List (Bytes × Value) → List Bytes
  | [] => []
  | (key, v) :: ms => key :: (v.strings ++ memberStrings ms)

end

/-- A raw string with its quotation marks. -/
def stringText (raw : Bytes) : Bytes :=
  Ascii.quotationMark :: raw ++ [Ascii.quotationMark]

/-- The text of a truth value. -/
def boolText (b : Bool) : Bytes :=
  Bytes.ofString (if b then "true" else "false")

/-- The text of the null constant. -/
def nullText : Bytes :=
  Bytes.ofString "null"

mutual

/-- Writes the compact text of a value in front of a text. -/
def compactOnto : Value → Bytes → Bytes
  | object members, tail =>
      Ascii.openBrace :: (match members with
        | [] => Ascii.closeBrace :: tail
        | (key, v) :: ms =>
            stringText key ++
              Ascii.colon :: v.compactOnto (compactMembersOnto ms (Ascii.closeBrace :: tail)))
  | array elements, tail =>
      Ascii.openBracket :: (match elements with
        | [] => Ascii.closeBracket :: tail
        | v :: vs => v.compactOnto (compactElementsOnto vs (Ascii.closeBracket :: tail)))
  | string raw, tail => stringText raw ++ tail
  | number x, tail => Decimal.write x ++ tail
  | bool b, tail => boolText b ++ tail
  | null, tail => nullText ++ tail
  | missing, tail => tail

/-- Writes further elements, each behind a comma, in front of a text. -/
def compactElementsOnto : List Value → Bytes → Bytes
  | [], tail => tail
  | v :: vs, tail => Ascii.comma :: v.compactOnto (compactElementsOnto vs tail)

/-- Writes further members, each behind a comma, in front of a text. -/
def compactMembersOnto : List (Bytes × Value) → Bytes → Bytes
  | [], tail => tail
  | (key, v) :: ms, tail =>
      Ascii.comma ::
        (stringText key ++ Ascii.colon :: v.compactOnto (compactMembersOnto ms tail))

end

/-- The compact text of a value, without any white space. -/
def compact (v : Value) : Bytes :=
  v.compactOnto []

/-- As `compact`, with the precondition checked: nothing may be missing. -/
def compact? (v : Value) : Except Fault Bytes :=
  if v.isComplete then .ok v.compact else .error .unwritable

/-- The compact text of a member. -/
def compactMember? (m : Bytes × Value) : Except Fault Bytes :=
  m.2.compact?.map fun text => stringText m.1 ++ Ascii.colon :: text

/-- A description of the members of an object for people. -/
def describeObject (members : List (Bytes × Value)) : Bytes :=
  Bytes.ofString "Object(len=" ++ Bytes.decimal members.length ++ Bytes.ofString ")"

/-- A description of the elements of an array for people. -/
def describeArray (elements : List Value) : Bytes :=
  Bytes.ofString "Array(len=" ++ Bytes.decimal elements.length ++ Bytes.ofString ")"

end Value

end JsonFit.Json
