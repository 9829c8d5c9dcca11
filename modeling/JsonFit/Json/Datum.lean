import JsonFit.Json.Value

/-!
# Values from data

A datum is plain data of a program: nothing, a truth value, a text, a number of
some machine type, a sequence, a mapping from texts, or something of another type.
`toValue` gives its JSON value.  Texts and keys are quoted; numbers are rounded to
double precision; the members of a mapping come in increasing order of their keys,
byte by byte, so that the result does not depend on the order in which a mapping
lists them.  Some types have no JSON form.
-/

namespace JsonFit.Json

/-- The machine types of integers. -/
inductive IntegerType where
  | int
  | int8
  | int16
  | int32
  | int64
  | uint
  | uint8
  | uint16
  | uint32
  | uint64
  deriving DecidableEq, Repr

namespace IntegerType

/-- The name of the type. -/
def name : IntegerType → Bytes
  | int => Bytes.ofString "int"
  | int8 => Bytes.ofString "int8"
  | int16 => Bytes.ofString "int16"
  | int32 => Bytes.ofString "int32"
  | int64 => Bytes.ofString "int64"
  | uint => Bytes.ofString "uint"
  | uint8 => Bytes.ofString "uint8"
  | uint16 => Bytes.ofString "uint16"
  | uint32 => Bytes.ofString "uint32"
  | uint64 => Bytes.ofString "uint64"

/-- Do integers of this type have a JSON form? -/
def isSupported : IntegerType → Bool
  | int | int32 | int64 | uint | uint64 => true
  | int8 | int16 | uint8 | uint16 | uint32 => false

end IntegerType

/-- Plain data. -/
inductive Datum where
  /-- Nothing. -/
  | nothing
  /-- A truth value. -/
  | bool (b : Bool)
  /-- A text. -/
  | text (s : Bytes)
  /-- An integer of a machine type. -/
  | integer (type : IntegerType) (n : Int)
  /-- A single-precision number, by its bits. -/
  | single (bits : UInt32)
  /-- A double-precision number. -/
  | double (x : Binary64)
  /-- A sequence of data. -/
  | sequence (items : List Datum)
  /-- A mapping, as a list of its entries in some order. -/
  | mapping (entries : List (Bytes × Datum))
  /-- A JSON value. -/
  | value (v : Value)
  /-- A sequence of texts, which has no JSON form. -/
  | texts (items : List Bytes)
  /-- Anything of another type, which has no JSON form; only the type is known. -/
  | other (typeName : Bytes)

namespace Datum

/-- The entries of a mapping after one more assignment. -/
def assign (entries : List (Bytes × Datum)) (key : Bytes) (d : Datum) :
    List (Bytes × Datum) :=
  match entries with
  | [] => [(key, d)]
  | entry :: others =>
      if entry.1 = key then (key, d) :: others else entry :: assign others key d

/-- The mapping that a list of assignments makes, a later one replacing an
earlier one to the same key. -/
def ofAssignments (assignments : List (Bytes × Datum)) : Datum :=
  mapping (assignments.foldl (fun entries a => assign entries a.1 a.2) [])

/-- Members whose values may be faults, in increasing order of their keys. -/
def sortByKey (members : List (Bytes × Except Fault Value)) :
    List (Bytes × Except Fault Value) :=
  members.mergeSort fun a b => Bytes.le a.1 b.1

/-- The members of an object, unless one of them is a fault; then the first. -/
def collectMembers : List (Bytes × Except Fault Value) → Except Fault (List (Bytes × Value))
  | [] => .ok []
  | (key, result) :: others => do
      let v ← result
      let members ← collectMembers others
      return (Escape.quote key, v) :: members

mutual

/-- The JSON value of a datum. -/
def toValue : Datum → Except Fault Value
  | nothing => .ok .null
  | bool b => .ok (.bool b)
  | text s => .ok (.string (Escape.quote s))
  | integer type n =>
      if type.isSupported then .ok (.number (.ofInt n))
      else .error (.unsupportedType type.name)
  | single bits => .ok (.number (.ofBinary32 bits))
  | double x => .ok (.number x)
  | sequence items => (itemValues items).map .array
  | mapping entries => (collectMembers (sortByKey (entryValues entries))).map .object
  | value v => .ok v
  | texts _ => .error (.unsupportedType (Bytes.ofString "[]string"))
  | other typeName => .error (.unsupportedType typeName)

/-- The JSON values of the items of a sequence, unless one of them is a fault;
then the first. -/
def itemValues : List Datum → Except Fault (List Value)
  | [] => .ok []
  | d :: ds => do
      let v ← d.toValue
      let vs ← itemValues ds
      return v :: vs

/-- The JSON value of each entry of a mapping. -/
def entryValues : List (Bytes × Datum) → List (Bytes × Except Fault Value)
  | [] => []
  | (key, d) :: entries => (key, d.toValue) :: entryValues entries

end

/-- An object member with the given key. -/
def field (key : Bytes) (d : Datum) : Except Fault (Bytes × Value) :=
  d.toValue.map fun v => (Escape.quote key, v)

end Datum

end JsonFit.Json
