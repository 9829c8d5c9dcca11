import JsonFit.Json.Value
import JsonFit.Text.Quoted

/-!
# Paths into values

A path is a list of steps.  A key selects the first member of an object with
that raw key; an index selects an element of an array, a negative one counted
from the end; a function is applied to the value reached.  When a step fails,
the whole path does, and the root is what remains in hand.
-/

namespace JsonFit.Json

/-- A step of a path.  Functions may fail with an error of type `ε`. -/
inductive Step (ε : Type) where
  /-- Selects a member of an object. -/
  | key (name : Bytes)
  /-- Selects an element of an array. -/
  | index (i : Int)
  /-- Applies a function. -/
  | apply (f : Value → Except ε Value)
  /-- Something of another type, which is no step at all. -/
  | invalid (typeName : Bytes)

/-- The ways in which a step can fail. -/
inductive PathError (ε : Type) where
  /-- A key was applied to something that is not an object. -/
  | notAnObject (kind : Bytes) (name : Bytes)
  /-- The object has no member with this key. -/
  | keyNotFound (name : Bytes)
  /-- An index was applied to something that is not an array. -/
  | notAnArray (kind : Bytes) (i : Int)
  /-- The array has no element with this index. -/
  | indexOutOfBounds (i : Int) (size : Nat)
  /-- The function failed. -/
  | function (e : ε)
  /-- The step is of no known type. -/
  | invalidStep (typeName : Bytes)
  deriving DecidableEq, Repr

namespace PathError

variable {ε : Type}

/-- The wording of a path error, given that of the errors of functions. -/
def message (functionMessage : ε → Bytes) : PathError ε → Bytes
  | notAnObject kind name =>
      Bytes.ofString "cannot traverse " ++ kind ++ Bytes.ofString " with " ++ Text.quoted name
  | keyNotFound name =>
      Bytes.ofString "key " ++ Text.quoted name ++ Bytes.ofString " not found"
  | notAnArray kind i =>
      Bytes.ofString "cannot traverse " ++ kind ++ Bytes.ofString " with " ++
        Bytes.decimalInt i
  | indexOutOfBounds i size =>
      Bytes.ofString "array index " ++ Bytes.decimalInt i ++
        Bytes.ofString " out of bounds (n=" ++ Bytes.decimal size ++ Bytes.ofString ")"
  | function e => functionMessage e
  | invalidStep typeName => Bytes.ofString "invalid path element " ++ typeName

end PathError

namespace Value

variable {ε : Type}

/-- The position that an index selects in an array of the given size. -/
def position? (size : Nat) (i : Int) : Option Nat :=
  let counted := if i < 0 then i + size else i
  if 0 ≤ counted ∧ counted < size then some counted.toNat else none

/-- The element that an index selects. -/
def elementAt? (elements : List Value) (i : Int) : Option Value :=
  (position? elements.length i).bind (elements[·]?)

/-- Goes one step. -/
def step (v : Value) : Step ε → Except (PathError ε) Value
  | .key name =>
      match v with
      | object members =>
          match findMember? name members with
          | some m => .ok m.2
          | none => .error (.keyNotFound name)
      | other => .error (.notAnObject other.kindName name)
  | .index i =>
      match v with
      | array elements =>
          match elementAt? elements i with
          | some element => .ok element
          | none => .error (.indexOutOfBounds i elements.length)
      | other => .error (.notAnArray other.kindName i)
  | .apply f => (f v).mapError .function
  | .invalid typeName => .error (.invalidStep typeName)

/-- Goes a whole path.  The result is the value reached, or the first error. -/
def walk (v : Value) : List (Step ε) → Except (PathError ε) Value
  | [] => .ok v
  | s :: path =>
      match v.step s with
      | .ok next => next.walk path
      | .error e => .error e

/-- Goes a whole path, and gives the root back together with an error. -/
def atPath (root : Value) (path : List (Step ε)) : Value × Option (PathError ε) :=
  match root.walk path with
  | .ok v => (v, none)
  | .error e => (root, some e)

end Value

end JsonFit.Json
