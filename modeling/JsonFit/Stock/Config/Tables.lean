import JsonFit.Stock.Config.Statement

/-!
# Tables of a configuration file

The statements of a file define a tree of tables.  A key may be defined once,
with three exceptions that this module keeps track of: a table that is only
implied by a longer key may be given a header of its own once; a key that holds
an array may be defined again; and each header of a series of tables adds an
element to it.

`Tables.ofStatements?` puts all statements together, in their order, and fails on
the first one that is not allowed.
-/

namespace JsonFit.Stock.Config

/-- What a key holds. -/
inductive Content where
  /-- A value without parts. -/
  | scalar (s : Scalar)
  /-- An array. -/
  | list
  /-- A table. -/
  | table (members : List (Bytes × Content))
  /-- A series of tables, of which only the last one can still change. -/
  | series (last : List (Bytes × Content))
  deriving Repr

/-- Keys of one table, with what they hold. -/
abbrev Members := List (Bytes × Content)

namespace Content

/-- The members that a longer key leads to. -/
def members? : Content → Option Members
  | table members => some members
  | series last => some last
  | _ => none

/-- The same kind of content with other members. -/
def withMembers (members : Members) : Content → Content
  | series _ => series members
  | _ => table members

end Content

namespace Members

/-- Lets a key hold something, whatever it held before. -/
def put (name : Bytes) (c : Content) : Members → Members
  | [] => [(name, c)]
  | m :: ms => if m.1 = name then (name, c) :: ms else m :: put name c ms

/-- The members of the table that a key leads to. -/
def at? : (context : Key) → Members → Option Members
  | [], ms => some ms
  | part :: parts, ms => do
      let c ← ms.lookup part
      let inner ← c.members?
      at? parts inner

/-- Puts something into the table that a key leads to. -/
def putAt : (context : Key) → Bytes → Content → Members → Members
  | [], name, c, ms => put name c ms
  | part :: parts, name, c, ms =>
      match ms.lookup part with
      | some old => put part (old.withMembers (putAt parts name c (old.members?.getD []))) ms
      | none => ms

/-- Puts something into a table at a dotted key, with all tables on the way that
do not exist yet.  It fails where something else is in the way. -/
def nest? : (parents : Key) → Bytes → Content → Members → Option Members
  | [], name, c, ms => some (put name c ms)
  | part :: parts, name, c, ms =>
      match ms.lookup part with
      | none => (nest? parts name c []).map fun inner => put part (.table inner) ms
      | some (.table old) => (nest? parts name c old).map fun inner => put part (.table inner) ms
      | some _ => none

end Members

/-- The tables that have been defined so far. -/
structure Tables where
  /-- The members of the outermost table. -/
  root : Members := []
  /-- All keys that have been written, in order. -/
  keys : List Key := []
  /-- The keys that are only implied by longer ones. -/
  implied : List Key := []
  /-- The keys whose latest value is an array. -/
  lists : List Key := []
  deriving Repr

namespace Tables

/-- Records a key as written. -/
def record (t : Tables) (key : Key) : Tables :=
  { t with keys := t.keys ++ [key] }

/-- Marks a key as implied. -/
def imply (t : Tables) (key : Key) : Tables :=
  { t with implied := key :: t.implied }

/-- Marks a key as not implied. -/
def settle (t : Tables) (key : Key) : Tables :=
  { t with implied := t.implied.filter (· != key) }

/-- Marks a key as one that holds an array, or as one that does not. -/
def mark (t : Tables) (key : Key) (isList : Bool) : Tables :=
  let others := t.lists.filter (· != key)
  { t with lists := if isList then key :: others else others }

/-- The key under which the kind of a value is marked.  A key whose last part is
empty shares the mark of its table, unless that is the outermost one. -/
def markedKey (context : Key) (name : Bytes) : Key :=
  if name.isEmpty && !context.isEmpty then context else context ++ [name]

/-- Defines a key of a table.  If it is defined already, an array is replaced, and
an implied table is kept and is implied no longer. -/
def define? (t : Tables) (context : Key) (name : Bytes) (c : Content) : Option Tables := do
  let members ← Members.at? context t.root
  let key := context ++ [name]
  let defined := { t with root := Members.putAt context name c t.root }
  if (members.lookup name).isNone then some defined
  else if t.lists.contains key then some (defined.settle key)
  else if t.implied.contains key then some (t.settle key)
  else none

/-- Makes sure that there are tables on the way along a key. -/
def openParents? : (context parts : Key) → Tables → Option Tables
  | _, [], t => some t
  | context, part :: parts, t => do
      let members ← Members.at? context t.root
      let key := context ++ [part]
      match members.lookup part with
      | none =>
          let opened := { t with root := Members.putAt context part (.table []) t.root }
          openParents? key parts (opened.imply key)
      | some c => if c.members?.isSome then openParents? key parts t else none

/-- Defines a table. -/
def openTable? (t : Tables) (key : Key) : Option Tables := do
  let name ← key.getLast?
  let t ← openParents? [] key.dropLast t
  t.define? key.dropLast name (.table [])

/-- Adds an element to a series of tables. -/
def openElement? (t : Tables) (key : Key) : Option Tables := do
  let name ← key.getLast?
  let t ← openParents? [] key.dropLast t
  let members ← Members.at? key.dropLast t.root
  let opened := { t with root := Members.putAt key.dropLast name (.series []) t.root }
  match members.lookup name with
  | none | some (.series _) => some opened
  | some _ => none

/-- Opens the implied tables along a dotted key inside a table, one after the
other; the result holds the innermost one. -/
def openImplied? : (parts context : Key) → Tables → Option (Tables × Key)
  | [], context, t => some (t, context)
  | part :: parts, context, t => do
      let key := context ++ [part]
      let t ← (t.imply key).openTable? key
      openImplied? parts key t

/-- Gets ready to give a key a value: opens the tables on the way and records the
key. -/
def prepare? (t : Tables) (context key : Key) : Option (Tables × Key × Bytes) := do
  let name ← key.getLast?
  let (t, context) ← openImplied? key.dropLast context t
  some (t.record (context ++ [name]), context, name)

/-- Gives a key its value. -/
def finish? (t : Tables) (context : Key) (name : Bytes) (c : Content) : Option Tables := do
  let t ← t.define? context name c
  let isList :=
    match c with
    | .list => true
    | _ => false
  some (t.mark (markedKey context name) isList)

mutual

/-- What a value is, with all keys inside it defined.  A key counts as holding an
array as soon as the array begins, and a table inside an array is an element of a
series until the array ends. -/
def evaluate? (inList : Bool) (t : Tables) (context : Key) (name : Bytes) :
    Node → Option (Tables × Content)
  | .scalar s => some (t, .scalar s)
  | .list items => do
      let t ← evaluateItems? (t.mark (markedKey context name) true) context name items
      some (t, .list)
  | .table members => do
      let key := context ++ [name]
      let t ← if inList then (t.imply key).openElement? key else (t.imply key).openTable? key
      let (t, contents) ← evaluateMembers? t key [] members
      some (t, .table contents)

/-- Defines all keys inside the items of an array. -/
def evaluateItems? (t : Tables) (context : Key) (name : Bytes) : List Node → Option Tables
  | [] => some t
  | item :: items => do
      let (t, _) ← evaluate? true t context name item
      evaluateItems? t context name items

/-- Defines the members of a table between braces, and collects what it holds. -/
def evaluateMembers? (t : Tables) (context : Key) (contents : Members) :
    List (Key × Node) → Option (Tables × Members)
  | [] => some (t, contents)
  | (key, value) :: members => do
      let (t, inner, name) ← t.prepare? context key
      let (t, c) ← evaluate? false t inner name value
      let t ← t.finish? inner name c
      let contents ← Members.nest? key.dropLast name c contents
      evaluateMembers? t context contents members

end

/-- Gives a key of a table a value. -/
def assign? (t : Tables) (context key : Key) (value : Node) : Option Tables := do
  let (t, inner, name) ← t.prepare? context key
  let (t, c) ← evaluate? false t inner name value
  t.finish? inner name c

/-- Carries out one statement.  The key beside the tables is that of the current
one. -/
def step? : Tables × Key → Statement → Option (Tables × Key)
  | (t, context), .assignment key value => (t.assign? context key value).map (·, context)
  | (t, _), .header key => (t.openTable? key).map fun t => ((t.mark key false).record key, key)
  | (t, _), .element key =>
      (t.openElement? key).map fun t => ((t.mark key false).record key, key)

/-- The tables that some statements define. -/
def ofStatements? (statements : List Statement) : Option Tables :=
  (statements.foldlM step? ({}, [])).map (·.1)

end Tables

/-- The tables of a configuration file, unless it is malformed. -/
def readTables? (file : Bytes) : Option Tables := do
  let statements ← readStatements? file
  Tables.ofStatements? statements

end JsonFit.Stock.Config
