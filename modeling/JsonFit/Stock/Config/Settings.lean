import JsonFit.Command.Libraries
import JsonFit.Stock.Config.Tables

/-!
# Settings from a configuration file

Three settings can be given in a configuration file: the line width, whether the
input is relaxed, and the verbosity.  A key that names a setting but for the
case of its letters is accepted, and its value must have the right type, but it
does not count as defined.  Any other key is left over.
-/

namespace JsonFit.Stock.Config

open Command (Decoded)

/-- The settings that a configuration file may give. -/
inductive Setting where
  | width
  | jwcc
  | verbose
  deriving DecidableEq, Repr

namespace Setting

/-- The name of a setting. -/
def name : Setting → Bytes
  | width => Bytes.ofString "width"
  | jwcc => Bytes.ofString "jwcc"
  | verbose => Bytes.ofString "verbose"

/-- All settings. -/
def all : List Setting :=
  [width, jwcc, verbose]

/-- May a setting have this value? -/
def accepts : Setting → Content → Bool
  | width, .scalar (.integer _) => true
  | jwcc, .scalar (.bool _) => true
  | verbose, .scalar (.integer _) => true
  | _, _ => false

end Setting

/-- One character for all characters that differ in case only.  Apart from the
ASCII letters these are the long s and the Kelvin sign. -/
def foldPoint (point : Nat) : Nat :=
  if 65 ≤ point ∧ point ≤ 90 then point + 32
  else if point = 0x17F then 115
  else if point = 0x212A then 107
  else point

/-- Do two names agree but for case?  The second one must be valid UTF-8. -/
def sameName (name key : Bytes) : Bool :=
  (Utf8.symbols key).map (fun s => foldPoint s.point) ==
    (Utf8.symbols name).map fun s => foldPoint s.point

/-- The setting that a key names, whatever its case. -/
def settingOf? (key : Bytes) : Option Setting :=
  Setting.all.find? fun s => sameName s.name key

/-- Does a member of the outermost table have the right type?  One that is no
setting has. -/
def isTyped (member : Bytes × Content) : Bool :=
  match settingOf? member.1 with
  | some s => s.accepts member.2
  | none => true

/-- Is this the key of a setting, whatever its case? -/
def isSettingKey : Key → Bool
  | [name] => (settingOf? name).isSome
  | _ => false

/-- The settings in the tables of a file, unless some value has a wrong type. -/
def ofTables? (t : Tables) : Option Decoded :=
  if !t.root.all isTyped then none
  else
    some {
      width :=
        match t.root.lookup Setting.width.name with
        | some (.scalar (.integer n)) => n
        | _ => 0
      jwcc :=
        match t.root.lookup Setting.jwcc.name with
        | some (.scalar (.bool b)) => b
        | _ => false
      isDefined := fun key => (t.root.lookup key).isSome
      undecoded := (t.keys.filter fun key => !isSettingKey key).map keyText }

/-- The settings in a configuration file. -/
def decode? (file : Bytes) : Option Decoded :=
  (readTables? file).bind ofTables?

end JsonFit.Stock.Config
