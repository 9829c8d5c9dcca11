import JsonFit.Json.Value
import JsonFit.Layout.Placed

/-!
# JSON fitted to a width

A container that is not empty becomes a group: the opening bracket, a line break
that indents by two, the elements with a comma and a line break between them, a
line break back, and the closing bracket.  Empty containers and all other values
are plain text at every width.
-/

namespace JsonFit.Json.Value

open Layout (Elem)

/-- The two spaces by which the inside of a container is indented. -/
abbrev indentation : Int := 2

/-- What stands between two elements. -/
def separator : List Elem :=
  [.literal [Ascii.comma], .newline 0]

/-- What stands between a key and its value. -/
def keySeparator : Elem :=
  .literal [Ascii.colon, Ascii.space]

mutual

/-- The document element of a value.  A missing value has no text. -/
def elem : Value → Elem
  | object [] => .literal [Ascii.openBrace, Ascii.closeBrace]
  | object ((key, v) :: ms) =>
      .group (.literal [Ascii.openBrace] :: .newline indentation :: .text (stringText key) ::
        keySeparator :: v.elem ::
        (furtherMembers ms ++ [.newline (-indentation), .literal [Ascii.closeBrace]]))
  | array [] => .literal [Ascii.openBracket, Ascii.closeBracket]
  | array (v :: vs) =>
      .group (.literal [Ascii.openBracket] :: .newline indentation :: v.elem ::
        (furtherElements vs ++ [.newline (-indentation), .literal [Ascii.closeBracket]]))
  | string raw => .text (stringText raw)
  | number x => .text (Decimal.write x)
  | bool b => .text (boolText b)
  | null => .text nullText
  | missing => .text []

/-- Further elements, each behind a separator. -/
def furtherElements : List Value → List Elem
  | [] => []
  | v :: vs => separator ++ v.elem :: furtherElements vs

/-- Further members, each behind a separator. -/
def furtherMembers : List (Bytes × Value) → List Elem
  | [] => []
  | (key, v) :: ms =>
      separator ++ .text (stringText key) :: keySeparator :: v.elem :: furtherMembers ms

end

/-- The document of a value. -/
def doc (v : Value) : Layout.Doc :=
  [v.elem]

/-- The text of a value fitted to a width. -/
def format (width : Int) (v : Value) : Bytes :=
  Layout.render width v.doc

/-- As `format`, with the preconditions checked: nothing may be missing, and the
width may not be negative. -/
def format? (width : Int) (v : Value) : Except Fault Bytes :=
  if v.isComplete then Layout.render? width v.doc else .error .missingValue

/-- A complete value is fitted to every width that is not negative. -/
theorem format?_eq_ok {v : Value} (complete : v.isComplete = true) {width : Int}
    (nonneg : 0 ≤ width) : v.format? width = .ok (v.format width) := by
  rw [format?, if_pos complete, Layout.render?, if_neg (Int.not_lt.mpr nonneg)]
  rfl

end JsonFit.Json.Value
