import JsonFit.Json.Value

/-!
# Derivations of JSON texts

The grammar of the texts that this library reads, as a relation between a text
and the tree that it stands for.  It says nothing about how a text is read: no
order of alternatives, no position, no failure.

The grammar is more liberal than JSON itself.  Between quotation marks any byte
but a quotation mark may stand, and a number is any run of number characters
that has a value.  Elements and members are kept in order, equal keys included.
-/

namespace JsonFit.Json

open Value (stringText)

variable {α β κ : Type}

/-- White space: any number of spaces, tabs, line feeds and carriage returns. -/
def Blank (w : Bytes) : Prop :=
  ∀ b ∈ w, b = Ascii.space ∨ b = Ascii.tab ∨ b = Ascii.lineFeed ∨ b = Ascii.carriageReturn

@[simp]
theorem blank_nil : Blank [] :=
  List.forall_mem_nil _

/-- An item with white space around it. -/
def Spaced (Item : Bytes → α → Prop) (s : Bytes) (a : α) : Prop :=
  ∃ w₁ t w₂, Blank w₁ ∧ Item t a ∧ Blank w₂ ∧ s = w₁ ++ t ++ w₂

/-- One or more items, with a comma between each two of them that may have white
space on both sides. -/
inductive Listed (Item : Bytes → α → Prop) : Bytes → List α → Prop where
  /-- The last item. -/
  | last {t : Bytes} {a : α} (item : Item t a) : Listed Item t [a]
  /-- An item in front of others. -/
  | cons {t w₁ w₂ rest : Bytes} {a : α} {as : List α} (item : Item t a) (before : Blank w₁)
      (behind : Blank w₂) (others : Listed Item rest as) :
      Listed Item (t ++ w₁ ++ Ascii.comma :: w₂ ++ rest) (a :: as)

/-- Items between two brackets, or only white space between them. -/
inductive Bracketed (opening closing : UInt8) (Item : Bytes → α → Prop) :
    Bytes → List α → Prop where
  /-- No items. -/
  | empty {w : Bytes} (inside : Blank w) :
      Bracketed opening closing Item (opening :: w ++ [closing]) []
  /-- One or more items. -/
  | items {w₁ body w₂ : Bytes} {as : List α} (before : Blank w₁) (listed : Listed Item body as)
      (behind : Blank w₂) :
      Bracketed opening closing Item (opening :: w₁ ++ body ++ w₂ ++ [closing]) as

/-- A member of an object: a string, a colon and a value.  What the inside of the string
says of the key, and what the text of the value says of the value, is left open. -/
inductive MemberText (Names : Bytes → κ → Prop) (ValueText : Bytes → β → Prop) :
    Bytes → κ × β → Prop where
  /-- The only form of a member. -/
  | mk {raw w₁ w₂ t : Bytes} {key : κ} {b : β} (name : Names raw key) (before : Blank w₁)
      (behind : Blank w₂) (value : ValueText t b) :
      MemberText Names ValueText (stringText raw ++ w₁ ++ Ascii.colon :: w₂ ++ t) (key, b)

/-- The inside of a string is of a kind, and is the key itself. -/
def Verbatim (Body : Bytes → Prop) (raw key : Bytes) : Prop :=
  Body raw ∧ raw = key

/-- The text `t`, without white space around it, stands for the value `v`. -/
inductive Derives : Bytes → Value → Prop where
  /-- An array. -/
  | array {t : Bytes} {vs : List Value}
      (elements : Bracketed Ascii.openBracket Ascii.closeBracket Derives t vs) :
      Derives t (.array vs)
  /-- An object. -/
  | object {t : Bytes} {ms : List (Bytes × Value)}
      (members : Bracketed Ascii.openBrace Ascii.closeBrace
        (MemberText (Verbatim (Ascii.quotationMark ∉ ·)) Derives) t ms) :
      Derives t (.object ms)
  /-- A string. -/
  | string {raw : Bytes} (unquoted : Ascii.quotationMark ∉ raw) :
      Derives (stringText raw) (.string raw)
  /-- The null constant. -/
  | null : Derives (Bytes.ofString "null") .null
  /-- The truth value `true`. -/
  | true : Derives (Bytes.ofString "true") (.bool Bool.true)
  /-- The truth value `false`. -/
  | false : Derives (Bytes.ofString "false") (.bool Bool.false)
  /-- A number. -/
  | number {run : Bytes} {x : Binary64} (some : run ≠ [])
      (characters : ∀ b ∈ run, b ∈ Bytes.ofString "-+.eE0123456789")
      (denotes : Decimal.read? run = Option.some x) : Derives run (.number x)

/-- A member of an object whose value derives. -/
abbrev DerivedMember : Bytes → Bytes × Value → Prop :=
  MemberText (Verbatim (Ascii.quotationMark ∉ ·)) Derives

end JsonFit.Json
