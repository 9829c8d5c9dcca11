import JsonFit.Stock.Config.Moment
import JsonFit.Stock.Config.Numeral

/-!
# Statements of a configuration file

A configuration file is a TOML text: assignments `key = value`, headers of tables
`[key]` and of elements of a series of tables `[[key]]`, and comments.  Of the
values only what a program can ask for is kept, but all of them must be well
formed.

This module reads a text as a list of statements; any malformed line makes the
whole text unreadable.  Which statements may stand together is a matter of the
tables that they define.
-/

namespace JsonFit.Stock.Config

/-- A value without parts. -/
inductive Scalar where
  /-- A signed 64-bit integer. -/
  | integer (n : Int)
  /-- A number with a fraction or an exponent. -/
  | float
  /-- A truth value. -/
  | bool (b : Bool)
  /-- A string. -/
  | text
  /-- A date, a time, or both. -/
  | moment
  deriving DecidableEq, Repr

/-- A value as it is written. -/
inductive Node where
  /-- A value without parts. -/
  | scalar (s : Scalar)
  /-- An array. -/
  | list (items : List Node)
  /-- A table between braces. -/
  | table (members : List (Key × Node))
  deriving Repr

/-- A statement of a configuration file. -/
inductive Statement where
  /-- Gives a key of the current table a value. -/
  | assignment (key : Key) (value : Node)
  /-- Makes a table current. -/
  | header (key : Key)
  /-- Makes a new element of a series of tables current. -/
  | element (key : Key)
  deriving Repr

/-- Reads a number. -/
def number? (token : Bytes) : Option Scalar :=
  match integer? token with
  | some n => some (.integer n)
  | none => if isFloat token then some .float else none

/-- Reads a truth value, a moment or a number. -/
def word? (text : Bytes) : Option (Scalar × Bytes) :=
  match moment? text with
  | some result => result.map fun rest => (.moment, rest)
  | none =>
      let token := text.takeWhile isNumberByte
      let rest := text.drop token.length
      if token = Bytes.ofString "true" then some (.bool true, rest)
      else if token = Bytes.ofString "false" then some (.bool false, rest)
      else (number? token).map fun n => (n, rest)

/-- Reads a string. -/
def string? : Bytes → Option Bytes
  | Ascii.quotationMark :: Ascii.quotationMark :: Ascii.quotationMark :: rest =>
      longBasicString? 0 false rest
  | Ascii.quotationMark :: rest => (basicString? rest).map (·.2)
  | Ascii.apostrophe :: Ascii.apostrophe :: Ascii.apostrophe :: rest =>
      longLiteralString? 0 rest
  | Ascii.apostrophe :: rest => (literalString? rest).map (·.2)
  | _ => none

mutual

/-- Reads a value. -/
def value? : (fuel : Nat) → Bytes → Option (Node × Bytes)
  | 0, _ => none
  | fuel + 1, text =>
      match text with
      | Ascii.quotationMark :: _ | Ascii.apostrophe :: _ =>
          (string? text).map fun rest => (.scalar .text, rest)
      | Ascii.openBracket :: rest =>
          (items? fuel rest).map fun (items, rest) => (.list items, rest)
      | Ascii.openBrace :: rest =>
          match skipBlanks rest with
          | Ascii.closeBrace :: rest => some (.table [], rest)
          | start => (members? fuel start).map fun (members, rest) => (.table members, rest)
      | _ => (word? text).map fun (s, rest) => (.scalar s, rest)

/-- Reads the rest of an array behind its opening bracket, or behind a comma. -/
def items? : (fuel : Nat) → Bytes → Option (List Node × Bytes)
  | 0, _ => none
  | fuel + 1, text =>
      match skipLines text with
      | Ascii.closeBracket :: rest => some ([], rest)
      | start => do
          let (item, rest) ← value? fuel start
          match skipLines rest with
          | Ascii.closeBracket :: rest => some ([item], rest)
          | Ascii.comma :: rest =>
              let (items, rest) ← items? fuel rest
              some (item :: items, rest)
          | _ => none

/-- Reads the members of a table between braces, at least one, and the closing
brace.  All of them stand on one line. -/
def members? : (fuel : Nat) → Bytes → Option (List (Key × Node) × Bytes)
  | 0, _ => none
  | fuel + 1, text => do
      let (key, rest) ← keyPath? text.length text
      let rest ← mark? Ascii.equalsSign rest
      let (value, rest) ← value? fuel (skipBlanks rest)
      match skipBlanks rest with
      | Ascii.closeBrace :: rest => some ([(key, value)], rest)
      | Ascii.comma :: rest =>
          let (members, rest) ← members? fuel rest
          some ((key, value) :: members, rest)
      | _ => none

end

/-- Reads a statement, which may not be blank. -/
def statement? : Bytes → Option (Statement × Bytes)
  | Ascii.openBracket :: Ascii.openBracket :: rest => do
      let (key, rest) ← keyPath? rest.length rest
      let rest ← mark? Ascii.closeBracket rest
      let rest ← mark? Ascii.closeBracket rest
      some (.element key, rest)
  | Ascii.openBracket :: rest => do
      let (key, rest) ← keyPath? rest.length rest
      let rest ← mark? Ascii.closeBracket rest
      some (.header key, rest)
  | text => do
      let (key, rest) ← keyPath? text.length text
      let rest ← mark? Ascii.equalsSign rest
      let start := skipBlanks rest
      let (value, rest) ← value? (2 * start.length + 2) start
      some (.assignment key value, rest)

/-- Reads statements, at most `fuel` of them. -/
def statementsLoop : (fuel : Nat) → Bytes → Option (List Statement)
  | 0, _ => none
  | fuel + 1, text =>
      match skipLines text with
      | [] => some []
      | start => do
          let (statement, rest) ← statement? start
          let rest ← lineEnd? rest
          let others ← statementsLoop fuel rest
          some (statement :: others)

/-- The statements of a configuration file, unless it is malformed. -/
def readStatements? (file : Bytes) : Option (List Statement) := do
  let text := dropMark file
  if !Utf8.isValid text then none
  let plain ← unifyLines? text
  statementsLoop (plain.length + 1) plain

end JsonFit.Stock.Config
