import JsonFit.Command.Libraries
import JsonFit.Number.Integer

/-!
# Command lines

A flag has a long name, and some have a letter.  A value is given behind an equals
sign or as the next argument; behind a letter it may also follow at once.  Switches
and counters need no value, and their letters may stand together.  Flags and operands
may come in any order; `--` ends the flags.

The command line is invalid as a whole if any part of it is, or if it has more than
one operand.
-/

namespace JsonFit.Stock

open Command (Flags Invocation)

/-- The flags of the command. -/
inductive Flag where
  | width
  | jwcc
  | path
  | interactive
  | config
  | verbose
  | help
  deriving DecidableEq, Repr

namespace Flag

/-- The flag with a long name. -/
def ofName? (name : Bytes) : Option Flag :=
  [("width", width), ("jwcc", jwcc), ("path", path), ("interactive", interactive),
    ("config", config), ("verbose", verbose), ("help", help)].find?
      (fun entry => Bytes.ofString entry.1 = name) |>.map (·.2)

/-- The flag with a letter. -/
def ofLetter? (letter : UInt8) : Option Flag :=
  match letter with
  | Ascii.letterW => some width
  | Ascii.letterP => some path
  | Ascii.letterI => some interactive
  | Ascii.letterV => some verbose
  | Ascii.letterH => some help
  | _ => none

/-- The value of a flag that is given without one. -/
def impliedValue? : Flag → Option Bytes
  | jwcc | interactive | help => some (Bytes.ofString "true")
  | verbose => some (Bytes.ofString "+1")
  | width | path | config => none

end Flag

/-- What has been read of the flags. -/
structure Given extends Flags where
  /-- How much to log, if given. -/
  verbose : Option Int := none
  /-- Is help asked for? -/
  help : Bool := false

/-- The truth value that a text stands for. -/
def readBool? (text : Bytes) : Option Bool :=
  if (["1", "t", "T", "TRUE", "true", "True"].map Bytes.ofString).contains text then some true
  else if (["0", "f", "F", "FALSE", "false", "False"].map Bytes.ofString).contains text then
    some false
  else none

/-- Gives a flag a value.  Of several values of a flag the last one counts,
except that the elements of a path and the counts of verbosity add up. -/
def Given.set? (flags : Given) (flag : Flag) (value : Bytes) : Option Given :=
  match flag with
  | .width => (Integer.readLiteral? value).map fun n => { flags with width := some n }
  | .jwcc => (readBool? value).map fun b => { flags with jwcc := some b }
  | .path => some { flags with path := flags.path ++ [value] }
  | .interactive => (readBool? value).map fun b => { flags with interactive := b }
  | .config => some { flags with config := value }
  | .verbose =>
      if value = Bytes.ofString "+1" then
        some { flags with verbose := some (Word.wrap (flags.verbose.getD 0 + 1)) }
      else (Integer.readLiteral? value).map fun n => { flags with verbose := some n }
  | .help => (readBool? value).map fun b => { flags with help := b }

/-- What one argument amounts to. -/
inductive Argument where
  /-- No flag at all. -/
  | operand
  /-- The end of the flags. -/
  | terminator
  /-- One or more flags with their values. -/
  | complete (flags : Given)
  /-- A flag whose value is the next argument. -/
  | pending (flags : Given) (flag : Flag)
  /-- No flag of this command, or one with a wrong value. -/
  | invalid

/-- A flag with its value. -/
def withValue (flags : Given) (flag : Flag) (value : Bytes) : Argument :=
  match flags.set? flag value with
  | some flags => .complete flags
  | none => .invalid

/-- An argument behind its two hyphens: a name, and perhaps a value. -/
def longArgument (flags : Given) (text : Bytes) : Argument :=
  let name := text.takeWhile (· != Ascii.equalsSign)
  match Flag.ofName? name with
  | none => .invalid
  | some flag =>
      match text.drop name.length with
      | _ :: value => withValue flags flag value
      | [] =>
          match flag.impliedValue? with
          | some value => withValue flags flag value
          | none => .pending flags flag

/-- Letters that begin so belong to another program and are passed over. -/
def foreignLetters : Bytes :=
  Bytes.ofString "test."

/-- An argument behind its hyphen: letters, and perhaps a value. -/
def shortArgument (flags : Given) : Bytes → Argument
  | [] => .complete flags
  | letter :: rest =>
      if foreignLetters.isPrefixOf (letter :: rest) then .complete flags
      else
        match Flag.ofLetter? letter, rest with
        | none, _ => .invalid
        | some flag, Ascii.equalsSign :: b :: value => withValue flags flag (b :: value)
        | some flag, rest =>
            match flag.impliedValue? with
            | some value =>
                match flags.set? flag value with
                | some flags => shortArgument flags rest
                | none => .invalid
            | none => if rest.isEmpty then .pending flags flag else withValue flags flag rest

/-- What an argument amounts to, behind the given flags. -/
def readArgument (flags : Given) : Bytes → Argument
  | [Ascii.hyphen, Ascii.hyphen] => .terminator
  | Ascii.hyphen :: Ascii.hyphen :: name => longArgument flags name
  | Ascii.hyphen :: b :: rest => shortArgument flags (b :: rest)
  | _ => .operand

/-- Reads a command line behind the given flags: all flags, and the operands in
order. -/
def readArguments? (flags : Given) : List Bytes → Option (Given × List Bytes)
  | [] => some (flags, [])
  | argument :: others =>
      match readArgument flags argument with
      | .operand =>
          (readArguments? flags others).map fun (flags, operands) =>
            (flags, argument :: operands)
      | .terminator => some (flags, others)
      | .complete flags => readArguments? flags others
      | .pending flags flag =>
          match others with
          | [] => none
          | value :: others =>
              match flags.set? flag value with
              | some flags => readArguments? flags others
              | none => none
      | .invalid => none

/-- The lines of the help text. -/
def helpLines : List String :=
  ["Read a JSON value and pretty-print it to fit a line width.",
    "",
    "If a file is provided, the value is read from it; otherwise it is read",
    "from stdin. With --interactive, each line of input is parsed and printed",
    "on its own.",
    "",
    "Each --path element selects an object key, or an array index if it is an",
    "integer. Negative indices count back from the end of the array.",
    "",
    "Only whitespace may follow the value. Any other trailing input is reported",
    "as an error.",
    "",
    "Usage:",
    "  jpp [file] [flags]",
    "",
    "Flags:",
    "      --config string      read default settings from this TOML file",
    "  -h, --help               help for jpp",
    "  -i, --interactive        parse and print each input line separately",
    "      --jwcc               accept comments and trailing commas in the input",
    "  -p, --path stringArray   select a value by key or index (repeatable)",
    "  -v, --verbose count      increase log verbosity (repeatable)",
    "  -w, --width int          target line width (default 80)"]

/-- The help text. -/
def helpText : Bytes :=
  helpLines.flatMap fun line => Bytes.ofString line ++ [Ascii.lineFeed]

/-- What a command line amounts to. -/
def invocation (arguments : List Bytes) : Invocation :=
  match readArguments? {} arguments with
  | none => .refused (Bytes.ofString "invalid flag")
  | some (given, operands) =>
      if given.help then .answered helpText
      else
        match operands with
        | [] => .call given.toFlags none
        | [operand] => .call given.toFlags (some operand)
        | _ => .refused (Bytes.ofString "too many arguments")

end JsonFit.Stock
