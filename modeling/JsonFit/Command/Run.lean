import JsonFit.Command.Printer
import JsonFit.Command.Reader
import JsonFit.Text.Blank

/-!
# Running the command

The command is a function of its arguments and of an environment: the libraries, the
files, the standard input and the output.  Its result is a transcript of what was
written and how it ended.

The command line comes first, then the configuration file, the width, and the input.
In line mode the input is read line by line, with a line editor if it is a terminal,
and every line that is not blank is printed on its own before the next one is read.
The first error ends the run; a line that does not parse is no error.
-/

namespace JsonFit.Command

open Json (PathError)

/-- All that a run depends on beside its arguments. -/
structure Environment where
  /-- What is done by libraries. -/
  libraries : Libraries
  /-- The files that can be read. -/
  files : Files
  /-- The standard input. -/
  input : Stream
  /-- The line editor, if the standard input is a terminal: what it gives back, read
  after read, or why it cannot be started. -/
  editor : Option (Except Bytes (List (Except EditorStop Bytes))) := none
  /-- Why every write of a printed value to the output fails, if it does. -/
  outputFailure : Option Bytes := none

/-- The ways in which the command can fail. -/
inductive CommandError where
  /-- The command line is invalid. -/
  | usage (reason : Bytes)
  /-- The configuration file cannot be decoded. -/
  | config (reason : Bytes)
  /-- The configuration file holds an unknown setting. -/
  | unknownSetting (key : Bytes)
  /-- The width is negative. -/
  | invalidWidth (width : Int)
  /-- A file was given in line mode. -/
  | fileInLineMode
  /-- The line editor cannot be started. -/
  | noEditor (reason : Bytes)
  /-- The standard input cannot be read. -/
  | unreadableInput (reason : Bytes)
  /-- A file cannot be read. -/
  | unreadableFile (name : Bytes) (e : FileError)
  /-- A line of the standard input cannot be read. -/
  | unreadableLine (reason : Bytes)
  /-- The path leads nowhere. -/
  | path (e : PathError Empty)
  /-- The output cannot be written. -/
  | unwritableOutput (reason : Bytes)
  deriving DecidableEq, Repr

namespace CommandError

/-- The wording of an error. -/
def message : CommandError → Bytes
  | usage reason => reason
  | config reason => Bytes.ofString "load config: " ++ reason
  | unknownSetting key => Bytes.ofString "load config: unknown setting " ++ Text.quoted key
  | invalidWidth width => Bytes.ofString "invalid width " ++ Bytes.decimalInt width
  | fileInLineMode => Bytes.ofString "--interactive does not accept a file argument"
  | noEditor reason => Bytes.ofString "create readline: " ++ reason
  | unreadableInput reason => Bytes.ofString "read stdin: " ++ reason
  | unreadableFile name e => Bytes.ofString "read file: " ++ e.message name
  | unreadableLine reason => reason
  | path e => Bytes.ofString "path: " ++ e.message Empty.elim
  | unwritableOutput reason => reason

end CommandError

/-- What a run wrote, and the error that ended it, if any. -/
structure Transcript where
  /-- All that was written. -/
  output : Bytes
  /-- Why the run failed. -/
  error : Option CommandError
  deriving DecidableEq, Repr

namespace Transcript

/-- A run that ends at once with an error. -/
def failed (e : CommandError) : Transcript :=
  ⟨[], some e⟩

/-- A run that goes on with more output. -/
def after (text : Bytes) (t : Transcript) : Transcript :=
  { t with output := text ++ t.output }

end Transcript

/-- The line width unless another one is given. -/
abbrev defaultWidth : Int := 80

/-- The settings of a run. -/
structure Settings where
  /-- The line width. -/
  width : Int
  /-- May texts hold comments and commas behind last elements? -/
  relaxed : Bool
  deriving DecidableEq, Repr

/-- The settings that flags give, with the defaults for those that are not given. -/
def Flags.settings (flags : Flags) : Settings where
  width := flags.width.getD defaultWidth
  relaxed := flags.jwcc.getD false

/-- The settings of flags and of a configuration file.  What the file defines counts
where the flag is not given. -/
def Flags.settingsWith (flags : Flags) (decoded : Decoded) : Settings where
  width :=
    if decoded.isDefined (Bytes.ofString "width") && flags.width.isNone then decoded.width
    else flags.settings.width
  relaxed :=
    if decoded.isDefined (Bytes.ofString "jwcc") && flags.jwcc.isNone then decoded.jwcc
    else flags.settings.relaxed

/-- The settings of a run with these flags.  A configuration file is read only if it
is asked for, and may hold nothing but settings. -/
def settingsOf (env : Environment) (flags : Flags) : Except CommandError Settings :=
  if flags.config.isEmpty then .ok flags.settings
  else
    match env.libraries.decodeFile env.files flags.config with
    | .error reason => .error (.config reason)
    | .ok decoded =>
        match decoded.undecoded with
        | [] => .ok (flags.settingsWith decoded)
        | key :: _ => .error (.unknownSetting key)

/-- The printer for some settings and a path.  A negative width is refused, wherever
it comes from. -/
def printerOf (settings : Settings) (path : List Bytes) : Except CommandError Printer :=
  if settings.width < 0 then .error (.invalidWidth settings.width)
  else .ok ⟨settings.width, settings.relaxed, path.map stepOf⟩

/-- Writes a text to the output, and goes on if that succeeds. -/
def write (env : Environment) (text : Bytes) (next : Except Fault Transcript) :
    Except Fault Transcript :=
  match env.outputFailure with
  | some reason => .ok (.failed (.unwritableOutput reason))
  | none => next.map (.after text)

/-- Prints one text, and goes on if that succeeds. -/
def printThen (env : Environment) (p : Printer) (text : Bytes)
    (next : Except Fault Transcript) : Except Fault Transcript :=
  match p.print env.libraries text with
  | .error f => .error f
  | .ok (.error e) => .ok (.failed (.path e))
  | .ok (.ok written) => write env written next

/-- Prints one text. -/
def printText (env : Environment) (p : Printer) (text : Bytes) : Except Fault Transcript :=
  printThen env p text (.ok ⟨[], none⟩)

/-- Reads line after line and prints those that are not blank, up to the end of the
input. -/
def printLines (env : Environment) (p : Printer) (r : Reader) : Except Fault Transcript :=
  match _ : r.readLine with
  | ⟨_, some .endOfInput, _⟩ => .ok ⟨[], none⟩
  | ⟨_, some (.unreadable reason), _⟩ => .ok (.failed (.unreadableLine reason))
  | ⟨line, none, rest⟩ =>
      if Text.isBlank line then printLines env p rest
      else printThen env p line (printLines env p rest)
termination_by r.remaining
decreasing_by all_goals exact Reader.remaining_rest_lt ‹_›

/-- What the lines of the standard input are read from. -/
def lineReader (env : Environment) : Except CommandError Reader :=
  match env.editor with
  | none => .ok (.direct env.input)
  | some (.ok reads) => .ok (.edited reads)
  | some (.error reason) => .error (.noEditor reason)

/-- The text to print: that of the file, or the whole standard input. -/
def inputText (env : Environment) : (operand : Option Bytes) → Except CommandError Bytes
  | some name => (env.files name).mapError (.unreadableFile name)
  | none =>
      match env.input.failure with
      | none => .ok env.input.text
      | some reason => .error (.unreadableInput reason)

/-- Prints line by line, unless there is a file to read. -/
def executeLines (env : Environment) (p : Printer) (operand : Option Bytes) :
    Except Fault Transcript :=
  match operand with
  | some _ => .ok (.failed .fileInLineMode)
  | none =>
      match lineReader env with
      | .error e => .ok (.failed e)
      | .ok r => printLines env p r

/-- Prints all of a text. -/
def executeWhole (env : Environment) (p : Printer) (operand : Option Bytes) :
    Except Fault Transcript :=
  match inputText env operand with
  | .error e => .ok (.failed e)
  | .ok text => printText env p text

/-- Prints as the flags say. -/
def execute (env : Environment) (flags : Flags) (operand : Option Bytes) :
    Except Fault Transcript :=
  match (settingsOf env flags).bind (printerOf · flags.path) with
  | .error e => .ok (.failed e)
  | .ok p =>
      if flags.interactive then executeLines env p operand else executeWhole env p operand

/-- Runs the command. -/
def run (env : Environment) (arguments : List Bytes) : Except Fault Transcript :=
  match env.libraries.invocation arguments with
  | .refused reason => .ok (.failed (.usage reason))
  | .answered text => .ok ⟨text, none⟩
  | .call flags operand => execute env flags operand

end JsonFit.Command
