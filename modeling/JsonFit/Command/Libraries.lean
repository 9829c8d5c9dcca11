import JsonFit.Command.Files

/-!
# What the command is given by libraries

Four parts of the work are not done by the command itself: reading the command line,
decoding the configuration file, turning relaxed JSON into plain JSON, and cutting a
text for a report.  The command is defined for any way of doing them.

The one thing it relies on is `KeepsLength`: a text that is made plain keeps its
length, so that an offset in the plain text is one in the text that was given.
-/

namespace JsonFit.Command

/-- What the flags of a command line say. -/
structure Flags where
  /-- The line width, if given. -/
  width : Option Int := none
  /-- Is the input relaxed, if given? -/
  jwcc : Option Bool := none
  /-- The elements of the path, in order. -/
  path : List Bytes := []
  /-- Is each line a text of its own? -/
  interactive : Bool := false
  /-- The name of the configuration file, or nothing. -/
  config : Bytes := []
  deriving DecidableEq, Repr

/-- What a command line amounts to. -/
inductive Invocation where
  /-- It is invalid. -/
  | refused (reason : Bytes)
  /-- It asks for a text, such as help, and for nothing else. -/
  | answered (text : Bytes)
  /-- It calls the command with some flags, and with at most one operand. -/
  | call (flags : Flags) (operand : Option Bytes)
  deriving DecidableEq, Repr

/-- What is decoded from a configuration file. -/
structure Decoded where
  /-- The line width; it counts only if it is defined. -/
  width : Int := 0
  /-- Is the input relaxed?  This counts only if it is defined. -/
  jwcc : Bool := false
  /-- Does the file define exactly this key? -/
  isDefined : Bytes → Bool
  /-- The keys of the file that are no settings, in order. -/
  undecoded : List Bytes := []

/-- What the command leaves to others. -/
structure Libraries where
  /-- Reads a command line. -/
  invocation : List Bytes → Invocation
  /-- Decodes the configuration file of a name, or says why it cannot. -/
  decodeFile : Files → Bytes → Except Bytes Decoded
  /-- The plain JSON text for a relaxed one, if this is well formed. -/
  standardize? : Bytes → Option Bytes
  /-- Cuts a text down to a number of bytes. -/
  truncate : Bytes → Nat → Bytes

/-- A plain text is as long as the relaxed one that it stands for. -/
def Libraries.KeepsLength (libraries : Libraries) : Prop :=
  ∀ ⦃text plain : Bytes⦄, libraries.standardize? text = some plain →
    plain.length = text.length

end JsonFit.Command
