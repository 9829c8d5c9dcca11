import JsonFit.Command.Run
import JsonFit.Stock.Libraries

/-!
# The program

Reads what the command needs, runs it, and writes what it says.
-/

namespace JsonFit.Main

open Command

/-- The bytes of an array. -/
def bytesOf (content : ByteArray) : Bytes :=
  content.data.toList

/-- The reason for a failure to read a file. -/
def fileError : IO.Error → FileError
  | .noFileOrDirectory .. => .notFound
  | .permissionDenied .. => .notPermitted
  | .inappropriateType .. => .isADirectory
  | .invalidArgument .. => .invalidName
  | _ => .unreadable

/-- Reads a file. -/
def readFile (name : String) : IO (Except FileError Bytes) := do
  try
    return .ok (bytesOf (← IO.FS.readBinFile name))
  catch e =>
    return .error (fileError e)

/-- Reads a stream to its end. -/
partial def readStream (stream : IO.FS.Stream) (content : ByteArray) : IO ByteArray := do
  let chunk ← stream.read 65536
  if chunk.isEmpty then return content else readStream stream (content ++ chunk)

/-- Reads the standard input. -/
def readInput : IO Stream := do
  try
    let content ← readStream (← IO.getStdin) ByteArray.empty
    return { text := bytesOf content }
  catch _ =>
    return { text := [], failure := some (Bytes.ofString "read failed") }

/-- The environment of a run with the given arguments: of the files only those that
they name, and the standard input only if it is to be read.  There is no line editor,
so a terminal is read as a stream. -/
def environment (arguments : List Bytes) : IO Environment := do
  let (wanted, readsInput) :=
    match Stock.libraries.invocation arguments with
    | .call flags operand => (flags.config :: operand.toList, operand.isNone)
    | _ => ([], false)
  let mut contents : List (Bytes × Except FileError Bytes) := []
  for name in wanted do
    match String.fromUTF8? ⟨name.toArray⟩ with
    | some file =>
        if !name.isEmpty then
          contents := (name, ← readFile file) :: contents
    | none => pure ()
  let input ← if readsInput then readInput else pure { text := [] }
  let known := contents
  return {
    libraries := Stock.libraries
    files := fun name =>
      match known.find? fun entry => entry.1 = name with
      | some entry => entry.2
      | none => .error .notFound
    input := input }

/-- Writes bytes to a stream. -/
def writeBytes (stream : IO.FS.Stream) (text : Bytes) : IO Unit := do
  stream.write ⟨text.toArray⟩
  stream.flush

end JsonFit.Main

open JsonFit in
/-- The program: prints JSON fitted to a width. -/
def main (arguments : List String) : IO UInt32 := do
  let arguments := arguments.map Bytes.ofString
  let env ← Main.environment arguments
  match Command.run env arguments with
  | .error _ => return 2
  | .ok transcript =>
      Main.writeBytes (← IO.getStdout) transcript.output
      match transcript.error with
      | none => return 0
      | some e =>
          Main.writeBytes (← IO.getStderr)
            (Bytes.ofString "Error: " ++ e.message ++ [Ascii.lineFeed])
          return 1
