import JsonFit.Bytes

/-!
# Files

The command reads files by name.  What it needs to know about them is a function
from names to contents or errors.
-/

namespace JsonFit.Command

/-- Why a file cannot be read. -/
inductive FileError where
  /-- There is no such file. -/
  | notFound
  /-- Part of the name is a file, but is used as a directory. -/
  | notADirectory
  /-- The name is that of a directory. -/
  | isADirectory
  /-- The name cannot be that of a file. -/
  | invalidName
  /-- The name is longer than any file's. -/
  | nameTooLong
  /-- Reading is not permitted. -/
  | notPermitted
  /-- Anything else. -/
  | unreadable
  deriving DecidableEq, Repr

/-- The wording of a file error for a file of the given name. -/
def FileError.message (name : Bytes) : FileError → Bytes
  | notFound =>
      Bytes.ofString "open " ++ name ++ Bytes.ofString ": no such file or directory"
  | notADirectory => Bytes.ofString "open " ++ name ++ Bytes.ofString ": not a directory"
  | isADirectory => Bytes.ofString "read " ++ name ++ Bytes.ofString ": is a directory"
  | invalidName => Bytes.ofString "open " ++ name ++ Bytes.ofString ": invalid argument"
  | nameTooLong => Bytes.ofString "open " ++ name ++ Bytes.ofString ": file name too long"
  | notPermitted => Bytes.ofString "open " ++ name ++ Bytes.ofString ": permission denied"
  | unreadable => Bytes.ofString "read " ++ name ++ Bytes.ofString ": input/output error"

/-- Files by name. -/
abbrev Files := Bytes → Except FileError Bytes

end JsonFit.Command
