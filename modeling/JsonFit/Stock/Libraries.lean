import JsonFit.Stock.CommandLine
import JsonFit.Stock.Config.Settings
import JsonFit.Stock.Excerpt
import JsonFit.Stock.Relaxed

/-!
# Libraries to run with

The program has to be run with some libraries.  These are what it is run with here; the
command is defined, and its theorems hold, for any others that keep lengths.
-/

namespace JsonFit.Stock

open Command (Decoded Files Libraries)

/-- Reads and decodes a configuration file. -/
def decodeFile (files : Files) (name : Bytes) : Except Bytes Decoded :=
  match files name with
  | .error e => .error (e.message name)
  | .ok file =>
      match Config.decode? file with
      | some decoded => .ok decoded
      | none => .error (Bytes.ofString "invalid configuration")

/-- The libraries of the program. -/
def libraries : Libraries where
  invocation := invocation
  decodeFile := decodeFile
  standardize? := Relaxed.standardize?
  truncate := excerpt

theorem libraries_keepsLength : libraries.KeepsLength := by
  intro text plain standard
  exact Relaxed.length_standardize? standard

end JsonFit.Stock
