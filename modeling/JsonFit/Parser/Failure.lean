import JsonFit.Text.Quoted

/-!
# Failures to parse

A failure says what was wrong, where, and whether an alternative may still be
tried.  A retryable failure may be discarded by an enclosing choice; a committed
one may not, because the grammar has consumed input that tells its branch from
the others.
-/

namespace JsonFit.Parser

/-- What went wrong. -/
inductive Cause where
  /-- There was no input left. -/
  | endOfInput
  /-- Another text was expected. -/
  | unexpectedText (want got : Bytes)
  /-- Another character was expected. -/
  | unexpectedChar (want got : Int)
  /-- The delimiter did not occur in the rest of the input. -/
  | missingDelimiter (delimiter : Bytes)
  /-- Input remained where it should have ended. -/
  | trailingInput (got : Int)
  /-- A failure worded by the grammar itself. -/
  | worded (message : Bytes)
  deriving DecidableEq, Repr

namespace Cause

/-- The wording of a cause. -/
def message : Cause → Bytes
  | endOfInput => Bytes.ofString "reached end of input"
  | unexpectedText want got =>
      Bytes.ofString "expected " ++ Text.quoted want ++ Bytes.ofString ", got " ++
        Text.quoted got
  | unexpectedChar want got =>
      Bytes.ofString "expected " ++ Text.quotedChar want ++ Bytes.ofString ", got " ++
        Text.quotedChar got
  | missingDelimiter delimiter =>
      Bytes.ofString "reached end of input looking for " ++ Text.quoted delimiter
  | trailingInput got =>
      Bytes.ofString "expected end of input, got " ++ Text.quotedChar got
  | worded message => message

end Cause

/-- A failure to parse. -/
structure Failure where
  /-- What went wrong. -/
  cause : Cause
  /-- May an enclosing choice try another alternative? -/
  retry : Bool
  /-- Where it went wrong. -/
  offset : Int
  deriving DecidableEq, Repr

namespace Failure

/-- The wording of the cause. -/
def message (e : Failure) : Bytes :=
  e.cause.message

/-- The wording together with the offset. -/
def describe (e : Failure) : Bytes :=
  Bytes.ofString "at offset " ++ Bytes.decimalInt e.offset ++ Bytes.ofString ": " ++ e.message

/-- The same failure, no longer open to alternatives. -/
def commit (e : Failure) : Failure :=
  { e with retry := false }

/-- The same failure, committed under a condition. -/
def commitIf (moved : Bool) (e : Failure) : Failure :=
  if moved then e.commit else e

/-- The same cause as a retryable failure at another offset. -/
def restart (offset : Int) (e : Failure) : Failure :=
  { e with retry := true, offset := offset }

end Failure

end JsonFit.Parser
