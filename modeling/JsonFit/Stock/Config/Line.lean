import JsonFit.Text.Utf8

/-!
# Lines of a configuration file

White space, comments and line ends.  A line ends with a line feed, in front of
which a carriage return may stand; no other control but the tab is allowed
anywhere in a file.
-/

namespace JsonFit.Stock.Config

/-- White space inside a line. -/
def isBlank (b : UInt8) : Bool :=
  b == Ascii.space || b == Ascii.tab

/-- Controls other than tab and line feed. -/
def isControl (b : UInt8) : Bool :=
  (b < Ascii.space && b != Ascii.tab && b != Ascii.lineFeed) || b == Ascii.delete

/-- The text with plain line feeds, unless it holds other controls. -/
def unifyLines? : Bytes → Option Bytes
  | [] => some []
  | Ascii.carriageReturn :: Ascii.lineFeed :: rest =>
      (unifyLines? rest).map (Ascii.lineFeed :: ·)
  | b :: rest => if isControl b then none else (unifyLines? rest).map (b :: ·)

/-- Leaves out the byte order mark of any encoding at the start of a text. -/
def dropMark : Bytes → Bytes
  | 0xEF :: 0xBB :: 0xBF :: rest => rest
  | 0xFF :: 0xFE :: rest => rest
  | 0xFE :: 0xFF :: rest => rest
  | text => text

/-- Leaves out white space inside a line. -/
def skipBlanks (text : Bytes) : Bytes :=
  text.dropWhile isBlank

/-- Leaves out a comment, up to the end of its line. -/
def skipComment : Bytes → Bytes
  | Ascii.numberSign :: rest => rest.dropWhile (· != Ascii.lineFeed)
  | text => text

/-- Leaves out blank lines and comments, at most `fuel` of them. -/
def skipLinesLoop : (fuel : Nat) → Bytes → Bytes
  | 0, text => text
  | fuel + 1, text =>
      match skipComment (skipBlanks text) with
      | Ascii.lineFeed :: rest => skipLinesLoop fuel rest
      | other => other

/-- Leaves out all blank lines and comments. -/
def skipLines (text : Bytes) : Bytes :=
  skipLinesLoop (text.length + 1) text

/-- The text behind the end of a line. -/
def lineEnd? (text : Bytes) : Option Bytes :=
  match skipComment (skipBlanks text) with
  | [] => some []
  | Ascii.lineFeed :: rest => some rest
  | _ => none

end JsonFit.Stock.Config
