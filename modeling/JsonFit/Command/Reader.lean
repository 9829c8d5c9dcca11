import JsonFit.Bytes

/-!
# Readers of lines

In line mode the command reads its input line by line.  From a stream it reads up to
each line feed.  On a terminal lines are edited, and what the editor gives back is a
list of reads: lines, interrupts, and errors.  An interrupt counts as the end of the
input.

Both are readers, and `Reader.readLine` is all that line mode knows of them.
-/

namespace JsonFit.Command

/-- Why a read came to its end too soon. -/
inductive Stop where
  /-- The input has ended. -/
  | endOfInput
  /-- The input cannot be read any further. -/
  | unreadable (reason : Bytes)
  deriving DecidableEq, Repr

/-- What a read comes to. -/
structure Read (σ : Type) where
  /-- The bytes that were read. -/
  bytes : Bytes
  /-- Why there were no more of them, if there should have been. -/
  stop : Option Stop
  /-- What is left to read. -/
  rest : σ
  deriving DecidableEq, Repr

/-- An input stream: a text, behind which reading may fail. -/
structure Stream where
  /-- All that can be read. -/
  text : Bytes
  /-- Why reading fails at the end of the text, if it does. -/
  failure : Option Bytes := none
  deriving DecidableEq, Repr

namespace Stream

/-- What reading comes to at the end of the text. -/
def ending (s : Stream) : Stop :=
  match s.failure with
  | some reason => .unreadable reason
  | none => .endOfInput

/-- Reads up to a line feed, and the line feed with it. -/
def readThroughFeed (s : Stream) : Read Stream :=
  let bytes := s.text.takeWhile (· != Ascii.lineFeed)
  match s.text.dropWhile (· != Ascii.lineFeed) with
  | feed :: text => ⟨bytes ++ [feed], none, { s with text := text }⟩
  | [] => ⟨bytes, some s.ending, { s with text := [] }⟩

/-- Reads a line, and takes off the line feed.  The end of the stream ends a line
as well, and is no reason to stop unless nothing was read before it. -/
def readLine (s : Stream) : Read Stream :=
  let read := s.readThroughFeed
  { read with
    bytes :=
      if read.bytes.getLast? = some Ascii.lineFeed then read.bytes.dropLast else read.bytes
    stop := if read.stop = some .endOfInput ∧ read.bytes ≠ [] then none else read.stop }

theorem readLine_of_mem {line : Bytes} (noFeed : Ascii.lineFeed ∉ line) (text : Bytes)
    (failure : Option Bytes) :
    readLine ⟨line ++ Ascii.lineFeed :: text, failure⟩ = ⟨line, none, ⟨text, failure⟩⟩ := by
  have others : ∀ b ∈ line, (b != Ascii.lineFeed) = true := by
    intro b inLine
    exact bne_iff_ne.mpr fun same => noFeed (same ▸ inLine)
  simp [readLine, readThroughFeed, List.takeWhile_append_of_pos others,
    List.dropWhile_append_of_pos others]

theorem readLine_of_notMem {text : Bytes} (noFeed : Ascii.lineFeed ∉ text)
    (failure : Option Bytes) :
    readLine ⟨text, failure⟩ =
      ⟨text, if failure = none ∧ text ≠ [] then none else some (ending ⟨text, failure⟩),
        ⟨[], failure⟩⟩ := by
  have others : ∀ b ∈ text, (b != Ascii.lineFeed) = true := by
    intro b inText
    exact bne_iff_ne.mpr fun same => noFeed (same ▸ inText)
  have noLast : text.getLast? ≠ some Ascii.lineFeed :=
    fun last => noFeed (List.mem_of_getLast? last)
  have all : text.takeWhile (· != Ascii.lineFeed) = text := by
    simpa using @List.takeWhile_append_of_pos _ _ text [] others
  have nothing : text.dropWhile (· != Ascii.lineFeed) = [] := by
    simpa using @List.dropWhile_append_of_pos _ _ text [] others
  simp only [readLine, readThroughFeed, all, nothing, if_neg noLast]
  cases failure <;> simp [ending]

/-- Each line that is read leaves less to read. -/
theorem length_rest_lt {s rest : Stream} {line : Bytes} (read : s.readLine = ⟨line, none, rest⟩) :
    rest.text.length < s.text.length := by
  obtain ⟨text, failure⟩ := s
  by_cases feed : Ascii.lineFeed ∈ text
  · obtain ⟨before, behind, rfl, noFeed⟩ := List.eq_append_cons_of_mem feed
    rw [readLine_of_mem noFeed] at read
    cases read
    simp only [List.length_append, List.length_cons]
    omega
  · rw [readLine_of_notMem feed] at read
    cases text with
    | nil => cases failure <;> simp at read
    | cons b bytes =>
        obtain rfl : ⟨[], failure⟩ = rest := congrArg Read.rest read
        exact Nat.zero_lt_succ _

end Stream

/-- How the line editor of a terminal ends a read without a line. -/
inductive EditorStop where
  /-- The read was interrupted. -/
  | interrupt
  /-- The input has ended. -/
  | endOfInput
  /-- The terminal cannot be read. -/
  | unreadable (reason : Bytes)
  deriving DecidableEq, Repr

/-- What lines are read from. -/
inductive Reader where
  /-- A stream that is read directly. -/
  | direct (s : Stream)
  /-- What the line editor of a terminal gives back, read after read; behind the
  last of them the input has ended. -/
  | edited (reads : List (Except EditorStop Bytes))

namespace Reader

/-- Reads a line. -/
def readLine : Reader → Read Reader
  | direct s =>
      let read := s.readLine
      ⟨read.bytes, read.stop, direct read.rest⟩
  | edited [] => ⟨[], some .endOfInput, edited []⟩
  | edited (.ok line :: reads) => ⟨line, none, edited reads⟩
  | edited (.error .interrupt :: reads) => ⟨[], some .endOfInput, edited reads⟩
  | edited (.error .endOfInput :: reads) => ⟨[], some .endOfInput, edited reads⟩
  | edited (.error (.unreadable reason) :: reads) =>
      ⟨[], some (.unreadable reason), edited reads⟩

/-- How much there is to read. -/
def remaining : Reader → Nat
  | direct s => s.text.length
  | edited reads => reads.length

/-- Each line that is read leaves less to read. -/
theorem remaining_rest_lt {r rest : Reader} {line : Bytes}
    (read : r.readLine = ⟨line, none, rest⟩) : rest.remaining < r.remaining := by
  cases r with
  | direct s =>
      cases streamRead : s.readLine with
      | mk bytes stop left =>
          simp only [readLine, streamRead, Read.mk.injEq] at read
          obtain ⟨rfl, rfl, rfl⟩ := read
          exact Stream.length_rest_lt streamRead
  | edited reads =>
      cases reads with
      | nil => simp [readLine] at read
      | cons first reads =>
          rcases first with (_ | _ | reason) | edited <;> simp [readLine] at read
          obtain ⟨_, rfl⟩ := read
          exact Nat.lt_succ_self _

end Reader

end JsonFit.Command
