import JsonFit.Proofs.Command.Safety
import JsonFit.Proofs.Text.Position

/-!
# Line mode prints line by line

In line mode the command reads a line, prints it, and goes on to the next one.
What comes of this is what printing each line on its own comes to, one after the
other, up to the first error.  No line is lost or printed twice at the end of the
stream, whether the last line has a line feed or not.

The reader goes from line feed to line feed; `Stream.lines` cuts the whole text at
once.  Both follow the same induction over the lines of a text.  The lines that the
line editor of a terminal gives back are printed in the same way, up to its first read
without a line.
-/

namespace JsonFit.Command

namespace Stream

/-- The lines of a stream: the pieces of its text between line feeds.  An empty
last piece is no line, and neither is a last piece behind which reading fails. -/
def lines (s : Stream) : List Bytes :=
  let pieces := s.text.splitOn Ascii.lineFeed
  if s.failure.isSome ∨ pieces.getLast? = some [] then pieces.dropLast else pieces

/-- Induction over the lines of a stream. -/
@[elab_as_elim]
theorem induction {motive : Stream → Prop}
    (last : ∀ text failure, Ascii.lineFeed ∉ text → motive ⟨text, failure⟩)
    (line : ∀ line text failure, Ascii.lineFeed ∉ line → motive ⟨text, failure⟩ →
      motive ⟨line ++ Ascii.lineFeed :: text, failure⟩) (s : Stream) : motive s := by
  obtain ⟨text, failure⟩ := s
  induction text using Text.lines_induction with
  | last text noFeed => exact last text failure noFeed
  | line before text noFeed ih => exact line before text failure noFeed ih

theorem lines_of_notMem {text : Bytes} (noFeed : Ascii.lineFeed ∉ text)
    (failure : Option Bytes) :
    lines ⟨text, failure⟩ = if failure.isSome ∨ text = [] then [] else [text] := by
  simp [lines, List.splitOn_eq_singleton noFeed]

theorem lines_of_mem {line : Bytes} (noFeed : Ascii.lineFeed ∉ line) (text : Bytes)
    (failure : Option Bytes) :
    lines ⟨line ++ Ascii.lineFeed :: text, failure⟩ = line :: lines ⟨text, failure⟩ := by
  have split : (line ++ Ascii.lineFeed :: text).splitOn Ascii.lineFeed =
      line :: text.splitOn Ascii.lineFeed := Text.lines_append noFeed text
  obtain ⟨piece, others, pieces⟩ :=
    List.exists_cons_of_ne_nil (List.splitOn_ne_nil Ascii.lineFeed text)
  simp only [lines, split, pieces, List.getLast?_cons_cons, List.dropLast_cons_cons]
  split <;> rfl

end Stream

namespace Transcript

/-- Several runs, each of them unless the one before it broke a precondition or
ended with an error.  The first argument is how the whole ends behind the last
run. -/
def inOrder (ending : Transcript) : List (Except Fault Transcript) → Except Fault Transcript
  | [] => .ok ending
  | .error f :: _ => .error f
  | .ok t :: others =>
      match t.error with
      | some _ => .ok t
      | none => (inOrder ending others).map (.after t.output)

/-- Runs that write nothing when they end with an error: the whole run writes what
the runs before the first error write, and ends with that error. -/
theorem inOrder_ok {ts : List Transcript}
    (silent : ∀ t ∈ ts, t.error ≠ none → t.output = []) :
    inOrder ⟨[], none⟩ (ts.map .ok) =
      .ok ⟨(ts.takeWhile fun t => t.error.isNone).flatMap output, ts.findSome? error⟩ := by
  induction ts with
  | nil => rfl
  | cons t ts ih =>
      rw [List.forall_mem_cons] at silent
      obtain ⟨written, ended⟩ := t
      rw [List.map_cons, inOrder]
      cases ended with
      | none =>
          rw [ih silent.2]
          simp [Except.map, after]
      | some e =>
          have nothing : written = [] := silent.1 (Option.some_ne_none e)
          simp [nothing]

end Transcript

open Transcript (inOrder)

variable (env : Environment) (p : Printer)

/-- Printing one more text in front is one more run in front. -/
theorem printThen_inOrder (text : Bytes) (ending : Transcript)
    (others : List (Except Fault Transcript)) :
    printThen env p text (inOrder ending others) =
      inOrder ending (printText env p text :: others) := by
  unfold printText printThen
  cases p.print env.libraries text with
  | error f => rw [inOrder]
  | ok printed =>
      cases printed with
      | error e => simp [inOrder, Transcript.failed]
      | ok written =>
          cases fails : env.outputFailure with
          | some reason => simp [write, fails, inOrder, Transcript.failed]
          | none => simp [write, fails, inOrder, Transcript.after, Except.map]

variable {env p} in
/-- A line that is read comes in front of the lines that are read further on. -/
theorem printLines_of_line {r rest : Reader} {line : Bytes}
    (read : r.readLine = ⟨line, none, rest⟩) {ending : Transcript} {lines : List Bytes}
    (further : printLines env p rest =
      inOrder ending ((lines.filter fun line => !Text.isBlank line).map (printText env p))) :
    printLines env p r =
      inOrder ending
        (((line :: lines).filter fun line => !Text.isBlank line).map (printText env p)) := by
  rw [printLines, read]
  by_cases blank : Text.isBlank line = true
  · simp [blank, further]
  · simp [blank, further, printThen_inOrder]

/-- How line mode ends behind the last line. -/
def Stop.transcript : Stop → Transcript
  | .endOfInput => ⟨[], none⟩
  | .unreadable reason => .failed (.unreadableLine reason)

variable {env p} in
theorem printLines_of_stop {r rest : Reader} {bytes : Bytes} {stop : Stop}
    (read : r.readLine = ⟨bytes, some stop, rest⟩) :
    printLines env p r = inOrder stop.transcript [] := by
  rw [printLines, read]
  cases stop <;> rfl

/-- Line mode on a stream is printing line by line, for every stream and every output:
reading and printing take turns, but it comes out as if all lines were known before. -/
theorem printLines_eq_inOrder (s : Stream) :
    printLines env p (.direct s) =
      inOrder s.ending.transcript
        ((s.lines.filter fun line => !Text.isBlank line).map (printText env p)) := by
  induction s using Stream.induction with
  | last text failure noFeed =>
      have read := Stream.readLine_of_notMem noFeed failure
      rw [Stream.lines_of_notMem noFeed]
      by_cases whole : failure = none ∧ text ≠ []
      · obtain ⟨rfl, some⟩ := whole
        rw [if_pos ⟨rfl, some⟩] at read
        rw [if_neg (by simpa using some)]
        -- The line is read without a line feed, and the next read meets the end.
        have ended : printLines env p (.direct ⟨[], none⟩) = _ := printLines_of_stop rfl
        exact printLines_of_line (by rw [Reader.readLine, read]) ended
      · rw [if_neg whole] at read
        rw [if_pos (by cases failure <;> simp_all)]
        exact printLines_of_stop (by rw [Reader.readLine, read])
  | line line text failure noFeed ih =>
      rw [Stream.lines_of_mem noFeed]
      exact printLines_of_line (by rw [Reader.readLine, Stream.readLine_of_mem noFeed]) ih

/-- The lines that a line editor gives back before it stops. -/
def editedLines : List (Except EditorStop Bytes) → List Bytes
  | .ok line :: reads => line :: editedLines reads
  | _ => []

/-- Why a line editor stops. -/
def editedStop : List (Except EditorStop Bytes) → Stop
  | .ok _ :: reads => editedStop reads
  | .error (.unreadable reason) :: _ => .unreadable reason
  | _ => .endOfInput

/-- Line mode on a terminal is printing line by line as well, up to the first read
without a line.  An interrupt is no error. -/
theorem printLines_edited_eq_inOrder (reads : List (Except EditorStop Bytes)) :
    printLines env p (.edited reads) =
      inOrder (editedStop reads).transcript
        (((editedLines reads).filter fun line => !Text.isBlank line).map (printText env p)) := by
  induction reads with
  | nil => exact printLines_of_stop rfl
  | cons read reads ih =>
      cases read with
      | ok line => exact printLines_of_line rfl ih
      | error stop => cases stop <;> exact printLines_of_stop rfl

variable {env p}

/-- What is printed is printed before the error, if there is one, and not with it. -/
theorem output_of_printText {text : Bytes} {t : Transcript} (ran : printText env p text = .ok t)
    (failed : t.error ≠ none) : t.output = [] := by
  unfold printText printThen at ran
  cases printed : p.print env.libraries text with
  | error f => simp [printed] at ran
  | ok result =>
      rw [printed] at ran
      cases result with
      | error e =>
          obtain rfl := Except.ok.inj ran
          rfl
      | ok written =>
          dsimp only at ran
          unfold write at ran
          split at ran
          · obtain rfl := Except.ok.inj ran
            rfl
          · obtain rfl := Except.ok.inj ran
            contradiction

theorem exists_transcripts (keeps : env.libraries.KeepsLength) (prepared : p.Prepared)
    (texts : List Bytes) :
    ∃ ts : List Transcript, texts.map (printText env p) = ts.map .ok ∧
      ∀ t ∈ ts, t.error ≠ none → t.output = [] := by
  induction texts with
  | nil => exact ⟨[], rfl, by simp⟩
  | cons text texts ih =>
      obtain ⟨ts, ran, silent⟩ := ih
      obtain ⟨t, here⟩ := exists_printText keeps prepared text
      refine ⟨t :: ts, ?_, List.forall_mem_cons.mpr ⟨output_of_printText here, silent⟩⟩
      rw [List.map_cons, here, ran, List.map_cons]

/-- A text that does not parse is reported on, and that is no error. -/
theorem printText_of_failure (keeps : env.libraries.KeepsLength)
    (writable : env.outputFailure = none) {text : Bytes} {e : Parser.Failure}
    (refused : Json.parse (p.plainText env.libraries text) = .failure e) :
    ∃ written, report env.libraries text e = .ok written ∧
      printText env p text = .ok ⟨written, none⟩ := by
  rcases Json.parse_cases (p.plainText env.libraries text) with
    ⟨_, _, read⟩ | ⟨_, refused', low, high⟩
  · rw [refused] at read
    contradiction
  · cases refused.symm.trans refused'
    obtain ⟨written, reported⟩ :=
      exists_report env.libraries (p.length_plainText keeps text) low high
    have printed : p.print env.libraries text = .ok (.ok written) := by
      unfold Printer.print
      rw [refused]
      dsimp only
      rw [reported]
      rfl
    refine ⟨written, reported, ?_⟩
    unfold printText printThen write
    rw [printed, writable]
    simp [Except.map, Transcript.after]

/-- A text whose path leads nowhere is not printed, and that is an error. -/
theorem printText_of_walk_error {text : Bytes} {root : Json.Value} {next : Cursor}
    (read : Json.parse (p.plainText env.libraries text) = .success root next)
    {e : Json.PathError Empty} (nowhere : root.walk p.path = .error e) :
    printText env p text = .ok ⟨[], some (.path e)⟩ := by
  have printed : p.print env.libraries text = .ok (.error e) := by
    unfold Printer.print
    rw [read]
    dsimp only
    rw [nowhere]
  unfold printText printThen
  rw [printed]
  rfl

/-! ## Line mode line by line -/

/-- Line mode on a stream that can be read to its end, with an output that can be
written: it comes out as printing, in order, every line that is not blank, until one
ends in an error.  So the whole output is that of the lines before the first error,
and the error is that of the first line that has one.  A line that does not parse is
reported on and does not end the run; a line whose path leads nowhere writes
nothing.  Of the libraries it is assumed, for a line to have a transcript or a report,
that standardizing keeps the length of a text. -/
theorem printLines_line_by_line (env : Environment) (p : Printer) (s : Stream)
    (readable : s.failure = none) (writable : env.outputFailure = none) :
    let runs := (s.lines.filter fun line => !Text.isBlank line).map (printText env p)
    printLines env p (.direct s) = inOrder ⟨[], none⟩ runs ∧
    (env.libraries.KeepsLength → p.Prepared →
      ∃ ts : List Transcript, runs = ts.map .ok ∧
        printLines env p (.direct s) =
          .ok ⟨(ts.takeWhile fun t => t.error.isNone).flatMap Transcript.output,
            ts.findSome? Transcript.error⟩) ∧
    (env.libraries.KeepsLength →
      ∀ line e, Json.parse (p.plainText env.libraries line) = .failure e →
        ∃ written, report env.libraries line e = .ok written ∧
          printText env p line = .ok ⟨written, none⟩) ∧
    ∀ line root next e, Json.parse (p.plainText env.libraries line) = .success root next →
      root.walk p.path = .error e → printText env p line = .ok ⟨[], some (.path e)⟩ := by
  intro runs
  have whole : printLines env p (.direct s) = inOrder ⟨[], none⟩ runs := by
    simpa [Stream.ending, Stop.transcript, readable] using printLines_eq_inOrder env p s
  constructor
  · exact whole
  constructor
  · intro keeps prepared
    obtain ⟨ts, ran, silent⟩ := exists_transcripts keeps prepared
      (s.lines.filter fun line => !Text.isBlank line)
    refine ⟨ts, ran, ?_⟩
    rw [whole, show runs = ts.map .ok from ran]
    exact Transcript.inOrder_ok silent
  constructor
  · intro keeps line e refused
    exact printText_of_failure keeps writable refused
  · intro line root next e read nowhere
    exact printText_of_walk_error read nowhere

/-- With the path `k`: the first line is printed, the second one is blank, the third
does not parse, and the path leads nowhere in the fourth.  The last line, which has
no line feed, is not printed any more. -/
theorem printLines_line_by_line_mixed :
    Printer.Prepared ⟨80, false, [.key (Bytes.ofString "k")]⟩ ∧
      Stock.libraries.KeepsLength ∧
      printLines ⟨Stock.libraries, fun _ => .error .notFound, ⟨[], none⟩, none, none⟩
          ⟨80, false, [.key (Bytes.ofString "k")]⟩
          (.direct ⟨Bytes.ofString "\x7b\"k\":null\x7d\n \n[oops]\n[]\nnull", none⟩) =
        .ok ⟨Bytes.ofString
            "null\nERROR\n1:1: expected ']', got 'o'\n  offset 1, committed\n  near \"oops]\"\n",
          some (.path (.notAnObject (Bytes.ofString "ast.Array") (Bytes.ofString "k")))⟩ := by
  have prepared : Printer.Prepared ⟨80, false, [.key (Bytes.ofString "k")]⟩ := by
    constructor
    · decide
    · exact List.forall_mem_singleton.mpr trivial
  have lines :
      (Stream.lines ⟨Bytes.ofString "\x7b\"k\":null\x7d\n \n[oops]\n[]\nnull", none⟩).filter
        (fun line => !Text.isBlank line) =
      [Bytes.ofString "\x7b\"k\":null\x7d", Bytes.ofString "[oops]", Bytes.ofString "[]",
        Bytes.ofString "null"] := by
    decide
  have whole := (printLines_line_by_line
    ⟨Stock.libraries, fun _ => .error .notFound, ⟨[], none⟩, none, none⟩
    ⟨80, false, [.key (Bytes.ofString "k")]⟩
    ⟨Bytes.ofString "\x7b\"k\":null\x7d\n \n[oops]\n[]\nnull", none⟩
    rfl rfl).1
  constructor
  · exact prepared
  constructor
  · exact Stock.libraries_keepsLength
  · rw [whole, lines]
    rfl

end JsonFit.Command
