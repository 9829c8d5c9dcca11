import JsonFit.Command.Run
import JsonFit.Proofs.Json.Ending
import JsonFit.Proofs.Json.Expressible
import JsonFit.Proofs.Json.Soundness
import JsonFit.Stock.Libraries

/-!
# The command breaks no precondition

Printing has three preconditions.  The width is not negative, which the command
checks when flag and configuration have been put together.  Nothing is missing in
the value that is laid out: what has been read is complete, and a path of the
command line only selects parts of it.  And the place of a report lies in the
text that was given: the text that is read has the same length, if standardizing
keeps it, and no text is refused outside of it.

So every run of the command has a transcript, whatever its arguments, files and
input are, and whatever else the libraries do.
-/

namespace JsonFit

namespace Json

variable {ε : Type}

/-- The step selects a part of a value; it applies no function. -/
def Step.Selects : Step ε → Prop
  | .apply _ => False
  | _ => True

namespace Value

/-- The parts of a complete value are complete. -/
theorem isComplete_of_step {v part : Value} {s : Step ε} (selects : s.Selects)
    (complete : v.isComplete = true) (went : v.step s = .ok part) : part.isComplete = true := by
  cases s with
  | key name =>
      cases v with
      | object members =>
          rw [isComplete, allMembersComplete_iff] at complete
          cases found : findMember? name members with
          | some m =>
              simp only [step, found, Except.ok.injEq] at went
              subst went
              exact complete m (List.mem_of_find?_eq_some found)
          | none => simp [step, found] at went
      | _ => contradiction
  | index i =>
      cases v with
      | array elements =>
          rw [isComplete, allComplete_iff] at complete
          cases found : elementAt? elements i with
          | some element =>
              simp only [step, found, Except.ok.injEq] at went
              subst went
              obtain ⟨position, _, here⟩ := Option.bind_eq_some_iff.mp found
              exact complete element (List.mem_of_getElem? here)
          | none => simp [step, found] at went
      | _ => contradiction
  | apply f => contradiction
  | invalid typeName => contradiction

theorem isComplete_of_walk {v part : Value} {path : List (Step ε)}
    (selects : ∀ s ∈ path, s.Selects) (complete : v.isComplete = true)
    (went : v.walk path = .ok part) : part.isComplete = true := by
  induction path generalizing v with
  | nil =>
      cases went
      exact complete
  | cons s path ih =>
      rw [List.forall_mem_cons] at selects
      rw [walk] at went
      cases first : v.step s with
      | ok next =>
          rw [first] at went
          exact ih selects.2 (isComplete_of_step selects.1 complete first) went
      | error e =>
          rw [first] at went
          contradiction

end Value

/-- What has been read is complete. -/
theorem isComplete_of_parse {s : Bytes} {v : Value} {next : Cursor}
    (read : parse s = .success v next) : v.isComplete = true := by
  obtain ⟨_, t, _, _, derives, _, _⟩ := spaced_of_parse read
  exact derives.expressible.complete

end Json

namespace Command

open Json (Value)

/-- What the command sees to before it prints. -/
structure Printer.Prepared (p : Printer) : Prop where
  /-- The width is not negative. -/
  width : 0 ≤ p.width
  /-- The path applies no functions. -/
  path : ∀ s ∈ p.path, s.Selects

section Text

variable {libraries : Libraries}

/-- A report shows a text as long as the one that was refused. -/
theorem exists_report (libraries : Libraries) {text plain : Bytes}
    (sameLength : plain.length = text.length) {e : Parser.Failure} (low : 0 ≤ e.offset)
    (high : e.offset ≤ plain.length) : ∃ written, report libraries text e = .ok written := by
  rw [sameLength] at high
  have context : textFrom text e.offset = .ok (text.drop e.offset.toNat) := if_pos ⟨low, high⟩
  unfold report
  rw [context]
  exact ⟨_, rfl⟩

/-- The text that is read is as long as the one that is given. -/
theorem Printer.length_plainText (keeps : libraries.KeepsLength) (p : Printer) (text : Bytes) :
    (p.plainText libraries text).length = text.length := by
  rw [plainText]
  split
  · cases standard : libraries.standardize? text with
    | some plain => exact keeps standard
    | none => rfl
  · rfl

/-- Every text is printed, reported on, or has no part at the path. -/
theorem Printer.Prepared.exists_print (keeps : libraries.KeepsLength) {p : Printer}
    (prepared : p.Prepared) (text : Bytes) : ∃ written, p.print libraries text = .ok written := by
  unfold print
  rcases Json.parse_cases (p.plainText libraries text) with
    ⟨root, next, read⟩ | ⟨e, refused, low, high⟩
  · rw [read]
    dsimp only
    cases went : root.walk p.path with
    | ok v =>
        have complete := Json.Value.isComplete_of_walk prepared.path
          (Json.isComplete_of_parse read) went
        dsimp only
        rw [Value.format?_eq_ok complete prepared.width]
        exact ⟨_, rfl⟩
    | error e => exact ⟨_, rfl⟩
  · obtain ⟨written, reported⟩ :=
      exists_report libraries (p.length_plainText keeps text) low high
    rw [refused]
    dsimp only
    rw [reported]
    exact ⟨_, rfl⟩

end Text

section Runs

variable {env : Environment} {p : Printer} (keeps : env.libraries.KeepsLength)

include keeps

theorem exists_printThen (prepared : p.Prepared) (text : Bytes) {next : Except Fault Transcript}
    (further : ∃ transcript, next = .ok transcript) :
    ∃ transcript, printThen env p text next = .ok transcript := by
  obtain ⟨transcript, rfl⟩ := further
  obtain ⟨printed, printEq⟩ := prepared.exists_print keeps text
  unfold printThen
  rw [printEq]
  cases printed with
  | error e => exact ⟨_, rfl⟩
  | ok written =>
      dsimp only
      rw [write]
      split <;> exact ⟨_, rfl⟩

/-- One line after the other, up to the first error, from a stream or from a terminal. -/
theorem exists_printLines (prepared : p.Prepared) (r : Reader) :
    ∃ transcript, printLines env p r = .ok transcript := by
  induction r using printLines.induct with
  | case1 r _ _ ended =>
      rw [printLines, ended]
      exact ⟨_, rfl⟩
  | case2 r _ _ _ failed =>
      rw [printLines, failed]
      exact ⟨_, rfl⟩
  | case3 r line rest read blank ih =>
      rw [printLines, read]
      simpa [blank] using ih
  | case4 r line rest read notBlank ih =>
      rw [printLines, read]
      simpa [notBlank] using exists_printThen keeps prepared line ih

theorem exists_printText (prepared : p.Prepared) (text : Bytes) :
    ∃ transcript, printText env p text = .ok transcript :=
  exists_printThen keeps prepared text ⟨_, rfl⟩

theorem exists_executeLines (prepared : p.Prepared) (operand : Option Bytes) :
    ∃ transcript, executeLines env p operand = .ok transcript := by
  unfold executeLines
  cases operand with
  | some name => exact ⟨_, rfl⟩
  | none =>
      dsimp only
      cases lineReader env with
      | error e => exact ⟨_, rfl⟩
      | ok r => exact exists_printLines keeps prepared r

theorem exists_executeWhole (prepared : p.Prepared) (operand : Option Bytes) :
    ∃ transcript, executeWhole env p operand = .ok transcript := by
  unfold executeWhole
  cases inputText env operand with
  | error e => exact ⟨_, rfl⟩
  | ok text => exact exists_printText keeps prepared text

omit keeps in
theorem selects_stepOf (element : Bytes) : (stepOf element).Selects := by
  rw [stepOf]
  split <;> trivial

omit keeps in
/-- The width is checked, wherever it comes from. -/
theorem prepared_of_printerOf {settings : Settings} {path : List Bytes}
    (made : printerOf settings path = .ok p) : p.Prepared := by
  rw [printerOf] at made
  split at made
  · contradiction
  · rename_i nonneg
    cases made
    constructor
    · exact Int.not_lt.mp nonneg
    · intro s member
      obtain ⟨element, _, rfl⟩ := List.mem_map.mp member
      exact selects_stepOf element

theorem exists_execute (flags : Flags) (operand : Option Bytes) :
    ∃ transcript, execute env flags operand = .ok transcript := by
  unfold execute
  cases settingsOf env flags with
  | error e => exact ⟨_, rfl⟩
  | ok settings =>
      rw [Except.bind]
      cases made : printerOf settings flags.path with
      | error e => exact ⟨_, rfl⟩
      | ok p =>
          have prepared := prepared_of_printerOf made
          dsimp only
          split
          · exact exists_executeLines keeps prepared operand
          · exact exists_executeWhole keeps prepared operand

end Runs

/-- Whatever the arguments, the files and the input are, and on a terminal as well, the
command runs to its end without breaking a precondition.  Of the libraries nothing is
assumed but that standardizing keeps the length of a text. -/
theorem run_breaks_no_precondition (env : Environment) (keeps : env.libraries.KeepsLength)
    (arguments : List Bytes) : ∃ transcript, run env arguments = .ok transcript := by
  rw [run]
  cases env.libraries.invocation arguments with
  | refused reason => exact ⟨_, rfl⟩
  | answered text => exact ⟨_, rfl⟩
  | call flags operand => exact exists_execute keeps flags operand

/-- On a terminal, with a line that standardizing makes plain and that is refused all
the same: its number is out of range.  Then the user interrupts. -/
theorem run_breaks_no_precondition_interrupted :
    Stock.libraries.KeepsLength ∧
      ∃ transcript,
        run
          { libraries := Stock.libraries
            files := fun _ => .error .notFound
            input := ⟨[], none⟩
            editor := some (.ok [.ok (Bytes.ofString "[1e999,]"), .error .interrupt]) }
          [Bytes.ofString "--interactive", Bytes.ofString "--jwcc"] = .ok transcript :=
  ⟨Stock.libraries_keepsLength, run_breaks_no_precondition _ Stock.libraries_keepsLength _⟩

end Command

end JsonFit
