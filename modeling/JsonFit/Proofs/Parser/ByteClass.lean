import JsonFit.Proofs.Parser.Atoms
import JsonFit.Proofs.Parser.Success

/-!
# Classes of bytes

A parser that reads one byte of a class, and declines in front of all else, reads
in a repetition the longest run of such bytes.
-/

namespace JsonFit.Parser

open Cursor (between)

/-- The text does not begin with a byte of the class. -/
def Clear (cls : UInt8 → Bool) (text : Bytes) : Prop :=
  ∀ b ∈ text.head?, cls b = false

section Clear

variable (cls : UInt8 → Bool)

@[simp]
theorem clear_nil : Clear cls [] := by
  simp [Clear]

@[simp]
theorem clear_cons (b : UInt8) (rest : Bytes) : Clear cls (b :: rest) ↔ cls b = false := by
  simp [Clear]

/-- A text that is not clear of the class begins with a byte of it. -/
theorem exists_cons_of_not_clear {text : Bytes} (begins : ¬ Clear cls text) :
    ∃ b rest, text = b :: rest ∧ cls b = true := by
  cases text with
  | nil => exact absurd (clear_nil cls) begins
  | cons b rest => exact ⟨b, rest, rfl, by simpa using begins⟩

theorem clear_dropWhile (text : Bytes) : Clear cls (text.dropWhile cls) := by
  intro b here
  have outside := List.head?_dropWhile_not cls text
  rw [Option.mem_def.mp here] at outside
  exact outside

/-- Every text is a run of the class and a text that does not go on with it. -/
theorem exists_run (text : Bytes) :
    ∃ run rest, text = run ++ rest ∧ (∀ b ∈ run, cls b = true) ∧ Clear cls rest :=
  ⟨text.takeWhile cls, text.dropWhile cls, (List.takeWhile_append_dropWhile).symm,
    List.all_eq_true.mp List.all_takeWhile, clear_dropWhile cls text⟩

end Clear

/-- The parser reads one byte of the class, and leaves the choice open in front
of anything else. -/
structure ReadsOne (p : Parser Int) (cls : UInt8 → Bool) : Prop where
  taken : ∀ before b rest, cls b = true →
    p (between before (b :: rest)) = .success b.toNat (between (before ++ [b]) rest)
  declined : ∀ before ahead, Clear cls ahead → p.Declines (between before ahead)

namespace ReadsOne

variable {p q : Parser Int} {cls other : UInt8 → Bool}

theorem attempt (reads : ReadsOne p cls) : ReadsOne (Parser.attempt p) cls where
  taken before b rest inClass := attempt_eq_success_iff.mpr (reads.taken before b rest inClass)
  declined before ahead clear := by
    rcases reads.declined before ahead clear with ⟨e, failed, _⟩
    exact declines_attempt failed

theorem orElse (first : ReadsOne p cls) (second : ReadsOne q other) :
    ReadsOne (Parser.orElse p q) fun b => cls b || other b where
  taken before b rest inClass := by
    cases inFirst : cls b with
    | true => exact orElse_of_success (first.taken before b rest inFirst)
    | false =>
        have declines := first.declined before (b :: rest) (by simpa using inFirst)
        rw [orElse_of_declines declines]
        exact second.taken before b rest (by simpa [inFirst] using inClass)
  declined before ahead clear := by
    apply Declines.orElse
    · exact first.declined before ahead fun b here => (Bool.or_eq_false_iff.mp (clear b here)).1
    · exact second.declined before ahead fun b here => (Bool.or_eq_false_iff.mp (clear b here)).2

/-- What has been read is a byte of the class. -/
theorem success_cases (reads : ReadsOne p cls) {before ahead : Bytes} {point : Int}
    {next : Cursor} (succeeded : p (between before ahead) = .success point next) :
    ∃ b rest, cls b = true ∧ ahead = b :: rest ∧ next = between (before ++ [b]) rest := by
  by_cases clear : Clear cls ahead
  · obtain ⟨e, failed, _⟩ := reads.declined before ahead clear
    rw [succeeded] at failed
    contradiction
  · obtain ⟨b, rest, rfl, inClass⟩ := exists_cons_of_not_clear cls clear
    rw [reads.taken before b rest inClass] at succeeded
    cases succeeded
    exact ⟨b, rest, inClass, rfl, rfl⟩

/-- The loop reads the run ahead to its end, and not further. -/
theorem manyLoop (reads : ReadsOne p cls) {run rest : Bytes}
    (inClass : ∀ b ∈ run, cls b = true) (clear : Clear cls rest) (before : Bytes) {budget : Nat}
    (enough : run.length < budget) (values : List Int) :
    Parser.manyLoop p budget values (between before (run ++ rest)) =
      .success (values.reverse ++ run.map fun b => (b.toNat : Int))
        (between (before ++ run) rest) := by
  obtain ⟨budget, rfl⟩ := Nat.exists_eq_add_one_of_ne_zero (Nat.ne_zero_of_lt enough)
  induction run generalizing before budget values with
  | nil =>
      rcases reads.declined before rest clear with ⟨e, failed, retry⟩
      simp [Parser.manyLoop, failed, retry]
  | cons b run ih =>
      have taken := reads.taken before b (run ++ rest) (inClass b List.mem_cons_self)
      obtain ⟨budget, rfl⟩ : ∃ fewer, budget = fewer + 1 := by
        simp only [List.length_cons] at enough
        exact Nat.exists_eq_add_one_of_ne_zero (by omega)
      have moved : ¬ ((before ++ [b]).length : Int) = before.length := by
        simp only [List.length_append, List.length_singleton]
        omega
      rw [List.cons_append, Parser.manyLoop, taken]
      simp only [Cursor.offset_between, moved, if_false]
      rw [ih (fun b' member => inClass b' (List.mem_cons_of_mem b member)) (before ++ [b])
        ((b.toNat : Int) :: values) budget (by simpa using enough)]
      simp

/-- A repetition reads the longest run of the class. -/
theorem many (reads : ReadsOne p cls) {run rest : Bytes} (inClass : ∀ b ∈ run, cls b = true)
    (clear : Clear cls rest) (before : Bytes) :
    Parser.many p (between before (run ++ rest)) =
      .success (run.map fun b => (b.toNat : Int)) (between (before ++ run) rest) := by
  have enough : run.length < (between before (run ++ rest)).remaining + 1 := by
    rw [Cursor.remaining_between, List.length_append]
    omega
  rw [Parser.many, reads.manyLoop inClass clear before enough]
  simp

end ReadsOne

end JsonFit.Parser
