import JsonFit.Proofs.Parser.ByteClass
import JsonFit.Proofs.Parser.Orderly

/-!
# Runs that end

A run gives up when a budget is spent.  `EndsWithin bound` says that this does
not happen with fewer than `bound` bytes ahead, and every combinator keeps it.

Two things are counted.  A loop spends one unit of its budget on every turn, and
a turn passes at least one byte.  And a sequence whose first part passes bytes
asks less of its second part: this is what pays for the calls of rules.
-/

namespace JsonFit.Parser

open Cursor (between)

variable {α β : Type} {p q : Parser α} {delimiter : Parser β} {bound later count : Nat}

namespace Outcome.Ended

variable {outcome : Outcome α}

theorem of_success {value : α} {next : Cursor} (succeeded : outcome = .success value next) :
    outcome.Ended :=
  succeeded ▸ trivial

theorem of_failure {e : Failure} (failed : outcome = .failure e) : outcome.Ended :=
  failed ▸ trivial

theorem map (ended : outcome.Ended) (f : α → β) : (outcome.map f).Ended := by
  cases outcome <;> trivial

theorem andThen {k : α → Cursor → Outcome β} (ended : outcome.Ended)
    (further : ∀ value next, outcome = .success value next → (k value next).Ended) :
    (outcome.andThen k).Ended := by
  cases outcome with
  | success value next => exact further value next rfl
  | failure e => trivial
  | fault f => trivial
  | exhausted => contradiction

theorem recover {k : Failure → Outcome α} (ended : outcome.Ended)
    (further : ∀ e, (k e).Ended) : (outcome.recover k).Ended := by
  cases outcome with
  | success value next => trivial
  | failure e => exact further e
  | fault f => trivial
  | exhausted => contradiction

theorem mapFailure (ended : outcome.Ended) (f : Failure → Failure) :
    (outcome.mapFailure f).Ended :=
  ended.recover fun _ => trivial

end Outcome.Ended

/-- Where the parser succeeds, it has passed at least so many bytes. -/
def Passes (count : Nat) (p : Parser α) : Prop :=
  ∀ ⦃before ahead value next⦄, p (between before ahead) = .success value next →
    ∃ passed rest, ahead = passed ++ rest ∧ count ≤ passed.length ∧
      next = between (before ++ passed) rest

/-- No run goes back. -/
theorem Orderly.passes {allowed : Fault → Prop} (orderly : p.Orderly allowed) : Passes 0 p := by
  intro before ahead value next succeeded
  have reaches := orderly (Cursor.inRange_between before ahead)
  rw [succeeded, Outcome.orderly_success] at reaches
  obtain ⟨passed, rest, split, nextEq⟩ := reaches.exists_between
  exact ⟨passed, rest, split, Nat.zero_le _, nextEq⟩

theorem ReadsOne.passes {p : Parser Int} {cls : UInt8 → Bool} (reads : ReadsOne p cls) :
    Passes 1 p := by
  intro before ahead point next succeeded
  obtain ⟨b, rest, _, rfl, rfl⟩ := reads.success_cases succeeded
  exact ⟨[b], rest, rfl, Nat.le_refl 1, rfl⟩

theorem Passes.le {fewer : Nat} (passes : Passes count p) (le : fewer ≤ count) :
    Passes fewer p := by
  intro before ahead value next succeeded
  obtain ⟨passed, rest, split, enough, nextEq⟩ := passes succeeded
  exact ⟨passed, rest, split, Nat.le_trans le enough, nextEq⟩

/-- With fewer bytes ahead than the bound, the run does not give up. -/
def EndsWithin (bound : Nat) (p : Parser α) : Prop :=
  ∀ ⦃before ahead⦄, ahead.length < bound → (p (between before ahead)).Ended

theorem literal_endsWithin (text : Bytes) : EndsWithin bound (literal text) := by
  intro before ahead _
  rcases literal_cases before text ahead with ⟨rest, _, taken⟩ | ⟨cause, failed⟩
  · exact .of_success taken
  · exact .of_failure failed

theorem char_endsWithin (point : Int) : EndsWithin bound (char point) := by
  intro before ahead _
  rcases char_cases before point ahead with ⟨rest, _, taken⟩ | ⟨cause, failed⟩
  · exact .of_success taken
  · exact .of_failure failed

theorem upTo_endsWithin (delimiter : Bytes) : EndsWithin bound (upTo delimiter) := by
  intro before ahead _
  rcases upTo_cases before delimiter ahead with ⟨count, _, _, taken⟩ | ⟨cause, failed⟩
  · exact .of_success taken
  · exact .of_failure failed

theorem finish_endsWithin : EndsWithin bound finish := by
  intro before ahead _
  rcases finish_cases before ahead with ⟨_, taken⟩ | ⟨cause, failed⟩
  · exact .of_success taken
  · exact .of_failure failed

theorem ReadsOne.endsWithin {p : Parser Int} {cls : UInt8 → Bool} (reads : ReadsOne p cls) :
    EndsWithin bound p := by
  intro before ahead _
  by_cases clear : Clear cls ahead
  · obtain ⟨e, failed, _⟩ := reads.declined before ahead clear
    exact .of_failure failed
  · obtain ⟨b, rest, rfl, inClass⟩ := exists_cons_of_not_clear cls clear
    exact .of_success (reads.taken before b rest inClass)

namespace EndsWithin

theorem map (ends : EndsWithin bound p) (f : α → β) : EndsWithin bound (Parser.map f p) :=
  fun _ _ short => (ends short).map f

theorem attempt (ends : EndsWithin bound p) : EndsWithin bound (Parser.attempt p) :=
  fun _ _ short => (ends short).mapFailure _

theorem orElse (first : EndsWithin bound p) (second : EndsWithin bound q) :
    EndsWithin bound (Parser.orElse p q) := by
  intro before ahead short
  apply (first short).recover
  intro e
  split
  · exact second short
  · trivial

/-- What the first part passes is saved for the second. -/
theorem bind {f : α → Parser β} (first : EndsWithin bound p) (passes : Passes count p)
    (second : ∀ value, EndsWithin later (f value)) (saved : bound ≤ later + count) :
    EndsWithin bound (Parser.bind p f) := by
  intro before ahead short
  apply (first short).andThen
  intro value next taken
  obtain ⟨passed, rest, rfl, enough, rfl⟩ := passes taken
  rw [List.length_append] at short
  exact (second value (by omega)).mapFailure _

theorem both (first : EndsWithin bound p) (passes : Passes count p)
    (second : EndsWithin later delimiter) (saved : bound ≤ later + count) :
    EndsWithin bound (Parser.both p delimiter) := by
  intro before ahead short
  apply (first short).andThen
  intro value next taken
  obtain ⟨passed, rest, rfl, enough, rfl⟩ := passes taken
  rw [List.length_append] at short
  exact ((second (by omega)).map _).mapFailure _

/-- A turn that goes on has passed a byte. -/
theorem manyLoop (ends : EndsWithin bound p) (passes : Passes 0 p) {budget : Nat}
    (values : List α) {before ahead : Bytes} (enough : ahead.length < budget)
    (short : ahead.length < bound) :
    (Parser.manyLoop p budget values (between before ahead)).Ended := by
  induction budget generalizing values before ahead with
  | zero => contradiction
  | succ budget ih =>
      have ended : (p (between before ahead)).Ended := ends short
      rw [Parser.manyLoop]
      cases taken : p (between before ahead) with
      | success value next =>
          obtain ⟨passed, rest, rfl, _, rfl⟩ := passes taken
          dsimp only
          split
          · trivial
          · rename_i moved
            simp only [Cursor.offset_between, List.length_append] at moved enough short
            exact ih _ (by omega) (by omega)
      | failure e =>
          dsimp only
          split <;> trivial
      | fault f => trivial
      | exhausted =>
          rw [taken] at ended
          contradiction

theorem many (ends : EndsWithin bound p) (passes : Passes 0 p) :
    EndsWithin bound (Parser.many p) := by
  intro before ahead short
  apply ends.manyLoop passes [] _ short
  rw [Cursor.remaining_between]
  exact Nat.lt_succ_self _

/-- Every delimiter passes a byte. -/
theorem sepByLoop (item : EndsWithin bound p) (itemPasses : Passes 0 p)
    (separator : EndsWithin bound delimiter) (separatorPasses : Passes 1 delimiter) {budget : Nat}
    (values : List α) {before ahead : Bytes} (enough : ahead.length < budget)
    (short : ahead.length < bound) :
    (Parser.sepByLoop p delimiter budget values (between before ahead)).Ended := by
  induction budget generalizing values before ahead with
  | zero => contradiction
  | succ budget ih =>
      have ended : (delimiter (between before ahead)).Ended := separator short
      rw [Parser.sepByLoop]
      cases delimited : delimiter (between before ahead) with
      | success _ middle =>
          obtain ⟨passed, rest, rfl, some, rfl⟩ := separatorPasses delimited
          rw [List.length_append] at enough short
          have itemEnded : (p (between (before ++ passed) rest)).Ended := item (by omega)
          dsimp only
          cases taken : p (between (before ++ passed) rest) with
          | success value next =>
              obtain ⟨passed', rest, rfl, _, rfl⟩ := itemPasses taken
              rw [List.length_append] at enough short
              exact ih _ (by omega) (by omega)
          | failure e => trivial
          | fault f => trivial
          | exhausted =>
              rw [taken] at itemEnded
              contradiction
      | failure e =>
          dsimp only
          split <;> trivial
      | fault f => trivial
      | exhausted =>
          rw [delimited] at ended
          contradiction

theorem sepBy (item : EndsWithin bound p) (itemPasses : Passes 0 p)
    (separator : EndsWithin bound delimiter) (separatorPasses : Passes 1 delimiter) :
    EndsWithin bound (Parser.sepBy bound p delimiter) := by
  intro before ahead short
  have ended : (p (between before ahead)).Ended := item short
  rw [Parser.sepBy]
  cases taken : p (between before ahead) with
  | success value next =>
      obtain ⟨passed, rest, rfl, _, rfl⟩ := itemPasses taken
      rw [List.length_append] at short
      exact item.sepByLoop itemPasses separator separatorPasses [value] (by omega) (by omega)
  | failure e =>
      dsimp only
      split <;> trivial
  | fault f => trivial
  | exhausted =>
      rw [taken] at ended
      contradiction

end EndsWithin

end JsonFit.Parser
