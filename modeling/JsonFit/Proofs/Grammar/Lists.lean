import JsonFit.Proofs.Grammar.Laws
import JsonFit.Proofs.Grammar.Progress
import JsonFit.Proofs.Parser.Rounds

/-!
# Lists as repetitions

A list is a first element and a repetition of a delimiter and an element, or it is
empty.  The loop of a list commits failures in its own way; the other form owes its
commitment to sequences, repetitions and choices.  The two come to the same thing as
long as every delimiter has passed a byte.  A delimiter that is read on the spot is
where they differ: there the list commits a failure of the next element, while the
repetition ends in front of it.

The loops are compared for parsers first, turn by turn.  For grammars the outcome of a
list is then the one that it has with any budget that is enough.
-/

namespace JsonFit

namespace Parser

variable {α β : Type} {allowed : Fault → Prop} {p : Parser α} {delimiter : Parser β}
variable {start middle c : Cursor} {budget budget' : Nat}

/-- A repetition ends at a retryable failure, and reports none. -/
theorem manyLoop_failure_committed {values : List α} {e : Failure}
    (failed : manyLoop p budget values c = .failure e) : e.retry = false := by
  induction budget generalizing values c with
  | zero => cases failed
  | succ budget ih =>
      rw [manyLoop] at failed
      cases taken : p c with
      | success value next =>
          rw [taken] at failed
          dsimp only at failed
          split at failed
          · cases failed
          · exact ih failed
      | failure e' =>
          rw [taken] at failed
          dsimp only at failed
          split at failed
          · cases failed
          · rename_i committed
            cases failed
            simpa using committed
      | fault f =>
          rw [taken] at failed
          cases failed
      | exhausted =>
          rw [taken] at failed
          cases failed

theorem Failure.commit_of_committed {e : Failure} (committed : e.retry = false) : e.commit = e := by
  cases e
  cases committed
  rfl

/-- There is nothing to commit behind a sequence whose second part is a repetition. -/
theorem committing_many : committing start middle (many p c) = many p c := by
  cases outcome : many p c with
  | failure e =>
      have unchanged := Failure.commit_of_committed (manyLoop_failure_committed outcome)
      simp [committing, Outcome.mapFailure, Outcome.recover, Failure.commitIf, unchanged]
  | success values next => rfl
  | fault f => rfl
  | exhausted => rfl

/-- One turn of a list: a delimiter, and the element behind it. -/
def turn (p : Parser α) (delimiter : Parser β) : Parser α :=
  map Prod.snd (both delimiter p)

theorem turn_eq (c : Cursor) :
    turn p delimiter c = (delimiter c).andThen fun _ middle => committing c middle (p middle) := by
  rw [turn, map_both]
  congr 1
  funext _ middle
  exact congrArg (committing c middle) (Outcome.map_id _)

theorem turn_eq_success_iff {value : α} {next : Cursor} :
    turn p delimiter c = .success value next ↔ Continues p delimiter c value next := by
  simp only [turn_eq, Outcome.andThen_eq_success_iff, committing_eq_success_iff, Continues]

/-- Where a delimiter has moved, the loop of a list treats a failure of the element as a
turn reports it. -/
theorem sepByLoop_succ {values : List α}
    (moves : ∀ separator middle, delimiter c = .success separator middle →
      middle.offset ≠ c.offset) :
    sepByLoop p delimiter (budget + 1) values c =
      match turn p delimiter c with
      | .success value next => sepByLoop p delimiter budget (value :: values) next
      | .failure e => if e.retry then .success values.reverse c else .failure e
      | .fault f => .fault f
      | .exhausted => .exhausted := by
  rw [sepByLoop, turn_eq]
  cases delimited : delimiter c with
  | success separator middle =>
      have moved := moves separator middle delimited
      dsimp only [Outcome.andThen]
      cases taken : p middle with
      | success value next => rfl
      | failure e =>
          rw [committing_failure_of_moved moved]
          rfl
      | fault f => rfl
      | exhausted => rfl
  | failure e => rfl
  | fault f => rfl
  | exhausted => rfl

section Moving

variable (item : p.Orderly allowed) (between : delimiter.Orderly allowed)
variable (advances : ∀ ⦃c separator middle⦄, c.InRange →
  delimiter c = .success separator middle → c.offset < middle.offset)
include item between advances

/-- Turn by turn, the loop of a list reads what a repetition of turns reads, with the
first element in front. -/
theorem sepByLoop_eq_manyLoop (first : α) (values : List α) (inRange : c.InRange)
    (enough : c.remaining < budget) (enough' : c.remaining < budget') :
    sepByLoop p delimiter budget (values ++ [first]) c =
      (manyLoop (turn p delimiter) budget' values c).map (first :: ·) := by
  induction budget generalizing budget' values c with
  | zero => contradiction
  | succ budget ih =>
      obtain ⟨budget', rfl⟩ := Nat.exists_eq_add_one.mpr (Nat.zero_lt_of_lt enough')
      rw [sepByLoop_succ fun _ _ delimited => Int.ne_of_gt (advances inRange delimited), manyLoop]
      cases turned : turn p delimiter c with
      | success value next =>
          obtain ⟨separator, middle, delimited, taken⟩ := turn_eq_success_iff.mp turned
          have moved := advances inRange delimited
          have reaches := between.reaches inRange delimited
          have further := item.reaches (reaches.inRange inRange) taken
          have notBefore := further.notBefore
          have less := (reaches.trans further).remaining_lt (by omega)
          have unlike : next.offset ≠ c.offset := by omega
          have rest := ih (value :: values) ((reaches.trans further).inRange inRange)
            (Nat.lt_of_lt_of_le less (Nat.le_of_lt_succ enough))
            (Nat.lt_of_lt_of_le less (Nat.le_of_lt_succ enough'))
          dsimp only
          rw [if_neg unlike]
          exact rest
      | failure e => cases standing : e.retry <;> simp [standing, Outcome.map]
      | fault f => rfl
      | exhausted => rfl

/-- A list is a first element and a repetition of turns, or empty. -/
theorem sepBy_eq_orElse (inRange : c.InRange) (enough : c.remaining < budget) :
    sepBy budget p delimiter c =
      orElse (map (fun parts => parts.1 :: parts.2) (both p (many (turn p delimiter))))
        (succeed []) c := by
  rw [sepBy, orElse, map_both]
  cases taken : p c with
  | success first next =>
      have reaches := item.reaches inRange taken
      have loops := sepByLoop_eq_manyLoop item between advances first []
        (reaches.inRange inRange) (Nat.lt_of_le_of_lt reaches.remaining_le enough)
        (Nat.lt_succ_self next.remaining)
      dsimp only [Outcome.andThen]
      rw [committing_map, committing_many]
      rw [List.nil_append] at loops
      rw [loops, many]
      cases repeated : manyLoop (turn p delimiter) (next.remaining + 1) [] next with
      | failure e => simp [Outcome.map, Outcome.recover, manyLoop_failure_committed repeated]
      | success values last => rfl
      | fault f => rfl
      | exhausted => rfl
  | failure e => rfl
  | fault f => rfl
  | exhausted => rfl

end Moving

end Parser

namespace Grammar

variable {Rule : Type} {Result : Rule → Type} {α β : Type}
variable (rules : (r : Rule) → Grammar Result (Result r))

/-- With a budget that exceeds the bytes left, a list runs as a first element and a
repetition of a delimiter and an element, or as nothing. -/
theorem run_sepBy_eq {budget : Nat} {p : Grammar Result α} {delimiter : Grammar Result β}
    (advances : ∀ ⦃c separator middle⦄, c.InRange →
      run rules budget delimiter c = .success separator middle → c.offset < middle.offset)
    {c : Cursor} (inRange : c.InRange) (enough : c.remaining < budget) :
    run rules budget (sepBy p delimiter) c =
      run rules budget
        (orElse (map (fun parts => parts.1 :: parts.2) (both p (many (andThen delimiter p))))
          (succeed [])) c :=
  Parser.sepBy_eq_orElse (run_orderly_any rules budget p) (run_orderly_any rules budget delimiter)
    advances inRange enough

/-- If every delimiter that is read passes a byte, a list comes out as a first element
and a repetition of a delimiter and an element, or as nothing: with the same values and
the same cursor, or with the same failure. -/
theorem sepBy_endsIn_iff (p : Grammar Result α) (delimiter : Grammar Result β)
    (advances : ∀ ⦃c separator middle⦄, c.InRange →
      EndsIn rules delimiter c (.success separator middle) → c.offset < middle.offset)
    {c : Cursor} (inRange : c.InRange) (outcome : Parser.Outcome (List α)) :
    EndsIn rules (sepBy p delimiter) c outcome ↔
      EndsIn rules
        (orElse (map (fun parts => parts.1 :: parts.2) (both p (many (andThen delimiter p))))
          (succeed [])) c outcome := by
  apply endsIn_congr rules inRange (c.remaining + 1)
  intro budget enough
  apply run_sepBy_eq rules _ inRange enough
  intro d separator middle dInRange delimited
  exact advances dInRange ⟨trivial, budget, delimited⟩

/-- In `1,2,]` a value is missing behind the second comma, at offset 4. -/
private theorem run_missing :
    run (fun _ => Json.Rules.value) 6
        (sepBy Json.Rules.anyValue (literal (Bytes.ofString ",")))
        (Cursor.ofBytes (Bytes.ofString "1,2,]")) =
      .failure ⟨.worded (Bytes.ofString "expected a JSON value"), false, 4⟩ := by
  rfl

/-- The failure behind the last comma is committed in the form with a repetition, too. -/
theorem sepBy_endsIn_iff_missing :
    (∀ ⦃c separator middle⦄, c.InRange →
      EndsIn (fun _ => Json.Rules.value) (literal (Bytes.ofString ",")) c
        (.success separator middle) → c.offset < middle.offset) ∧
    (Cursor.ofBytes (Bytes.ofString "1,2,]")).InRange ∧
    EndsIn (fun _ => Json.Rules.value)
      (orElse
        (map (fun parts => parts.1 :: parts.2)
          (both Json.Rules.anyValue
            (many (andThen (literal (Bytes.ofString ",")) Json.Rules.anyValue))))
        (succeed []))
      (Cursor.ofBytes (Bytes.ofString "1,2,]"))
      (.failure ⟨.worded (Bytes.ofString "expected a JSON value"), false, 4⟩) := by
  have advances : ∀ ⦃c separator middle⦄, c.InRange →
      EndsIn (fun _ => Json.Rules.value) (literal (Bytes.ofString ",")) c
        (.success separator middle) → c.offset < middle.offset := by
    rintro c separator middle inRange ⟨_, budget, taken⟩
    obtain ⟨before, ahead, rfl⟩ := inRange.exists_between
    obtain ⟨rfl, rest, rfl, rfl⟩ := Parser.literal_success_cases taken
    have length : (Bytes.ofString ",").length = 1 := by rfl
    simp only [Cursor.offset_between, List.length_append, length]
    omega
  have inRange := Cursor.inRange_ofBytes (Bytes.ofString "1,2,]")
  exact ⟨advances, inRange,
    (sepBy_endsIn_iff _ _ _ advances inRange _).mp ⟨trivial, 6, run_missing⟩⟩

end Grammar

end JsonFit
