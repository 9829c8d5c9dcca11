import JsonFit.Proofs.Parser.Laws
import JsonFit.Proofs.Parser.Rounds
import JsonFit.Proofs.Parser.Success

/-!
# What repetitions come to

A repetition has four ways on from a cursor.  Its part is read and has moved: then it
goes on from behind the part, with the value in front.  The part fails retryably, or is
read without moving: then the repetition ends where it stands, and the value of such a
part is dropped.  Or the part fails committed, and this is the failure of the
repetition.

A whole run is a chain of rounds of the first kind and one exit of another kind behind
them.  Nothing else is remembered: a repetition goes on from the end of any of its rounds
as one that begins there.
-/

namespace JsonFit.Parser

variable {α : Type} {allowed : Fault → Prop} {p : Parser α}
variable {c next last : Cursor} {value : α} {values : List α} {budget : Nat} {e : Failure}

/-- A part that is read and does not stay is a round. -/
theorem Orderly.advances (orderly : p.Orderly allowed) (inRange : c.InRange)
    (taken : p c = .success value next) (moved : next.offset ≠ c.offset) :
    Advances p c value next := by
  have notBefore := (orderly.reaches inRange taken).notBefore
  exact ⟨taken, by omega⟩

/-- The part of a repetition is read no further: it fails retryably, or is read without
moving. -/
def Completes (p : Parser α) (c : Cursor) : Prop :=
  p.Declines c ∨ ∃ value, p c = .success value c

theorem many_of_completes (completes : Completes p c) : many p c = .success [] c := by
  rw [many, manyLoop]
  rcases completes with ⟨e, failed, retry⟩ | ⟨value, taken⟩
  · simp [failed, retry]
  · simp [taken]

theorem many_of_committed (failed : p c = .failure e) (committed : e.retry = false) :
    many p c = .failure e := by
  simp [many, manyLoop, failed, committed]

section Orderly

variable (orderly : p.Orderly allowed)
include orderly

/-- The values that a loop has brought along stand in front of what it reads, and every
budget that exceeds the bytes left is enough. -/
theorem manyLoop_eq_many (inRange : c.InRange) (enough : c.remaining < budget) :
    manyLoop p budget values c = (many p c).map (values.reverse ++ ·) := by
  induction left : c.remaining using Nat.strongRecOn generalizing budget values c with
  | ind count ih =>
      obtain ⟨budget, rfl⟩ := Nat.exists_eq_add_one.mpr (Nat.zero_lt_of_lt enough)
      rw [many, manyLoop, manyLoop]
      cases taken : p c with
      | success value next =>
          by_cases moved : next.offset = c.offset
          · simp [moved, Outcome.map]
          · have reaches := orderly.reaches inRange taken
            have less := reaches.remaining_lt (orderly.advances inRange taken moved).2
            have further {budget' : Nat} (enough' : next.remaining < budget')
                (earlier : List α) :
                manyLoop p budget' earlier next = (many p next).map (earlier.reverse ++ ·) :=
              ih next.remaining (left ▸ less) (reaches.inRange inRange) enough' rfl
            dsimp only
            rw [if_neg moved, if_neg moved, further (by omega), further less]
            simp [Function.comp_def]
      | failure e => cases standing : e.retry <;> simp [standing, Outcome.map]
      | fault f => rfl
      | exhausted => rfl

/-- A repetition goes on behind a round, with the value of the round in front. -/
theorem many_of_advances (inRange : c.InRange) (here : Advances p c value next) :
    many p c = (many p next).map (value :: ·) := by
  have reaches := orderly.reaches inRange here.1
  have less := reaches.remaining_lt here.2
  rw [many, manyLoop_of_advances here,
    manyLoop_eq_many orderly (reaches.inRange inRange) less]
  simp

/-- A repetition goes on behind its rounds, with their values in front. -/
theorem many_of_rounds (inRange : c.InRange) (rounds : Rounds (Advances p) c values last) :
    many p c = (many p last).map (values ++ ·) := by
  induction rounds with
  | nil c => exact (Outcome.map_id _).symm
  | cons here others ih =>
      have reaches := orderly.reaches inRange here.1
      rw [many_of_advances orderly inRange here, ih (reaches.inRange inRange), Outcome.map_map]
      rfl

/-- A repetition is made of rounds and one exit behind them. -/
theorem many_cases (inRange : c.InRange) :
    ∃ values last, Rounds (Advances p) c values last ∧
      ((Completes p last ∧ many p c = .success values last) ∨
        (∃ e, p last = .failure e ∧ e.retry = false ∧ many p c = .failure e) ∨
        (∃ f, many p c = .fault f) ∨ many p c = .exhausted) := by
  obtain ⟨values, last, rounds, stops, _, lastInRange⟩ :=
    exists_rounds_of_forward (fun _ _ _ => orderly.reaches) inRange
  refine ⟨values, last, rounds, ?_⟩
  rw [many_of_rounds orderly inRange rounds]
  cases taken : p last with
  | success value next =>
      have unmoved : next.offset = last.offset :=
        Decidable.byContradiction fun moved =>
          stops value next (orderly.advances lastInRange taken moved)
      obtain rfl := (orderly.reaches lastInRange taken).eq_of_offset_eq unmoved
      have completes : Completes p next := .inr ⟨value, taken⟩
      exact .inl ⟨completes, by simp [many_of_completes completes, Outcome.map]⟩
  | failure e =>
      cases standing : e.retry with
      | false => exact .inr (.inl ⟨e, rfl, standing, by rw [many_of_committed taken standing]; rfl⟩)
      | true =>
          have completes : Completes p last := .inl ⟨e, taken, standing⟩
          exact .inl ⟨completes, by simp [many_of_completes completes, Outcome.map]⟩
  | fault f => exact .inr (.inr (.inl ⟨f, by simp [many, manyLoop, taken, Outcome.map]⟩))
  | exhausted => exact .inr (.inr (.inr (by simp [many, manyLoop, taken, Outcome.map])))

theorem many_eq_success_iff (inRange : c.InRange) :
    many p c = .success values last ↔
      Rounds (Advances p) c values last ∧ Completes p last := by
  constructor
  · intro succeeded
    obtain ⟨_, _, rounds, ⟨completes, same⟩ | ⟨_, _, _, same⟩ | ⟨_, same⟩ | same⟩ :=
      many_cases orderly inRange
    · rw [succeeded] at same
      cases same
      exact ⟨rounds, completes⟩
    all_goals
      rw [succeeded] at same
      contradiction
  · rintro ⟨rounds, completes⟩
    rw [many_of_rounds orderly inRange rounds, many_of_completes completes]
    simp [Outcome.map]

theorem many_eq_failure_iff (inRange : c.InRange) :
    many p c = .failure e ↔
      ∃ values last, Rounds (Advances p) c values last ∧ p last = .failure e ∧
        e.retry = false := by
  constructor
  · intro failed
    obtain ⟨values, last, rounds, ⟨_, same⟩ | ⟨e', failed', committed, same⟩ | ⟨_, same⟩ | same⟩ :=
      many_cases orderly inRange
    · rw [failed] at same
      contradiction
    · rw [failed] at same
      cases same
      exact ⟨values, last, rounds, failed', committed⟩
    all_goals
      rw [failed] at same
      contradiction
  · rintro ⟨values, last, rounds, failed, committed⟩
    rw [many_of_rounds orderly inRange rounds, many_of_committed failed committed]
    rfl

/-- Where a repetition has ended there is nothing left to repeat. -/
theorem many_again (inRange : c.InRange) (succeeded : many p c = .success values last) :
    many p last = .success [] last :=
  many_of_completes ((many_eq_success_iff orderly inRange).mp succeeded).2

end Orderly

end JsonFit.Parser
