import JsonFit.Proofs.Parser.Ending

/-!
# Rounds of loops

A loop makes rounds: each of them reads a value and hands on the cursor behind it.
The budget of a loop is the number of rounds that it may begin, so a loop that ends
with no budget does not end at all.

A repetition goes on only where its part has moved, and so it begins at most one round
more than there are bytes left.  A list has no such rule: it goes on wherever a
delimiter and an element are read.  It does not end exactly if it comes to a cursor at
which both are read without moving, for there each round is like the one before.

Nothing is assumed of the parsers but that their runs end and do not go back.
-/

namespace JsonFit.Parser

variable {α β : Type} {p : Parser α} {delimiter : Parser β}
variable {c next last : Cursor} {value : α} {values before : List α} {budget : Nat}

/-- A parser whose runs from cursors in range end, and never move the cursor backward
or out of its text. -/
structure Steady (p : Parser α) : Prop where
  ended : ∀ ⦃c⦄, c.InRange → (p c).Ended
  forward : ∀ ⦃c value next⦄, c.InRange → p c = .success value next → c.Reaches next

theorem Orderly.steady {allowed : Fault → Prop} (orderly : p.Orderly allowed)
    (ends : ∀ bound, EndsWithin bound p) : Steady p where
  ended c inRange := by
    obtain ⟨before, ahead, rfl⟩ := inRange.exists_between
    exact ends (ahead.length + 1) (Nat.lt_succ_self _)
  forward _ _ _ := orderly.reaches

theorem many_char_steady (point : Int) : Steady (many (char point)) := by
  have orderly : (char point).Orderly fun _ => True := char_orderly point
  exact orderly.many.steady fun _ => (char_endsWithin point).many orderly.passes

/-- Rounds of a loop from one cursor to another, with the values that they read. -/
inductive Rounds (round : Cursor → α → Cursor → Prop) : Cursor → List α → Cursor → Prop where
  /-- No round. -/
  | nil (c : Cursor) : Rounds round c [] c
  /-- A round in front of others. -/
  | cons {c middle last : Cursor} {value : α} {values : List α} (here : round c value middle)
      (others : Rounds round middle values last) : Rounds round c (value :: values) last

/-! ## Repetitions -/

/-- A round of a repetition that goes on: the part is read, and has moved. -/
def Advances (p : Parser α) (c : Cursor) (value : α) (next : Cursor) : Prop :=
  p c = .success value next ∧ c.offset < next.offset

/-- A repetition has come to its last round: its part fails, or does not move. -/
def Stops (p : Parser α) (c : Cursor) : Prop :=
  ∀ value next, ¬ Advances p c value next

theorem manyLoop_of_advances (here : Advances p c value next) :
    manyLoop p (budget + 1) before c = manyLoop p budget (value :: before) next := by
  obtain ⟨taken, moved⟩ := here
  rw [manyLoop, taken]
  exact if_neg (Int.ne_of_gt moved)

theorem manyLoop_ended_of_stops (steady : Steady p) (inRange : c.InRange) (stops : Stops p c) :
    (manyLoop p (budget + 1) before c).Ended := by
  have ended := steady.ended inRange
  rw [manyLoop]
  cases outcome : p c with
  | success value next =>
      have notBefore := (steady.forward inRange outcome).notBefore
      have unmoved : next.offset = c.offset := by
        have notFurther : ¬ c.offset < next.offset := fun moved => stops value next ⟨outcome, moved⟩
        omega
      dsimp only
      rw [if_pos unmoved]
      trivial
  | failure e =>
      dsimp only
      split <;> trivial
  | fault f => trivial
  | exhausted =>
      rw [outcome] at ended
      contradiction

/-- Rounds of a part that does not go back come to a last one, and each round before it has
read a byte.  By induction on the bytes left. -/
theorem exists_rounds_of_forward
    (forward : ∀ ⦃c value next⦄, c.InRange → p c = .success value next → c.Reaches next)
    (inRange : c.InRange) :
    ∃ values last, Rounds (Advances p) c values last ∧ Stops p last ∧
      values.length ≤ c.remaining ∧ last.InRange := by
  induction left : c.remaining using Nat.strongRecOn generalizing c with
  | ind count ih =>
      by_cases further : ∃ value next, Advances p c value next
      · obtain ⟨value, next, here⟩ := further
        have reaches := forward inRange here.1
        have less := reaches.remaining_lt here.2
        obtain ⟨values, last, others, stops, few, lastInRange⟩ :=
          ih _ (left ▸ less) (reaches.inRange inRange) rfl
        refine ⟨value :: values, last, .cons here others, stops, ?_, lastInRange⟩
        rw [List.length_cons]
        omega
      · refine ⟨[], c, .nil c, ?_, Nat.zero_le _, inRange⟩
        exact fun value next here => further ⟨value, next, here⟩

/-- A repetition comes to its last round. -/
theorem exists_rounds_stops (steady : Steady p) (inRange : c.InRange) :
    ∃ values last, Rounds (Advances p) c values last ∧ Stops p last ∧
      values.length ≤ c.remaining ∧ last.InRange :=
  exists_rounds_of_forward steady.forward inRange

/-- A repetition ends exactly with a budget for all of its rounds and the last one. -/
theorem manyLoop_ended_iff (steady : Steady p) (rounds : Rounds (Advances p) c values last)
    (stops : Stops p last) (inRange : last.InRange) :
    (manyLoop p budget before c).Ended ↔ values.length + 1 ≤ budget := by
  induction rounds generalizing budget before with
  | nil c =>
      cases budget with
      | zero => exact ⟨False.elim, fun enough => absurd enough (Nat.not_succ_le_zero _)⟩
      | succ budget =>
          have ended : (manyLoop p (budget + 1) before c).Ended :=
            manyLoop_ended_of_stops steady inRange stops
          simp [ended]
  | cons here others ih =>
      cases budget with
      | zero => exact ⟨False.elim, fun enough => absurd enough (Nat.not_succ_le_zero _)⟩
      | succ budget =>
          rw [manyLoop_of_advances here, ih stops inRange, List.length_cons]
          exact (Nat.add_le_add_iff_right).symm

/-! ## Lists -/

/-- A round of a list: a delimiter and an element are read. -/
def Continues (p : Parser α) (delimiter : Parser β) (c : Cursor) (value : α) (next : Cursor) :
    Prop :=
  ∃ separator middle, delimiter c = .success separator middle ∧ p middle = .success value next

/-- At this cursor a delimiter and an element are both read without moving. -/
def Stalls (p : Parser α) (delimiter : Parser β) (c : Cursor) : Prop :=
  (∃ separator, delimiter c = .success separator c) ∧ ∃ value, p c = .success value c

theorem sepByLoop_of_continues (here : Continues p delimiter c value next) :
    sepByLoop p delimiter (budget + 1) before c =
      sepByLoop p delimiter budget (value :: before) next := by
  obtain ⟨separator, middle, delimited, taken⟩ := here
  simp only [sepByLoop, delimited, taken]

theorem sepByLoop_ended_of_stops (item : Steady p) (between : Steady delimiter)
    (inRange : c.InRange) (stops : ∀ value next, ¬ Continues p delimiter c value next) :
    (sepByLoop p delimiter (budget + 1) before c).Ended := by
  have ended := between.ended inRange
  rw [sepByLoop]
  cases delimited : delimiter c with
  | success separator middle =>
      have itemEnded := item.ended ((between.forward inRange delimited).inRange inRange)
      dsimp only
      cases taken : p middle with
      | success value next => exact absurd ⟨separator, middle, delimited, taken⟩ (stops value next)
      | failure e => trivial
      | fault f => trivial
      | exhausted =>
          rw [taken] at itemEnded
          contradiction
  | failure e =>
      dsimp only
      split <;> trivial
  | fault f => trivial
  | exhausted =>
      rw [delimited] at ended
      contradiction

/-- Where a list stalls it makes the same round again, with any budget. -/
theorem Stalls.not_ended (stalls : Stalls p delimiter c) :
    ¬ (sepByLoop p delimiter budget before c).Ended := by
  induction budget generalizing before with
  | zero => exact id
  | succ budget ih =>
      obtain ⟨⟨separator, delimited⟩, value, taken⟩ := stalls
      rw [sepByLoop_of_continues ⟨separator, c, delimited, taken⟩]
      exact ih

theorem Rounds.not_ended (rounds : Rounds (Continues p delimiter) c values last)
    (stalls : Stalls p delimiter last) : ¬ (sepByLoop p delimiter budget before c).Ended := by
  induction rounds generalizing budget before with
  | nil c => exact stalls.not_ended
  | cons here others ih =>
      cases budget with
      | zero => exact id
      | succ budget =>
          rw [sepByLoop_of_continues here]
          exact ih stalls

/-- A round that does not move reads its delimiter and its element on the spot. -/
theorem Continues.stalls (item : Steady p) (between : Steady delimiter) (inRange : c.InRange)
    (here : Continues p delimiter c value next) (unmoved : next.offset = c.offset) :
    Stalls p delimiter c := by
  obtain ⟨separator, middle, delimited, taken⟩ := here
  have first := between.forward inRange delimited
  have second := item.forward (first.inRange inRange) taken
  have notBefore := first.notBefore
  have notBefore' := second.notBefore
  obtain rfl : middle = c := first.eq_of_offset_eq (by omega)
  obtain rfl : next = middle := second.eq_of_offset_eq unmoved
  exact ⟨⟨separator, delimited⟩, value, taken⟩

/-- A list that never ends comes to a cursor at which it stalls.  By induction on the
bytes left: a round that moves leaves fewer. -/
theorem exists_rounds_stalls (item : Steady p) (between : Steady delimiter) (inRange : c.InRange)
    (never : ∀ budget, ¬ (sepByLoop p delimiter budget before c).Ended) :
    ∃ values stuck, Rounds (Continues p delimiter) c values stuck ∧ Stalls p delimiter stuck := by
  induction left : c.remaining using Nat.strongRecOn generalizing c before with
  | ind count ih =>
      by_cases further : ∃ value next, Continues p delimiter c value next
      · obtain ⟨value, next, here⟩ := further
        by_cases unmoved : next.offset = c.offset
        · exact ⟨[], c, .nil c, here.stalls item between inRange unmoved⟩
        · have reaches : c.Reaches next := by
            obtain ⟨separator, middle, delimited, taken⟩ := here
            have first := between.forward inRange delimited
            exact first.trans (item.forward (first.inRange inRange) taken)
          have notBefore := reaches.notBefore
          have less := reaches.remaining_lt (by omega)
          have neverFurther (budget : Nat) :
              ¬ (sepByLoop p delimiter budget (value :: before) next).Ended := by
            rw [← sepByLoop_of_continues here]
            exact never (budget + 1)
          obtain ⟨values, stuck, others, stalls⟩ :=
            ih _ (left ▸ less) (reaches.inRange inRange) neverFurther rfl
          exact ⟨value :: values, stuck, .cons here others, stalls⟩
      · refine absurd (sepByLoop_ended_of_stops item between inRange ?_) (never 1)
        exact fun value next here => further ⟨value, next, here⟩

/-- The loop of a list does not end exactly if it comes to a cursor at which it
stalls. -/
theorem sepByLoop_never_ends_iff (item : Steady p) (between : Steady delimiter)
    (inRange : c.InRange) :
    (∀ budget, ¬ (sepByLoop p delimiter budget before c).Ended) ↔
      ∃ values stuck, Rounds (Continues p delimiter) c values stuck ∧
        Stalls p delimiter stuck := by
  constructor
  · exact exists_rounds_stalls item between inRange
  · rintro ⟨values, stuck, rounds, stalls⟩ budget
    exact rounds.not_ended stalls

/-- A list without a first element ends at once. -/
theorem sepBy_ended_of_not_success (ended : (p c).Ended)
    (noFirst : ∀ first start, p c ≠ .success first start) : (sepBy budget p delimiter c).Ended := by
  rw [sepBy]
  cases outcome : p c with
  | success first start => exact absurd outcome (noFirst first start)
  | failure e =>
      dsimp only
      split <;> trivial
  | fault f => trivial
  | exhausted =>
      rw [outcome] at ended
      contradiction

theorem sepBy_never_ends_iff (item : Steady p) (between : Steady delimiter) (inRange : c.InRange) :
    (∀ budget, ¬ (sepBy budget p delimiter c).Ended) ↔
      ∃ first start values stuck, p c = .success first start ∧
        Rounds (Continues p delimiter) start values stuck ∧ Stalls p delimiter stuck := by
  have loop {first : α} {start : Cursor} (taken : p c = .success first start) (budget : Nat) :
      sepBy budget p delimiter c = sepByLoop p delimiter budget [first] start := by
    simp only [sepBy, taken]
  constructor
  · intro never
    by_cases begins : ∃ first start, p c = .success first start
    · obtain ⟨first, start, taken⟩ := begins
      have startInRange := (item.forward inRange taken).inRange inRange
      simp only [loop taken] at never
      obtain ⟨values, stuck, rounds, stalls⟩ :=
        (sepByLoop_never_ends_iff item between startInRange).mp never
      exact ⟨first, start, values, stuck, taken, rounds, stalls⟩
    · refine absurd (sepBy_ended_of_not_success (item.ended inRange) ?_) (never 0)
      exact fun first start taken => begins ⟨first, start, taken⟩
  · rintro ⟨first, start, values, stuck, taken, rounds, stalls⟩ budget
    rw [loop taken]
    exact rounds.not_ended stalls

/-- Let two parsers end wherever they start in range, and never go back or out of the
text.  A repetition of the first ends.  It runs its part once for each round that moves
and once more, and these runs are at most the bytes left and one.  A list, before its
first element or behind it, does not end exactly if it comes to a cursor at which a
delimiter and an element are read without moving. -/
theorem loops_end_iff (item : Steady p) (between : Steady delimiter) (inRange : c.InRange) :
    (∃ values last, Rounds (Advances p) c values last ∧ Stops p last ∧
      values.length + 1 ≤ c.remaining + 1 ∧
      (∀ budget, (manyLoop p budget [] c).Ended ↔ values.length + 1 ≤ budget) ∧
      (many p c).Ended) ∧
    (∀ before, (∀ budget, ¬ (sepByLoop p delimiter budget before c).Ended) ↔
      ∃ values stuck, Rounds (Continues p delimiter) c values stuck ∧
        Stalls p delimiter stuck) ∧
    ((∀ budget, ¬ (sepBy budget p delimiter c).Ended) ↔
      ∃ first start values stuck, p c = .success first start ∧
        Rounds (Continues p delimiter) start values stuck ∧ Stalls p delimiter stuck) := by
  constructor
  · obtain ⟨values, last, rounds, stops, few, lastInRange⟩ := exists_rounds_stops item inRange
    have endsWith (budget : Nat) :
        (manyLoop p budget [] c).Ended ↔ values.length + 1 ≤ budget :=
      manyLoop_ended_iff item rounds stops lastInRange
    have enough : values.length + 1 ≤ c.remaining + 1 := Nat.succ_le_succ few
    exact ⟨values, last, rounds, stops, enough, endsWith, (endsWith _).mpr enough⟩
  constructor
  · exact fun before => sepByLoop_never_ends_iff item between inRange
  · exact sepBy_never_ends_iff item between inRange

/-- Words of any number of letters, between any number of spaces: behind the second
word of `a a` the list stalls.  The repetition of a word ends at once. -/
theorem loops_end_iff_words :
    let word := many (char 97)
    let space := many (char 32)
    let c := Cursor.ofBytes (Bytes.ofString "a a")
    Steady word ∧ Steady space ∧ c.InRange ∧ (many word c).Ended ∧
      ∀ budget, ¬ (sepBy budget word space c).Ended := by
  intro word space c
  have inRange : c.InRange := Cursor.inRange_ofBytes _
  obtain ⟨⟨_, _, _, _, _, _, ended⟩, _, neverIff⟩ :=
    loops_end_iff (many_char_steady 97) (many_char_steady 32) inRange
  have first : word c = .success [97] ⟨c.input, 1⟩ := by rfl
  have second : Continues word space ⟨c.input, 1⟩ [97] ⟨c.input, 3⟩ := ⟨[32], ⟨c.input, 2⟩, rfl, rfl⟩
  have stalls : Stalls word space ⟨c.input, 3⟩ := ⟨⟨[], rfl⟩, [], rfl⟩
  exact ⟨many_char_steady 97, many_char_steady 32, inRange, ended,
    neverIff.mpr ⟨_, _, _, _, first, .cons second (.nil _), stalls⟩⟩

end JsonFit.Parser
