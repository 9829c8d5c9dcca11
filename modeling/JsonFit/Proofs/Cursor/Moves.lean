import JsonFit.Cursor
import Mathlib.Algebra.Ring.Int.Defs

/-!
# Calls of `advance`

A call of `advance` adds a word to an offset.  It can go in three ways: it is refused, it
moves on, or the sum is above every word and wraps around to an offset in front of the
text.  The check looks at the sum after it has wrapped around, so it passes the third
case like the second.

As long as no sum is above every word, a call is the step `forward` of the parsers.

The cursors that calls lead to, from the start of a text and with any words as counts,
are `Obtained` with these counts.  Such a cursor stands in its text, as far from the start
as the counts add up to, exactly if the sum of the counts is a word.  Of a cursor in front
of its text there are no views, and in every text but the empty one each offset down to
the least word is obtained.
-/

namespace JsonFit.Cursor

variable {c d : Cursor} {n : Int}

theorem exists_slice_iff {start stop : Int} :
    (∃ view, c.slice start stop = .ok view) ↔ 0 ≤ start ∧ start ≤ stop ∧ stop ≤ c.size := by
  rw [slice]
  split
  · rename_i inside
    exact iff_of_true ⟨_, rfl⟩ inside
  · rename_i outside
    exact iff_of_false (by rintro ⟨_, impossible⟩; cases impossible) outside

/-- There is a rest of the text exactly on a cursor in the text. -/
theorem exists_rest_iff : (∃ view, c.rest = .ok view) ↔ c.InRange := by
  rw [rest, exists_slice_iff, InRange]
  omega

/-- One can look ahead exactly on a cursor in the text, however far. -/
theorem exists_peek_iff (n : Nat) : (∃ view, c.peek n = .ok view) ↔ c.InRange := by
  rw [peek]
  split
  · rw [exists_slice_iff, InRange]
    omega
  · exact exists_rest_iff

/-! ## One call -/

/-- The ways in which a call of `advance` can go. -/
inductive Move (c : Cursor) (n : Int) : Except Fault Cursor → Prop
  /-- A step backward or past the end of the text is refused. -/
  | refused (outside : n < 0 ∨ (c.size : Int) < c.offset + n ∧ c.offset + n ≤ Word.maximum) :
      Move c n (.error (.advance n c.offset c.size))
  /-- A step that does not pass the end of the text is made. -/
  | made (forward : 0 ≤ n) (inside : c.offset + n ≤ c.size) :
      Move c n (.ok { c with offset := c.offset + n })
  /-- A step to an offset above every word wraps around. -/
  | wrapped (above : Word.maximum < c.offset + n) :
      Move c n (.ok { c with offset := c.offset + n - Word.modulus })

/-- The offset is a word and not behind the end of the text, and words can count the text. -/
structure Bounded (c : Cursor) : Prop where
  low : Word.minimum ≤ c.offset
  high : c.offset ≤ c.size
  short : (c.size : Int) ≤ Word.maximum

theorem Bounded.inRange_iff (bounded : c.Bounded) : c.InRange ↔ 0 ≤ c.offset :=
  and_iff_left bounded.high

theorem exists_move (c : Cursor) (n : Int) : ∃ result, Move c n result := by
  by_cases backward : n < 0
  · exact ⟨_, .refused (Or.inl backward)⟩
  by_cases inside : c.offset + n ≤ c.size
  · exact ⟨_, .made (Int.not_lt.mp backward) inside⟩
  by_cases above : Word.maximum < c.offset + n
  · exact ⟨_, .wrapped above⟩
  · exact ⟨_, .refused (Or.inr ⟨Int.not_le.mp inside, Int.not_lt.mp above⟩)⟩

section Call

variable {result : Except Fault Cursor} (bounded : c.Bounded) (isWord : Word.InRange n)

include bounded isWord

/-- Each way is what the call comes to in this case. -/
theorem Move.advance_eq (move : Move c n result) : c.advance n = result := by
  rcases bounded with ⟨low, high, short⟩
  rcases isWord with ⟨_, atMost⟩
  cases move with
  | refused outside =>
      apply if_pos
      rcases outside with backward | ⟨past, sumLe⟩
      · exact Or.inl backward
      · rw [Word.wrap_of_inRange (Word.inRange_of_nonneg (by omega) sumLe)]
        exact Or.inr past
  | made forward inside =>
      have sumWord : Word.InRange (c.offset + n) := ⟨by omega, by omega⟩
      rw [advance, Word.wrap_of_inRange sumWord, if_neg (by omega)]
  | wrapped above =>
      have near : c.offset + n ≤ Word.maximum + Word.modulus := by
        simp only [Word.maximum, Word.modulus] at *
        omega
      have notPast : c.offset + n - Word.modulus ≤ c.size := by
        simp only [Word.maximum, Word.modulus] at *
        omega
      rw [advance, Word.wrap_of_maximum_lt above near, if_neg (by omega)]

theorem advance_eq_iff : c.advance n = result ↔ Move c n result := by
  constructor
  · rintro rfl
    obtain ⟨_, move⟩ := exists_move c n
    rwa [move.advance_eq bounded isWord]
  · exact Move.advance_eq bounded isWord

/-- A cursor that a call returns is bounded again. -/
theorem bounded_of_move (move : Move c n (.ok d)) : d.Bounded := by
  rcases bounded with ⟨low, high, short⟩
  rcases isWord with ⟨_, atMost⟩
  cases move with
  | made forward inside =>
      exact ⟨Int.le_trans low (Int.le_add_of_nonneg_right forward), inside, short⟩
  | wrapped above =>
      simp only [Word.maximum] at above high atMost short
      refine ⟨?_, ?_, short⟩
      · simp only [Word.minimum, Word.modulus]
        omega
      · simp only [size, Word.modulus] at high short ⊢
        omega

/-- A call that returns a cursor returns one in the text, as much further on as the count
says, exactly if the sum is a word that is not negative. -/
theorem inRange_iff_of_move (move : Move c n (.ok d)) :
    d.InRange ∧ d.offset = c.offset + n ↔ 0 ≤ c.offset + n ∧ c.offset + n ≤ Word.maximum := by
  rw [(bounded_of_move bounded isWord move).inRange_iff]
  have short := bounded.short
  cases move with
  | made forward inside =>
      simp only [and_true]
      omega
  | wrapped above =>
      simp only [Word.modulus]
      omega

end Call

/-- As long as no sum is above every word, a call is the step of the parsers. -/
theorem advance_eq_forward {n : Nat} (inRange : c.InRange)
    (short : (c.size : Int) ≤ Word.maximum) (atMost : c.offset + n ≤ Word.maximum) :
    c.advance n = c.forward n := by
  rcases inRange with ⟨nonneg, high⟩
  have bounded : c.Bounded := ⟨Int.le_trans (by decide) nonneg, high, short⟩
  have isWord : Word.InRange n := Word.inRange_of_nonneg (Int.natCast_nonneg n) (by omega)
  rw [advance_eq_iff bounded isWord, forward]
  split
  · rename_i fits
    exact .made (Int.natCast_nonneg n) fits
  · rename_i tooLong
    exact .refused (Or.inr ⟨Int.not_le.mp tooLong, atMost⟩)

theorem advance_eq_ok_iff :
    c.advance n = .ok d ↔ 0 ≤ n ∧ Word.wrap (c.offset + n) ≤ c.size ∧
      d = { c with offset := Word.wrap (c.offset + n) } := by
  rw [advance]
  split
  · rename_i refused
    exact iff_of_false (by simp) (by omega)
  · rename_i allowed
    rw [Except.ok.injEq, eq_comm]
    exact ⟨fun same => ⟨by omega, by omega, same⟩, fun inside => inside.2.2⟩

/-! ## Sequences of calls -/

/-- The cursors that calls of `advance` lead to from the start of a text, with the counts
of these calls, the last one first. -/
inductive Obtained (text : Bytes) : List Int → Cursor → Prop
  | start : Obtained text [] (ofBytes text)
  | call {counts : List Int} {c d : Cursor} {n : Int} (earlier : Obtained text counts c)
      (isWord : Word.InRange n) (moved : c.advance n = .ok d) : Obtained text (n :: counts) d

/-- What calls with these counts leave: the offset is the word of their sum. -/
structure Reckoned (text : Bytes) (counts : List Int) (c : Cursor) : Prop where
  input_eq : c.input = text.toArray
  bounded : c.Bounded
  offset_eq : c.offset = Word.wrap counts.sum
  sum_nonneg : 0 ≤ counts.sum

variable {text : Bytes} {counts : List Int}

theorem reckoned_ofBytes (short : (text.length : Int) ≤ Word.maximum) :
    Reckoned text [] (ofBytes text) where
  input_eq := rfl
  bounded := ⟨by rw [offset_ofBytes]; decide, by simp, by simpa using short⟩
  offset_eq := rfl
  sum_nonneg := Int.le_refl 0

theorem Reckoned.call (reckoned : Reckoned text counts c) (isWord : Word.InRange n)
    (moved : c.advance n = .ok d) : Reckoned text (n :: counts) d := by
  have bounded := reckoned.bounded
  have move := (advance_eq_iff bounded isWord).mp moved
  obtain ⟨forward, _, rfl⟩ := advance_eq_ok_iff.mp moved
  refine ⟨reckoned.input_eq, bounded_of_move bounded isWord move, ?_, ?_⟩
  · rw [reckoned.offset_eq, Word.wrap_wrap_add, List.sum_cons, Int.add_comm]
  · rw [List.sum_cons]
    exact Int.add_nonneg forward reckoned.sum_nonneg

theorem Obtained.reckoned (short : (text.length : Int) ≤ Word.maximum)
    (obtained : Obtained text counts c) : Reckoned text counts c := by
  induction obtained with
  | start => exact reckoned_ofBytes short
  | call _ isWord moved ih => exact ih.call isWord moved

/-- The offset is the sum of the counts, and in the text, exactly if this sum is a word. -/
theorem Reckoned.inRange_iff (reckoned : Reckoned text counts c) :
    c.InRange ∧ c.offset = counts.sum ↔ counts.sum ≤ Word.maximum := by
  constructor
  · rintro ⟨⟨_, high⟩, offsetEq⟩
    exact offsetEq ▸ Int.le_trans high reckoned.bounded.short
  · intro atMost
    have offsetEq : c.offset = counts.sum := by
      rw [reckoned.offset_eq]
      exact Word.wrap_of_inRange (Word.inRange_of_nonneg reckoned.sum_nonneg atMost)
    exact ⟨reckoned.bounded.inRange_iff.mpr (offsetEq ▸ reckoned.sum_nonneg), offsetEq⟩

/-- In the empty text no sum is above every word. -/
theorem Obtained.eq_of_nil (obtained : Obtained [] counts c) : c = ofBytes [] := by
  induction obtained with
  | start => rfl
  | @call _ _ _ n _ isWord moved ih =>
      subst ih
      obtain ⟨forward, inside, rfl⟩ := advance_eq_ok_iff.mp moved
      rw [offset_ofBytes, Int.zero_add, Word.wrap_of_inRange isWord] at inside ⊢
      obtain rfl : n = 0 := Int.le_antisymm inside forward
      rfl

/-- A call leads to the word of the sum, if this is not past the end of the text. -/
theorem Obtained.further {offset target : Int}
    (obtained : Obtained text counts ⟨text.toArray, offset⟩) (isWord : Word.InRange n)
    (forward : 0 ≤ n) (sum : Word.wrap (offset + n) = target) (notPast : target ≤ text.length) :
    Obtained text (n :: counts) ⟨text.toArray, target⟩ := by
  subst sum
  exact obtained.call isWord (advance_eq_ok_iff.mpr ⟨forward, notPast, rfl⟩)

theorem exists_obtained_of_nonneg {offset : Int} (short : (text.length : Int) ≤ Word.maximum)
    (nonneg : 0 ≤ offset) (inside : offset ≤ text.length) :
    ∃ counts, Obtained text counts ⟨text.toArray, offset⟩ := by
  have isWord : Word.InRange offset := Word.inRange_of_nonneg nonneg (Int.le_trans inside short)
  have sum : Word.wrap (0 + offset) = offset := by rw [Int.zero_add, Word.wrap_of_inRange isWord]
  exact ⟨_, Obtained.start.further isWord nonneg sum inside⟩

/-- From the second offset of a text the greatest word leads to the least one, and from
there calls lead to every offset in front of the text. -/
theorem exists_obtained_of_neg {offset : Int} (nonempty : text ≠ []) (low : Word.minimum ≤ offset)
    (neg : offset < 0) : ∃ counts, Obtained text counts ⟨text.toArray, offset⟩ := by
  have length_pos : 0 < text.length := List.length_pos_iff.mpr nonempty
  have second : Obtained text [1] ⟨text.toArray, 1⟩ :=
    Obtained.start.further (by decide) (by decide) (by decide) (by omega)
  have least : Obtained text [Word.maximum, 1] ⟨text.toArray, Word.minimum⟩ :=
    second.further (by decide) (by decide) (by decide) (by omega)
  have isWord : Word.InRange (offset - Word.minimum) := by
    simp only [Word.InRange, Word.minimum, Word.maximum] at low ⊢
    omega
  have sum : Word.wrap (Word.minimum + (offset - Word.minimum)) = offset := by
    have back : Word.minimum + (offset - Word.minimum) = offset := by omega
    rw [back, Word.wrap_of_inRange ⟨low, Int.le_trans (Int.le_of_lt neg) (by decide)⟩]
  exact ⟨_, least.further isWord (Int.sub_nonneg_of_le low) sum (by omega)⟩

/-- Every offset from the least word to the end of the text is obtained, if the text is
not empty. -/
theorem exists_obtained_iff (short : (text.length : Int) ≤ Word.maximum) (offset : Int) :
    (∃ counts, Obtained text counts ⟨text.toArray, offset⟩) ↔
      offset = 0 ∨ text ≠ [] ∧ Word.minimum ≤ offset ∧ offset ≤ text.length := by
  constructor
  · rintro ⟨counts, obtained⟩
    by_cases empty : text = []
    · subst empty
      exact Or.inl (congrArg Cursor.offset obtained.eq_of_nil)
    · have bounded := (obtained.reckoned short).bounded
      exact Or.inr ⟨empty, bounded.low, bounded.high⟩
  · rintro (rfl | ⟨nonempty, low, high⟩)
    · exact ⟨[], .start⟩
    rcases Int.lt_or_le offset 0 with neg | nonneg
    · exact exists_obtained_of_neg nonempty low neg
    · exact exists_obtained_of_nonneg short nonneg high

/-- What calls of `advance` keep, for every text that words can count and every sequence
of calls with words.  A cursor obtained stands in its text, as far from the start as the
counts add up to, exactly if their sum is a word.  A call on it goes in one of the three
ways; if it returns a cursor, this one is in the text and as much further on as the count
says exactly if the sum is a word that is not negative.  The views ahead exist exactly on
cursors in the text.  The offsets obtained go down to the least word, except in the empty
text, which is never left. -/
theorem obtained_inRange_iff (short : (text.length : Int) ≤ Word.maximum) :
    (∀ counts c, Obtained text counts c →
      c.input = text.toArray ∧
      (c.InRange ∧ c.offset = counts.sum ↔ counts.sum ≤ Word.maximum) ∧
      (∀ n, Word.InRange n → ∀ result, c.advance n = result ↔ Move c n result) ∧
      (∀ n, Word.InRange n → ∀ d, c.advance n = .ok d →
        (d.InRange ∧ d.offset = c.offset + n ↔ 0 ≤ c.offset + n ∧ c.offset + n ≤ Word.maximum)) ∧
      ((∃ view, c.rest = .ok view) ↔ c.InRange) ∧
      ∀ n : Nat, (∃ view, c.peek n = .ok view) ↔ c.InRange) ∧
    ∀ offset, (∃ counts, Obtained text counts ⟨text.toArray, offset⟩) ↔
      offset = 0 ∨ text ≠ [] ∧ Word.minimum ≤ offset ∧ offset ≤ text.length := by
  refine ⟨fun counts c obtained => ?_, exists_obtained_iff short⟩
  have reckoned := obtained.reckoned short
  have bounded := reckoned.bounded
  constructor
  · exact reckoned.input_eq
  constructor
  · exact reckoned.inRange_iff
  constructor
  · intro n isWord result
    exact advance_eq_iff bounded isWord
  constructor
  · intro n isWord d moved
    exact inRange_iff_of_move bounded isWord ((advance_eq_iff bounded isWord).mp moved)
  · exact ⟨exists_rest_iff, exists_peek_iff⟩

/-- From the end of a text of two bytes, the greatest word leads in front of the text,
where there is no rest of it.  The same call once more leads back to the start. -/
theorem obtained_inRange_iff_letters :
    let text : Bytes := [97, 98]
    let inside : Cursor := ⟨text.toArray, 2⟩
    let outside : Cursor := ⟨text.toArray, Word.minimum + 1⟩
    (text.length : Int) ≤ Word.maximum ∧ Word.InRange Word.maximum ∧
      Obtained text [1, 1] inside ∧ Obtained text [Word.maximum, 1, 1] outside ∧
      (∃ view, inside.rest = .ok view) ∧ inside.advance Word.maximum = .ok outside ∧
      ¬ (outside.InRange ∧ outside.offset = inside.offset + Word.maximum) ∧
      (¬ ∃ view, outside.rest = .ok view) ∧
      outside.advance Word.maximum = .ok ⟨text.toArray, 0⟩ := by
  intro text inside outside
  have short : (text.length : Int) ≤ Word.maximum := by decide
  have isWord : Word.InRange Word.maximum := by decide
  have first : Obtained text [1, 1] inside := .call (.call .start (by decide) rfl) (by decide) rfl
  have moved : inside.advance Word.maximum = .ok outside := rfl
  have second : Obtained text [Word.maximum, 1, 1] outside := .call first isWord moved
  obtain ⟨_, inRange, _, steps, rest, _⟩ := (obtained_inRange_iff short).1 _ _ first
  obtain ⟨_, _, moves, _, noRest, _⟩ := (obtained_inRange_iff short).1 _ _ second
  refine ⟨short, isWord, first, second, rest.mpr (inRange.mpr (by decide)).1, moved, ?_, ?_, ?_⟩
  · exact (not_congr (steps _ isWord _ moved)).mpr (by decide)
  · exact (not_congr noRest).mpr (by decide)
  · exact (moves _ isWord _).mpr (.made (by decide) (by decide))

/-- The documented invariant, that a call is refused or returns a cursor in the text, fails
where the offset and the count add up to more than the greatest word. -/
theorem not_inRange_of_obtained :
    let text : Bytes := [97]
    let c : Cursor := ⟨text.toArray, 1⟩
    let d : Cursor := ⟨text.toArray, Word.minimum⟩
    Obtained text [1] c ∧ c.advance Word.maximum = .ok d ∧ d.rest = .error .outOfBounds ∧
      ¬ ∀ n d, Word.InRange n → c.advance n = .ok d → d.InRange ∧ d.offset = c.offset + n := by
  intro text c d
  have moved : c.advance Word.maximum = .ok d := rfl
  refine ⟨.call .start (by decide) rfl, moved, rfl, ?_⟩
  intro kept
  exact absurd (kept Word.maximum d (by decide) moved).1 (by decide)

end JsonFit.Cursor
