import JsonFit.Cursor

/-!
# Cursors as splits of a text

A cursor in range cuts its text in two: the bytes before it and the bytes ahead
of it.  `between` makes the cursor from the two parts, and every cursor in range
has this form.  On it the views are plain list operations on the bytes ahead,
and a move takes bytes from the second part to the first.
-/

namespace JsonFit.Cursor

/-- The cursor behind the bytes `before` and in front of the bytes `ahead`. -/
def between (before ahead : Bytes) : Cursor :=
  ⟨(before ++ ahead).toArray, before.length⟩

variable (before ahead : Bytes)

@[simp]
theorem input_between : (between before ahead).input = (before ++ ahead).toArray :=
  rfl

@[simp]
theorem offset_between : (between before ahead).offset = before.length :=
  rfl

@[simp]
theorem size_between : (between before ahead).size = before.length + ahead.length := by
  simp [size]

@[simp]
theorem inRange_between : (between before ahead).InRange := by
  simp only [InRange, offset_between, size_between]
  omega

@[simp]
theorem between_nil (text : Bytes) : between [] text = ofBytes text :=
  rfl

/-- Every cursor in range is a split of its text. -/
theorem InRange.exists_between {c : Cursor} (inRange : c.InRange) :
    ∃ before ahead, c = between before ahead := by
  rcases c with ⟨input, offset⟩
  rcases inRange with ⟨low, high⟩
  simp only [size] at low high
  refine ⟨input.toList.take offset.toNat, input.toList.drop offset.toNat, ?_⟩
  simp only [between, List.take_append_drop, Array.toArray_toList, List.length_take,
    Array.length_toList, mk.injEq, true_and]
  omega

/-- Cursors of one text are equal when their offsets are. -/
theorem eq_of_offset_eq {c d : Cursor} (inputEq : c.input = d.input)
    (offsetEq : c.offset = d.offset) : c = d := by
  rcases c with ⟨input, offset⟩
  rcases d with ⟨input', offset'⟩
  cases inputEq
  cases offsetEq
  rfl

/-- The cursor `next` stands in the same text as `start`, and not before it. -/
structure Reaches (start next : Cursor) : Prop where
  sameInput : next.input = start.input
  notBefore : start.offset ≤ next.offset
  inText : next.offset ≤ start.size

namespace Reaches

variable {start middle next : Cursor}

theorem refl (inRange : start.InRange) : start.Reaches start :=
  ⟨rfl, Int.le_refl _, inRange.2⟩

theorem sameSize (reaches : start.Reaches next) : next.size = start.size :=
  congrArg Array.size reaches.sameInput

theorem trans (first : start.Reaches middle) (second : middle.Reaches next) :
    start.Reaches next where
  sameInput := second.sameInput.trans first.sameInput
  notBefore := Int.le_trans first.notBefore second.notBefore
  inText := first.sameSize ▸ second.inText

theorem inRange (reaches : start.Reaches next) (startInRange : start.InRange) :
    next.InRange := by
  refine ⟨Int.le_trans startInRange.1 reaches.notBefore, ?_⟩
  rw [reaches.sameSize]
  exact reaches.inText

/-- A cursor that has not moved is the same cursor. -/
theorem eq_of_offset_eq (reaches : start.Reaches next) (offsetEq : next.offset = start.offset) :
    next = start :=
  Cursor.eq_of_offset_eq reaches.sameInput offsetEq

/-- Further on there is no more to read. -/
theorem remaining_le (reaches : start.Reaches next) : next.remaining ≤ start.remaining := by
  have notBefore := reaches.notBefore
  simp only [remaining, reaches.sameSize]
  omega

/-- Behind a cursor that has moved there is less to read. -/
theorem remaining_lt (reaches : start.Reaches next) (moved : start.offset < next.offset) :
    next.remaining < start.remaining := by
  have inText := reaches.inText
  simp only [remaining, reaches.sameSize]
  omega

end Reaches

/-- The bytes ahead may be passed. -/
theorem reaches_between (before passed rest : Bytes) :
    (between before (passed ++ rest)).Reaches (between (before ++ passed) rest) := by
  refine ⟨by simp, ?_, ?_⟩
  · simp only [offset_between, List.length_append]
    omega
  · simp only [offset_between, size_between, List.length_append]
    omega

/-- A cursor further on in a split text is another split of it. -/
theorem Reaches.exists_between {before ahead : Bytes} {next : Cursor}
    (reaches : (between before ahead).Reaches next) :
    ∃ passed rest, ahead = passed ++ rest ∧ next = between (before ++ passed) rest := by
  have low := reaches.notBefore
  have high := reaches.inText
  simp only [offset_between, size_between] at low high
  obtain ⟨count, countEq⟩ : ∃ count : Nat, next.offset = before.length + count :=
    ⟨(next.offset - before.length).toNat, by omega⟩
  refine ⟨ahead.take count, ahead.drop count, (List.take_append_drop count ahead).symm, ?_⟩
  apply Cursor.eq_of_offset_eq
  · simpa using reaches.sameInput
  · simp only [offset_between, List.length_append, List.length_take]
    omega

@[simp]
theorem atEnd_between : (between before ahead).atEnd = ahead.isEmpty := by
  cases ahead with
  | nil => simp [atEnd]
  | cons b rest =>
      simp only [atEnd, size_between, offset_between, List.length_cons, List.isEmpty_cons,
        decide_eq_false_iff_not]
      omega

@[simp]
theorem remaining_between : (between before ahead).remaining = ahead.length := by
  simp only [remaining, offset_between, size_between]
  omega

@[simp]
theorem rest_between : (between before ahead).rest = .ok ahead := by
  rw [rest_eq_ok (inRange_between before ahead)]
  simp

@[simp]
theorem peek_between (n : Nat) : (between before ahead).peek n = .ok (ahead.take n) := by
  rw [peek_eq_ok (inRange_between before ahead)]
  simp

/-- A step over the bytes just ahead. -/
@[simp]
theorem forward_between (passed rest : Bytes) :
    (between before (passed ++ rest)).forward passed.length =
      .ok (between (before ++ passed) rest) := by
  rw [forward, if_pos (by simp only [offset_between, size_between, List.length_append]; omega)]
  simp [between]

/-- The text between two cursors is what lies between the two splits. -/
@[simp]
theorem since_between (passed rest : Bytes) :
    (between (before ++ passed) rest).since (between before (passed ++ rest)) = .ok passed := by
  rw [since, slice, if_pos (by simp only [offset_between, size_between, List.length_append]; omega)]
  simp only [input_between, offset_between, Int.toNat_natCast]
  simp

end JsonFit.Cursor
