import JsonFit.Proofs.Grammar.Progress
import JsonFit.Proofs.Json.Completeness
import JsonFit.Proofs.Json.Ending
import JsonFit.Proofs.Json.Soundness

/-!
# Reading makes progress

Why no text keeps the reader for ever.  In the rule of values a value is called
only behind an opening bracket, so a value calls for values only further on; the
alternatives that come before that bracket call for none, white space included.
And whatever a loop repeats, be it white space, the characters of a number or
the elements of a container, passes at least one byte.
-/

namespace JsonFit.Json

open Grammar (Guarded LoopsAdvance eval)
open JsonFit.Parser (Passes)

variable {α β : Type}

/-- What has been taken of an item is not nothing. -/
theorem SoundFor.passes {Item : Bytes → α → Prop} {p : Parser α} (sound : SoundFor Item p)
    (visible : Visible Item) : Passes 1 p := by
  intro before ahead a next succeeded
  obtain ⟨_, rest, ⟨w₁, t, w₂, _, item, _, rfl⟩, rfl, rfl⟩ := sound succeeded
  have some := visible.length_pos item
  refine ⟨w₁ ++ t ++ w₂, rest, rfl, ?_, rfl⟩
  simp only [List.length_append]
  omega

namespace Rules

variable (call : Unit → Parser Value) (budget : Nat)

theorem space_guarded : Guarded call budget space :=
  Grammar.guarded_firstOf call budget (by simp [byte, Guarded])

theorem token_guarded (b : UInt8) : Guarded call budget (token b) :=
  ⟨⟨space_guarded call budget, .inr trivial⟩, .inr (space_guarded call budget)⟩

theorem quoted_guarded : Guarded call budget quoted :=
  ⟨⟨trivial, .inr trivial⟩, .inr trivial⟩

theorem numberValue_guarded : Guarded call budget numberValue := by
  have inChars : Guarded call budget numberChar :=
    Grammar.guarded_firstOf call budget (by simp [byte, Guarded])
  refine ⟨inChars, .inr ?_⟩
  intro points
  rw [numberOf]
  split
  · trivial
  · dsimp only
    split <;> trivial

/-- A container reaches its elements behind its bracket. -/
theorem bracketed_guarded {opening closing : UInt8} (ascii : opening < 0x80)
    (notSpace : isSpace opening = false) (item : Rules α) :
    Guarded call budget
      (.skip (.andThen (token opening) (.sepBy item comma)) (token closing)) :=
  ⟨⟨token_guarded call budget opening, .inl (token_passes ascii notSpace)⟩,
    .inr (token_guarded call budget closing)⟩

/-- No way leads from the rule of values to itself on the spot. -/
theorem value_guarded : Guarded call budget value :=
  ⟨⟨⟨⟨⟨bracketed_guarded call budget (by decide) (by decide) anyValue,
    bracketed_guarded call budget (by decide) (by decide) member⟩,
    quoted_guarded call budget⟩, trivial⟩, trivial, trivial⟩, numberValue_guarded call budget⟩

theorem many_space_loopsAdvance : LoopsAdvance call budget (.many space) :=
  ⟨Grammar.loopsAdvance_firstOf call budget (by simp [byte, LoopsAdvance]), space_readsOne.passes⟩

theorem token_loopsAdvance (b : UInt8) : LoopsAdvance call budget (token b) :=
  ⟨⟨many_space_loopsAdvance call budget, trivial⟩, many_space_loopsAdvance call budget⟩

theorem numberValue_loopsAdvance : LoopsAdvance call budget numberValue := by
  have inChars : LoopsAdvance call budget numberChar :=
    Grammar.loopsAdvance_firstOf call budget (by simp [byte, LoopsAdvance])
  refine ⟨⟨inChars, numberChar_readsOne.passes⟩, ?_⟩
  intro points
  rw [numberOf]
  split
  · trivial
  · dsimp only
    split <;> trivial

theorem bracketed_loopsAdvance (opening closing : UInt8) {item : Rules α}
    (inItem : LoopsAdvance call budget item) (passes : Passes 1 (eval call budget item)) :
    LoopsAdvance call budget
      (.skip (.andThen (token opening) (.sepBy item comma)) (token closing)) :=
  ⟨⟨token_loopsAdvance call budget opening, inItem, token_loopsAdvance call budget _, passes,
    token_passes (by decide) (by decide)⟩, token_loopsAdvance call budget closing⟩

variable {call}

/-- The loops in the rule of values advance if the calls of the rule take
values. -/
theorem value_loopsAdvance (sound : SoundFor Derives (call ())) :
    LoopsAdvance call budget value := by
  have array : LoopsAdvance call budget arrayValue :=
    bracketed_loopsAdvance call budget _ _ trivial (sound.passes visible_derives)
  have inMember : LoopsAdvance call budget member :=
    ⟨⟨⟨⟨trivial, trivial⟩, trivial⟩, token_loopsAdvance call budget _⟩, trivial⟩
  have object : LoopsAdvance call budget objectValue :=
    bracketed_loopsAdvance call budget _ _ inMember
      ((member_sound sound).passes visible_memberText)
  have string : LoopsAdvance call budget stringValue := ⟨⟨trivial, trivial⟩, trivial⟩
  exact ⟨⟨⟨⟨⟨array, object⟩, string⟩, trivial⟩, trivial, trivial⟩,
    numberValue_loopsAdvance call budget⟩

theorem document_loopsAdvance : LoopsAdvance call budget document :=
  ⟨⟨many_space_loopsAdvance call budget, trivial⟩, many_space_loopsAdvance call budget, trivial⟩

end Rules

/-- Every budget that exceeds the length of the text is enough, and none of them
changes anything. -/
theorem parseWith_eq_parse {s : Bytes} {budget : Nat} (enough : s.length < budget) :
    parseWith budget (Cursor.ofBytes s) = parse s :=
  Grammar.run_extends (fun _ => Rules.value) enough Rules.document (Cursor.inRange_ofBytes s)
    (parse_ended s)

/-- Every text is read, or refused at a place in it, with a budget for nested
values of one more than its bytes or any larger one.  A value calls for values
further on only, whatever budget it has, and its run ends if the budget exceeds
the number of bytes ahead.  Whatever a loop of the grammar repeats passes at
least one byte. -/
theorem parse_ends_by_progress (s : Bytes) :
    ((∃ v next, parse s = .success v next) ∨
      ∃ e, parse s = .failure e ∧ 0 ≤ e.offset ∧ e.offset ≤ s.length) ∧
    (∀ budget, s.length < budget → parseWith budget (Cursor.ofBytes s) = parse s) ∧
    Grammar.CallsAscend (fun _ => Rules.value) ∧
    (∀ budget c, c.InRange → c.remaining < budget →
      (Grammar.callRule (fun _ => Rules.value) budget () c).Ended) ∧
    ∀ budget,
      LoopsAdvance (Grammar.callRule (fun _ => Rules.value) budget) budget Rules.value ∧
      LoopsAdvance (Grammar.callRule (fun _ => Rules.value) budget) budget Rules.document := by
  refine ⟨parse_cases s, fun _ enough => parseWith_eq_parse enough,
    Grammar.callsAscend_of_guarded fun call budget _ => Rules.value_guarded call budget, ?_, ?_⟩
  · intro budget c inRange enough
    obtain ⟨before, ahead, rfl⟩ := inRange.exists_between
    rw [Cursor.remaining_between] at enough
    exact Rules.callRule_endsWithin budget enough
  · intro budget
    exact ⟨Rules.value_loopsAdvance budget (Rules.callRule_sound budget),
      Rules.document_loopsAdvance budget⟩

/-- In `[[],]` an element is missing behind the comma.  A budget of nine finds it
where one of six does, and from offset 1 on, where four bytes are ahead, a budget
of five is enough. -/
theorem parse_ends_by_progress_trailing_comma :
    ∃ s c, s = Bytes.ofString "[[],]" ∧ c = ⟨s.toArray, 1⟩ ∧ s.length < 9 ∧ c.InRange ∧
      c.remaining < 5 ∧ parseWith 9 (Cursor.ofBytes s) = parse s ∧
      (Grammar.callRule (fun _ => Rules.value) 5 () c).Ended ∧
      ∀ f, Grammar.callAscending (fun _ => Rules.value) f 5 0 () c =
        Grammar.callRule (fun _ => Rules.value) 5 () c := by
  -- The text and the cursor are kept abstract, so that no step of elaboration reads.
  obtain ⟨s, textEq⟩ : ∃ s, s = Bytes.ofString "[[],]" := ⟨_, rfl⟩
  obtain ⟨c, cursorEq⟩ : ∃ c, c = Cursor.mk s.toArray 1 := ⟨_, rfl⟩
  have short : s.length < 9 := by
    rw [textEq]
    decide
  obtain ⟨inRange, behind, near⟩ : c.InRange ∧ 0 < c.offset ∧ c.remaining < 5 := by
    rw [cursorEq, textEq]
    decide
  obtain ⟨_, budgets, ascend, ends, _⟩ := parse_ends_by_progress s
  exact ⟨s, c, textEq, cursorEq, short, inRange, near, budgets 9 short, ends 5 c inRange near,
    fun f => ascend f 5 0 () c inRange behind⟩

end JsonFit.Json
