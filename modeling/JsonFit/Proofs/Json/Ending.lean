import JsonFit.Proofs.Grammar.Discipline
import JsonFit.Proofs.Json.Token
import JsonFit.Proofs.Parser.Ending

/-!
# Reading ends

The budget for nested values is never spent: every value but the outermost stands
behind a bracket, and a call of the rule of values behind a bracket has fewer
bytes ahead.  So every text is read or refused, and the place where a text is
refused lies in it.
-/

namespace JsonFit.Json

open Grammar (eval)
open JsonFit.Parser (EndsWithin Passes)

namespace Rules

variable {α β : Type} {call : Unit → Parser Value} {budget bound : Nat}

theorem token_passes {b : UInt8} (ascii : b < 0x80) (notSpace : isSpace b = false) :
    Passes 1 (eval call budget (token b)) := by
  intro before ahead point next succeeded
  obtain ⟨w₁, w₂, rest, _, _, rfl, rfl⟩ := token_success_cases ascii notSpace succeeded
  refine ⟨w₁ ++ b :: w₂, rest, by simp, ?_, rfl⟩
  rw [List.length_append, List.length_cons]
  omega

theorem many_space_endsWithin : EndsWithin bound (eval call budget (.many space)) :=
  space_readsOne.endsWithin.many (space_readsOne.passes.le (Nat.zero_le 1))

section Calls

-- which preconditions a rule may break does not matter for its progress
variable (orderly : (call ()).Orderly fun _ => True)

include orderly

/-- No rule goes back. -/
theorem eval_passes (p : Rules α) : Passes 0 (eval call budget p) :=
  (Grammar.eval_orderly (fun _ => orderly) budget p fun _ _ => trivial).passes

theorem andThen_endsWithin {p : Rules α} {q : Rules β}
    (first : EndsWithin bound (eval call budget p))
    (second : EndsWithin bound (eval call budget q)) :
    EndsWithin bound (eval call budget (.andThen p q)) :=
  (first.both (eval_passes orderly p) second (Nat.le_refl bound)).map Prod.snd

theorem skip_endsWithin {p : Rules α} {q : Rules β}
    (first : EndsWithin bound (eval call budget p))
    (second : EndsWithin bound (eval call budget q)) :
    EndsWithin bound (eval call budget (.skip p q)) :=
  (first.both (eval_passes orderly p) second (Nat.le_refl bound)).map Prod.fst

theorem token_endsWithin (b : UInt8) : EndsWithin bound (eval call budget (token b)) := by
  apply EndsWithin.attempt
  apply skip_endsWithin orderly
  · exact andThen_endsWithin orderly many_space_endsWithin (Parser.char_endsWithin _)
  · exact many_space_endsWithin

theorem quoted_endsWithin : EndsWithin bound (eval call budget quoted) := by
  apply skip_endsWithin orderly
  · exact andThen_endsWithin orderly (Parser.char_endsWithin _) (Parser.upTo_endsWithin _)
  · exact Parser.char_endsWithin _

theorem numberValue_endsWithin : EndsWithin bound (eval call budget numberValue) := by
  have characters : EndsWithin bound (eval call budget (.many numberChar)) :=
    numberChar_readsOne.endsWithin.many (numberChar_readsOne.passes.le (Nat.zero_le 1))
  refine characters.bind (eval_passes orderly _) ?_ (Nat.le_refl bound)
  intro points before ahead _
  rw [numberOf]
  split
  · trivial
  · dsimp only
    split <;> trivial

theorem member_endsWithin (ends : EndsWithin bound (call ())) :
    EndsWithin bound (eval call budget member) := by
  have key : EndsWithin bound (eval call budget (.skip quoted colon)) :=
    skip_endsWithin orderly (quoted_endsWithin orderly) (token_endsWithin orderly _)
  exact key.both (eval_passes orderly _) ends (Nat.le_refl bound)

/-- A container passes its bracket before it calls the rule of values. -/
theorem bracketed_endsWithin {opening closing : UInt8} (ascii : opening < 0x80)
    (notSpace : isSpace opening = false) {item : Rules α}
    (ends : EndsWithin budget (eval call budget item)) :
    EndsWithin (budget + 1) (eval call budget
      (.skip (.andThen (token opening) (.sepBy item comma)) (token closing))) := by
  have opened : EndsWithin (budget + 1) (eval call budget (token opening)) :=
    token_endsWithin orderly opening
  have list : EndsWithin budget (eval call budget (.sepBy item comma)) :=
    ends.sepBy (eval_passes orderly item) (token_endsWithin orderly _)
      (token_passes (by decide) (by decide))
  apply skip_endsWithin orderly
  · exact (opened.both (token_passes ascii notSpace) list (Nat.le_refl _)).map Prod.snd
  · exact token_endsWithin orderly closing

/-- The rule of values spends one unit of budget. -/
theorem value_endsWithin (ends : EndsWithin budget (call ())) :
    EndsWithin (budget + 1) (eval call budget value) := by
  have array : EndsWithin (budget + 1) (eval call budget arrayValue) :=
    (bracketed_endsWithin orderly (by decide) (by decide) ends).map Value.array
  have object : EndsWithin (budget + 1) (eval call budget objectValue) :=
    (bracketed_endsWithin orderly (by decide) (by decide) (member_endsWithin orderly ends)).map
      Value.object
  have string : EndsWithin (budget + 1) (eval call budget stringValue) :=
    (quoted_endsWithin orderly).map Value.string
  have null : EndsWithin (budget + 1) (eval call budget nullValue) :=
    (Parser.literal_endsWithin _).map _
  have bool : EndsWithin (budget + 1) (eval call budget boolValue) :=
    ((Parser.literal_endsWithin _).orElse (Parser.literal_endsWithin _)).map _
  exact ((((array.orElse object).orElse string).orElse null).orElse bool).orElse
    (numberValue_endsWithin orderly)

theorem document_endsWithin (ends : EndsWithin bound (call ())) :
    EndsWithin bound (eval call budget document) := by
  apply skip_endsWithin orderly
  · exact andThen_endsWithin orderly many_space_endsWithin ends
  · exact andThen_endsWithin orderly many_space_endsWithin Parser.finish_endsWithin

end Calls

theorem callRule_orderly (budget : Nat) :
    (Grammar.callRule (fun _ => value) budget ()).Orderly fun _ => True :=
  Grammar.callRule_orderly (fun _ _ _ => trivial) budget ()

/-- A budget for nested values is enough wherever fewer bytes are ahead. -/
theorem callRule_endsWithin (budget : Nat) :
    EndsWithin budget (Grammar.callRule (fun _ => value) budget ()) := by
  induction budget with
  | zero =>
      intro before ahead short
      contradiction
  | succ budget ih => exact value_endsWithin (callRule_orderly budget) ih

end Rules

/-- The budget for nested values is never spent. -/
theorem parse_ended (s : Bytes) : (parse s).Ended := by
  rw [parse, parseWith, Grammar.run, ← Cursor.between_nil]
  exact Rules.document_endsWithin (Rules.callRule_orderly _) (Rules.callRule_endsWithin _)
    (Nat.lt_succ_self s.length)

/-- A text is read, or it is refused at a place in it. -/
theorem parse_cases (s : Bytes) :
    (∃ v next, parse s = .success v next) ∨
      ∃ e, parse s = .failure e ∧ 0 ≤ e.offset ∧ e.offset ≤ s.length := by
  have ended := parse_ended s
  have orderly := Grammar.run_orderly (fun _ => Rules.value) (s.length + 1) Rules.document
    (Cursor.inRange_ofBytes s)
  change (parse s).Orderly _ _ at orderly
  cases outcome : parse s with
  | success v next => exact .inl ⟨v, next, rfl⟩
  | failure e =>
      rw [outcome] at orderly
      have inText := orderly.inText
      rw [Cursor.size_ofBytes] at inText
      exact .inr ⟨e, rfl, orderly.notBefore, inText⟩
  | fault f =>
      rw [outcome] at orderly
      rcases orderly with held | ⟨_, held⟩
      · exact absurd held (Rules.not_aborts_document f)
      · exact absurd held (Rules.not_aborts_value f)
  | exhausted =>
      rw [outcome] at ended
      contradiction

end JsonFit.Json
