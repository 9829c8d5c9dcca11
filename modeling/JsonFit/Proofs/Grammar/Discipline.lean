import JsonFit.Json.Grammar
import JsonFit.Proofs.Parser.Orderly

/-!
# The discipline of grammars

Every grammar describes an orderly parser, whatever its rules are and however
deep they call each other.  Two laws follow.  A failure is committed exactly if
it is reported behind the place where the run began.  And a run breaks no
precondition of its own: the only fault that it can end in is one that the
grammar or one of its rules holds as `abort`, which is what a choice without
alternatives comes to.
-/

namespace JsonFit.Grammar

variable {Rule : Type} {Result : Rule → Type} {α β : Type}

/-- Does the grammar hold the fault `f`, in any of its parts? -/
def Aborts (f : Fault) : {α : Type} → Grammar Result α → Prop
  | _, literal _ => False
  | _, char _ => False
  | _, upTo _ => False
  | _, finish => False
  | _, succeed _ => False
  | _, fail _ => False
  | _, abort g => g = f
  | _, rule _ => False
  | _, map _ p => p.Aborts f
  | _, bind p next => p.Aborts f ∨ ∃ value, (next value).Aborts f
  | _, both p q => p.Aborts f ∨ q.Aborts f
  | _, orElse p q => p.Aborts f ∨ q.Aborts f
  | _, attempt p => p.Aborts f
  | _, optional p => p.Aborts f
  | _, many p => p.Aborts f
  | _, sepBy p delimiter => p.Aborts f ∨ delimiter.Aborts f

variable {f : Fault}

@[simp]
theorem aborts_andThen (p : Grammar Result α) (q : Grammar Result β) :
    (andThen p q).Aborts f ↔ p.Aborts f ∨ q.Aborts f :=
  Iff.rfl

@[simp]
theorem aborts_skip (p : Grammar Result α) (q : Grammar Result β) :
    (skip p q).Aborts f ↔ p.Aborts f ∨ q.Aborts f :=
  Iff.rfl

@[simp]
theorem aborts_surroundedBy (p : Grammar Result α) (space : Grammar Result β) :
    (surroundedBy p space).Aborts f ↔ p.Aborts f ∨ space.Aborts f := by
  change (space.Aborts f ∨ p.Aborts f) ∨ space.Aborts f ↔ _
  constructor
  · rintro ((inSpace | inPart) | inSpace)
    · exact .inr inSpace
    · exact .inl inPart
    · exact .inr inSpace
  · rintro (inPart | inSpace)
    · exact .inl (.inr inPart)
    · exact .inr inSpace

private theorem aborts_foldl_orElse (choice : Grammar Result α) (ps : List (Grammar Result α)) :
    (ps.foldl (fun choice q => orElse choice (attempt q)) choice).Aborts f ↔
      choice.Aborts f ∨ ∃ p ∈ ps, p.Aborts f := by
  induction ps generalizing choice with
  | nil => simp
  | cons p ps ih =>
      rw [List.foldl_cons, ih]
      simp [Aborts, or_assoc]

/-- A choice between alternatives holds no fault of its own. -/
theorem aborts_firstOf_iff {ps : List (Grammar Result α)} (some : ps ≠ []) :
    (firstOf ps).Aborts f ↔ ∃ p ∈ ps, p.Aborts f := by
  cases ps with
  | nil => contradiction
  | cons p ps =>
      rw [firstOf, aborts_foldl_orElse]
      simp [Aborts]

/-- One case for each way to build a grammar: what the rules keep, the grammar
keeps. -/
theorem eval_orderly {allowed : Fault → Prop} {call : (r : Rule) → Parser (Result r)}
    (callOrderly : ∀ r, (call r).Orderly allowed) (budget : Nat) (p : Grammar Result α)
    (faults : ∀ f, p.Aborts f → allowed f) : (eval call budget p).Orderly allowed := by
  induction p with
  | literal text => exact Parser.literal_orderly text
  | char point => exact Parser.char_orderly point
  | upTo delimiter => exact Parser.upTo_orderly delimiter
  | finish => exact Parser.finish_orderly
  | succeed value => exact Parser.succeed_orderly value
  | fail message => exact Parser.fail_orderly message
  | abort fault => exact fun _ _ => faults fault rfl
  | rule r => exact callOrderly r
  | map g p ih => exact (ih faults).map g
  | bind p next first second =>
      exact (first fun f held => faults f (.inl held)).bind
        fun value => second value fun f held => faults f (.inr ⟨value, held⟩)
  | both p q first second =>
      exact (first fun f held => faults f (.inl held)).both
        (second fun f held => faults f (.inr held))
  | orElse p q first second =>
      exact (first fun f held => faults f (.inl held)).orElse
        (second fun f held => faults f (.inr held))
  | attempt p ih => exact (ih faults).attempt
  | optional p ih => exact (ih faults).optional
  | many p ih => exact (ih faults).many
  | sepBy p delimiter item between =>
      exact (item fun f held => faults f (.inl held)).sepBy
        (between fun f held => faults f (.inr held)) budget

theorem callRule_orderly {allowed : Fault → Prop} {rules : (r : Rule) → Grammar Result (Result r)}
    (faults : ∀ r f, (rules r).Aborts f → allowed f) (budget : Nat) (r : Rule) :
    (callRule rules budget r).Orderly allowed := by
  induction budget generalizing r with
  | zero => exact fun _ _ => trivial
  | succ budget ih => exact eval_orderly ih budget (rules r) (faults r)

/-- The runs of a grammar are orderly, and fault only as it or its rules say. -/
theorem run_orderly (rules : (r : Rule) → Grammar Result (Result r)) (budget : Nat)
    (p : Grammar Result α) :
    (run rules budget p).Orderly fun f => p.Aborts f ∨ ∃ r, (rules r).Aborts f :=
  eval_orderly (callRule_orderly (fun r _ held => .inr ⟨r, held⟩) budget) budget p
    fun _ held => .inl held

/-- For the places that runs go to, it does not matter what they fault with. -/
theorem callRule_orderly_any (rules : (r : Rule) → Grammar Result (Result r)) (budget : Nat)
    (r : Rule) : (callRule rules budget r).Orderly fun _ => True :=
  callRule_orderly (fun _ _ _ => trivial) budget r

theorem run_orderly_any (rules : (r : Rule) → Grammar Result (Result r)) (budget : Nat)
    (p : Grammar Result α) : (run rules budget p).Orderly fun _ => True :=
  eval_orderly (callRule_orderly_any rules budget) budget p fun _ _ => trivial

end JsonFit.Grammar

namespace JsonFit.Json.Rules

variable (f : Fault)

theorem not_aborts_byte (b : UInt8) : ¬ (byte b).Aborts f :=
  id

theorem not_aborts_space : ¬ space.Aborts f := by
  rw [space, Grammar.aborts_firstOf_iff (by simp)]
  simp [not_aborts_byte]

theorem not_aborts_token (b : UInt8) : ¬ (token b).Aborts f := by
  simp [token, not_aborts_byte, not_aborts_space]

theorem not_aborts_member : ¬ member.Aborts f := by
  simp [member, quoted, colon, anyValue, Grammar.Aborts, not_aborts_byte, not_aborts_token]

theorem numberBytes_ne_nil : numberBytes ≠ [] := by
  decide

theorem not_aborts_numberValue : ¬ numberValue.Aborts f := by
  have inChars : ¬ numberChar.Aborts f := by
    rw [numberChar, Grammar.aborts_firstOf_iff (by simpa using numberBytes_ne_nil)]
    simp [not_aborts_byte]
  have inNumeral (points : List Int) : ¬ (numberOf points).Aborts f := by
    rw [numberOf]
    split
    · exact id
    · dsimp only
      split <;> exact id
  rintro (held | ⟨points, held⟩)
  · exact inChars held
  · exact inNumeral points held

/-- The rule of values breaks no precondition. -/
theorem not_aborts_value : ¬ value.Aborts f := by
  simp [value, arrayValue, objectValue, stringValue, nullValue, boolValue, comma, quoted,
    anyValue, Grammar.Aborts, not_aborts_byte, not_aborts_token, not_aborts_member,
    not_aborts_numberValue]

theorem not_aborts_document : ¬ document.Aborts f := by
  simp [document, anyValue, Grammar.Aborts, not_aborts_space]

end JsonFit.Json.Rules

namespace JsonFit.Grammar

variable {Rule : Type} {Result : Rule → Type} {α : Type}

/-- A failure is retryable exactly if it is reported where the run began, and
committed exactly if it is reported further on. -/
theorem run_failure_retry_iff (rules : (r : Rule) → Grammar Result (Result r)) (budget : Nat)
    (p : Grammar Result α) {c : Cursor} (inRange : c.InRange) {e : Parser.Failure}
    (failed : run rules budget p c = .failure e) :
    (e.retry = true ↔ e.offset = c.offset) ∧ (e.retry = false ↔ c.offset < e.offset) := by
  have orderly := run_orderly rules budget p inRange
  rw [failed] at orderly
  rcases orderly.standing with ⟨retry, atStart⟩ | ⟨committed, behind⟩
  · simp [retry, atStart]
  · simp only [committed, Bool.false_eq_true, true_iff, false_iff]
    exact ⟨by omega, behind⟩

/-- In `[[],]` an element is missing behind the comma, at offset 4. -/
private theorem run_trailing_comma :
    run (fun _ => Json.Rules.value) 3 Json.Rules.document
        (Cursor.ofBytes (Bytes.ofString "[[],]")) =
      .failure ⟨.worded (Bytes.ofString "expected a JSON value"), false, 4⟩ := by
  rfl

theorem run_failure_retry_iff_trailing_comma :
    ∃ e, run (fun _ => Json.Rules.value) 3 Json.Rules.document
        (Cursor.ofBytes (Bytes.ofString "[[],]")) = .failure e ∧ e.offset = 4 ∧
      (e.retry = true ↔ e.offset = 0) ∧ (e.retry = false ↔ 0 < e.offset) :=
  ⟨_, run_trailing_comma, rfl,
    run_failure_retry_iff _ 3 _ (Cursor.inRange_ofBytes _) run_trailing_comma⟩

/-- A run that ends breaks no precondition.  It succeeds at a cursor of the same
text, or it fails; neither lies before the start or outside the text. -/
theorem run_ended_inText (rules : (r : Rule) → Grammar Result (Result r)) (budget : Nat)
    (p : Grammar Result α) (rulesHoldNone : ∀ r f, ¬ (rules r).Aborts f)
    (holdsNone : ∀ f, ¬ p.Aborts f) {c : Cursor} (inRange : c.InRange)
    (ended : (run rules budget p c).Ended) :
    (∃ value next, run rules budget p c = .success value next ∧
      next.input = c.input ∧ c.offset ≤ next.offset ∧ next.offset ≤ c.size) ∨
    ∃ e, run rules budget p c = .failure e ∧ c.offset ≤ e.offset ∧ e.offset ≤ c.size := by
  have orderly := run_orderly rules budget p inRange
  cases outcome : run rules budget p c with
  | success value next =>
      rw [outcome] at orderly
      exact .inl ⟨value, next, rfl, orderly.sameInput, orderly.notBefore, orderly.inText⟩
  | failure e =>
      rw [outcome] at orderly
      exact .inr ⟨e, rfl, Parser.Failure.Orderly.notBefore orderly, orderly.inText⟩
  | fault f =>
      rw [outcome] at orderly
      rcases orderly with held | ⟨r, held⟩
      · exact absurd held (holdsNone f)
      · exact absurd held (rulesHoldNone r f)
  | exhausted =>
      rw [outcome] at ended
      exact ended.elim

theorem run_ended_inText_trailing_comma :
    ∃ c, c = Cursor.ofBytes (Bytes.ofString "[[],]") ∧
      (run (fun _ => Json.Rules.value) 3 Json.Rules.document c).Ended ∧
      ((∃ value next, run (fun _ => Json.Rules.value) 3 Json.Rules.document c =
          .success value next ∧
        next.input = c.input ∧ c.offset ≤ next.offset ∧ next.offset ≤ c.size) ∨
      ∃ e, run (fun _ => Json.Rules.value) 3 Json.Rules.document c = .failure e ∧
        c.offset ≤ e.offset ∧ e.offset ≤ c.size) := by
  -- The cursor is kept abstract, so that no step of elaboration runs the grammar.
  obtain ⟨c, cursorEq⟩ : ∃ c, c = Cursor.ofBytes (Bytes.ofString "[[],]") := ⟨_, rfl⟩
  have inRange : c.InRange := cursorEq ▸ Cursor.inRange_ofBytes _
  have ended : (run (fun _ => Json.Rules.value) 3 Json.Rules.document c).Ended := by
    rw [cursorEq, run_trailing_comma]
    trivial
  exact ⟨c, cursorEq, ended, run_ended_inText _ 3 _ (fun _ => Json.Rules.not_aborts_value)
    Json.Rules.not_aborts_document inRange ended⟩

end JsonFit.Grammar
