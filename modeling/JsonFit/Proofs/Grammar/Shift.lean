import JsonFit.Proofs.Grammar.Discipline
import JsonFit.Proofs.Parser.Locality

/-!
# Runs of grammars in longer texts

A run of a grammar does not depend on what stands before its start, whatever the
rules are, however deep they call each other, and whatever a part makes of the
value in front of it.  The rules of a grammar are local because their runs are,
one level of calls less deep.
-/

namespace JsonFit.Grammar

variable {Rule : Type} {Result : Rule → Type} {α : Type}

/-- One case for each way to build a grammar: if the rules are local, the grammar
is. -/
theorem eval_local {call : (r : Rule) → Parser (Result r)}
    (callOrderly : ∀ r, (call r).Orderly fun _ => True) (callLocal : ∀ r, (call r).Local)
    (budget : Nat) (p : Grammar Result α) : (eval call budget p).Local := by
  have orderly {γ : Type} (q : Grammar Result γ) : (eval call budget q).Orderly fun _ => True :=
    eval_orderly callOrderly budget q fun _ _ => trivial
  induction p with
  | literal text => exact Parser.literal_local text
  | char point => exact Parser.char_local point
  | upTo delimiter => exact Parser.upTo_local delimiter
  | finish => exact Parser.finish_local
  | succeed value => exact Parser.succeed_local value
  | fail message => exact Parser.fail_local message
  | abort fault => exact Parser.abort_local fault
  | rule r => exact callLocal r
  | map f p ih => exact ih.map f
  | bind p next first second => exact first.bind (orderly p) second
  | both p q first second => exact first.both (orderly p) second
  | orElse p q first second => exact first.orElse second
  | attempt p ih => exact ih.attempt
  | optional p ih => exact ih.optional
  | many p ih => exact ih.many (orderly p)
  | sepBy p delimiter item between =>
      exact item.sepBy (orderly p) (orderly delimiter) between budget

theorem callRule_local (rules : (r : Rule) → Grammar Result (Result r)) (budget : Nat) (r : Rule) :
    (callRule rules budget r).Local := by
  induction budget generalizing r with
  | zero => exact fun _ _ _ => rfl
  | succ budget ih =>
      exact eval_local (callRule_orderly_any rules budget) ih budget (rules r)

theorem run_local (rules : (r : Rule) → Grammar Result (Result r)) (budget : Nat)
    (p : Grammar Result α) : (run rules budget p).Local :=
  eval_local (callRule_orderly_any rules budget) (callRule_local rules budget) budget p

/-- A run inside `x ++ s` from an offset in `s` is the run on `s` alone: it
succeeds, fails, faults or goes on beyond the budget as that one does, with the
same value, or the same cause and standing, and all offsets are larger by the
length of `x`. -/
theorem run_append_eq_behind (rules : (r : Rule) → Grammar Result (Result r)) (budget : Nat)
    (p : Grammar Result α) (x s : Bytes) {k : Nat} (inText : k ≤ s.length) :
    run rules budget p ⟨(x ++ s).toArray, x.length + k⟩ =
      (run rules budget p ⟨s.toArray, k⟩).behind x := by
  have inRange : (⟨s.toArray, k⟩ : Cursor).InRange := by
    simp only [Cursor.InRange, Cursor.size, List.size_toArray]
    omega
  have shifted := run_local rules budget p inRange x
  simpa only [Cursor.behind, List.append_toArray] using shifted

/-- In ` [[],]` an element is missing at offset 5; behind two other bytes it is
missing at offset 7. -/
theorem run_append_eq_behind_trailing_comma :
    1 ≤ (Bytes.ofString " [[],]").length ∧
    run (fun _ => Json.Rules.value) 3 Json.Rules.document
        ⟨(Bytes.ofString "1 " ++ Bytes.ofString " [[],]").toArray,
          (Bytes.ofString "1 ").length + (1 : Nat)⟩ =
      .failure ⟨.worded (Bytes.ofString "expected a JSON value"), false, 7⟩ := by
  have inText : 1 ≤ (Bytes.ofString " [[],]").length := by decide
  refine ⟨inText, ?_⟩
  rw [run_append_eq_behind _ 3 _ _ _ inText]
  rfl

end JsonFit.Grammar
