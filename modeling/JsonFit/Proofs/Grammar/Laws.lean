import JsonFit.Proofs.Grammar.Discipline
import JsonFit.Proofs.Parser.Laws

/-!
# The algebra of grammars

The laws of sequences and choices, for the parsers that grammars describe.  Both
sides of a law come out the same in every way in which a run can: with the same
value and the same cursor, or with the same cause, the same standing and the same
place of the failure.  So a grammar may be bracketed as one likes, and a sequence
with a discarded value may be written in any of its forms, without moving the
point from which on an alternative is ruled out.
-/

namespace JsonFit.Grammar

variable {Rule : Type} {Result : Rule → Type} {α β γ : Type}
variable (rules : (r : Rule) → Grammar Result (Result r)) (budget : Nat)

theorem run_succeed (value : α) : run rules budget (succeed value) = Parser.succeed value :=
  rfl

theorem run_map (f : α → β) (p : Grammar Result α) :
    run rules budget (map f p) = Parser.map f (run rules budget p) :=
  rfl

theorem run_bind (p : Grammar Result α) (f : α → Grammar Result β) :
    run rules budget (bind p f) =
      Parser.bind (run rules budget p) fun value => run rules budget (f value) :=
  rfl

theorem run_both (p : Grammar Result α) (q : Grammar Result β) :
    run rules budget (both p q) = Parser.both (run rules budget p) (run rules budget q) :=
  rfl

/-- The sequence that keeps the second value runs its parts one behind the other, and
commits a failure of the second if the first has moved. -/
theorem run_andThen (p : Grammar Result α) (q : Grammar Result β) (c : Cursor) :
    run rules budget (andThen p q) c =
      (run rules budget p c).andThen fun _ middle =>
        Parser.committing c middle (run rules budget q middle) := by
  have kept : ∀ outcome : Parser.Outcome β, outcome.map (fun second => second) = outcome :=
    Parser.Outcome.map_id
  rw [andThen, run_map, run_both, Parser.map_both]
  simp only [kept]

/-- The sequence that keeps the first value does the same. -/
theorem run_skip (p : Grammar Result α) (q : Grammar Result β) (c : Cursor) :
    run rules budget (skip p q) c =
      (run rules budget p c).andThen fun first middle =>
        Parser.committing c middle ((run rules budget q middle).map fun _ => first) := by
  rw [skip, run_map, run_both, Parser.map_both]

theorem run_orElse (p q : Grammar Result α) :
    run rules budget (orElse p q) = Parser.orElse (run rules budget p) (run rules budget q) :=
  rfl

theorem run_succeed_bind (value : α) (f : α → Grammar Result β) :
    run rules budget (bind (succeed value) f) = run rules budget (f value) := by
  rw [run_bind, run_succeed, Parser.succeed_bind]

theorem run_bind_succeed (p : Grammar Result α) :
    run rules budget (bind p succeed) = run rules budget p := by
  rw [run_bind]
  exact Parser.bind_succeed _

/-- Neither side of associativity needs to be free of faults: the runs of a
grammar are orderly whatever they fault with. -/
theorem run_bind_assoc (p : Grammar Result α) (f : α → Grammar Result β)
    (g : β → Grammar Result γ) {c : Cursor} (inRange : c.InRange) :
    run rules budget (bind (bind p f) g) c =
      run rules budget (bind p fun value => bind (f value) g) c := by
  simp only [run_bind]
  exact Parser.bind_assoc (run_orderly_any rules budget p)
    (fun value => run_orderly_any rules budget (f value)) _ inRange

/-- Every sequence with one value made of both is a dependent sequence whose second
part does not look at the first value. -/
theorem run_map_both (p : Grammar Result α) (q : Grammar Result β) (f : α × β → γ) :
    run rules budget (map f (both p q)) =
      run rules budget (bind p fun first => map (fun second => f (first, second)) q) := by
  rw [run_map, run_both, run_bind]
  exact Parser.map_both_eq_bind _ _ f

theorem run_both_eq_bind (p : Grammar Result α) (q : Grammar Result β) :
    run rules budget (both p q) =
      run rules budget (bind p fun first => map (fun second => (first, second)) q) := by
  calc
    run rules budget (both p q) = run rules budget (map id (both p q)) := by
      funext c
      exact (Parser.Outcome.map_id _).symm
    _ = run rules budget (bind p fun first => map (fun second => (first, second)) q) :=
      run_map_both rules budget p q id

theorem run_orElse_assoc (p q r : Grammar Result α) :
    run rules budget (orElse (orElse p q) r) = run rules budget (orElse p (orElse q r)) := by
  simp only [run_orElse]
  exact Parser.orElse_assoc _ _ _

theorem run_fail_orElse (message : Bytes) (q : Grammar Result α) :
    run rules budget (orElse (fail message) q) = run rules budget q := by
  rw [run_orElse]
  exact Parser.fail_orElse message _

/-- Sequences and choices are lawful, for all grammars, at every cursor in range:
`succeed` is neutral on both sides of a sequence, sequences may be bracketed either
way, the sequences that keep the second value, both values or the first one are
three uses of the dependent sequence, choices may be bracketed either way, and a
bare failure is neutral on the left of a choice. -/
theorem run_lawful (p : Grammar Result α) (q : Grammar Result β) (f : α → Grammar Result β)
    (g : β → Grammar Result γ) (p₁ p₂ p₃ : Grammar Result α) (value : α) (message : Bytes)
    {c : Cursor} (inRange : c.InRange) :
    run rules budget (bind (succeed value) f) c = run rules budget (f value) c ∧
    run rules budget (bind p succeed) c = run rules budget p c ∧
    run rules budget (bind (bind p f) g) c =
      run rules budget (bind p fun first => bind (f first) g) c ∧
    run rules budget (andThen p q) c =
      run rules budget (bind p fun _ => map (fun second => second) q) c ∧
    run rules budget (both p q) c =
      run rules budget (bind p fun first => map (fun second => (first, second)) q) c ∧
    run rules budget (skip p q) c =
      run rules budget (bind p fun first => map (fun _ => first) q) c ∧
    run rules budget (orElse (orElse p₁ p₂) p₃) c =
      run rules budget (orElse p₁ (orElse p₂ p₃)) c ∧
    run rules budget (orElse (fail message) p) c = run rules budget p c := by
  constructor
  · exact congrFun (run_succeed_bind rules budget value f) c
  constructor
  · exact congrFun (run_bind_succeed rules budget p) c
  constructor
  · exact run_bind_assoc rules budget p f g inRange
  constructor
  · exact congrFun (run_map_both rules budget p q Prod.snd) c
  constructor
  · exact congrFun (run_both_eq_bind rules budget p q) c
  constructor
  · exact congrFun (run_map_both rules budget p q Prod.fst) c
  constructor
  · exact congrFun (run_orElse_assoc rules budget p₁ p₂ p₃) c
  · exact congrFun (run_fail_orElse rules budget message p) c

/-- In `.abc` from offset 1: behind `ab` a third part fails at offset 3, and its
failure is final however the three are bracketed.  And once `a` has been read, no
bracket around the choices lets the last alternative be tried. -/
theorem run_lawful_committed :
    (⟨(Bytes.ofString ".abc").toArray, 1⟩ : Cursor).InRange ∧
    run (fun _ => Json.Rules.value) 3
        (bind (bind (literal (Bytes.ofString "a")) fun _ => literal (Bytes.ofString "b"))
          fun _ => (fail [] : Grammar _ Bytes))
        ⟨(Bytes.ofString ".abc").toArray, 1⟩ =
      .failure ⟨.worded [], false, 3⟩ ∧
    run (fun _ => Json.Rules.value) 3
        (orElse
          (orElse (skip (literal (Bytes.ofString "a")) (literal (Bytes.ofString ".")))
            (literal (Bytes.ofString "b")))
          (literal (Bytes.ofString "a")))
        ⟨(Bytes.ofString ".abc").toArray, 1⟩ =
      .failure ⟨.unexpectedText (Bytes.ofString ".") (Bytes.ofString "b"), false, 2⟩ := by
  have inRange : (⟨(Bytes.ofString ".abc").toArray, 1⟩ : Cursor).InRange := by decide
  obtain ⟨_, _, bracketed, _, _, _, chosen, _⟩ :=
    run_lawful (fun _ => Json.Rules.value) 3
      (literal (Bytes.ofString "a")) (literal (Bytes.ofString "."))
      (fun _ => literal (Bytes.ofString "b")) (fun _ => (fail [] : Grammar _ Bytes))
      (skip (literal (Bytes.ofString "a")) (literal (Bytes.ofString ".")))
      (literal (Bytes.ofString "b")) (literal (Bytes.ofString "a")) [] [] inRange
  constructor
  · exact inRange
  constructor
  · rw [bracketed]
    rfl
  · rw [chosen]
    rfl

end JsonFit.Grammar
