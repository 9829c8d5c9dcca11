import JsonFit.Proofs.Parser.Ending
import JsonFit.Proofs.Parser.Orderly

/-!
# Runs with more budget

A run that has ended would have ended in the same way with more budget: this is
`Outcome.Extends`, and it says nothing of a run that gave up.  Every combinator
keeps it.  The laws speak of single runs, and ask of a later part only what it
does where an earlier one has ended.

Two parsers that extend each other have the same runs.  So the laws also serve
to compare parsers that agree in some places only.
-/

namespace JsonFit.Parser

variable {α β : Type}

namespace Outcome

/-- If the first run has ended, the second has the same outcome. -/
def Extends (outcome outcome' : Outcome α) : Prop :=
  outcome.Ended → outcome' = outcome

namespace Extends

variable {outcome outcome' : Outcome α}

protected theorem refl (outcome : Outcome α) : outcome.Extends outcome :=
  fun _ => rfl

theorem of_eq (same : outcome' = outcome) : outcome.Extends outcome' :=
  fun _ => same

theorem of_exhausted (outcome : Outcome α) : Extends exhausted outcome :=
  fun ended => ended.elim

theorem cases (run : outcome.Extends outcome') : outcome = exhausted ∨ outcome' = outcome := by
  cases outcome with
  | exhausted => exact .inl rfl
  | success value next => exact .inr (run trivial)
  | failure e => exact .inr (run trivial)
  | fault f => exact .inr (run trivial)

/-- There is only one way not to end. -/
theorem antisymm (forth : outcome.Extends outcome') (back : outcome'.Extends outcome) :
    outcome' = outcome := by
  rcases forth.cases with gaveUp | same
  · rcases back.cases with gaveUp' | same'
    · rw [gaveUp, gaveUp']
    · exact same'.symm
  · exact same

theorem map (run : outcome.Extends outcome') (f : α → β) :
    (outcome.map f).Extends (outcome'.map f) := by
  rcases run.cases with rfl | rfl
  · exact .of_exhausted _
  · exact .refl _

theorem andThen {k k' : α → Cursor → Outcome β} (run : outcome.Extends outcome')
    (further : ∀ value next, outcome = success value next →
      (k value next).Extends (k' value next)) :
    (outcome.andThen k).Extends (outcome'.andThen k') := by
  rcases run.cases with rfl | rfl
  · exact .of_exhausted _
  · cases outcome' with
    | success value next => exact further value next rfl
    | failure e => exact .refl _
    | fault f => exact .refl _
    | exhausted => exact .of_exhausted _

theorem recover {k k' : Failure → Outcome α} (run : outcome.Extends outcome')
    (further : ∀ e, (k e).Extends (k' e)) : (outcome.recover k).Extends (outcome'.recover k') := by
  rcases run.cases with rfl | rfl
  · exact .of_exhausted _
  · cases outcome' with
    | failure e => exact further e
    | success value next => exact .refl _
    | fault f => exact .refl _
    | exhausted => exact .of_exhausted _

theorem committing (run : outcome.Extends outcome') (start middle : Cursor) :
    (committing start middle outcome).Extends (committing start middle outcome') :=
  run.recover fun _ => .refl _

end Extends

end Outcome

section Runs

variable {p p' q q' : Parser α} {delimiter delimiter' : Parser β} {c : Cursor}

theorem extends_map (run : (p c).Extends (p' c)) (f : α → β) :
    (Parser.map f p c).Extends (Parser.map f p' c) :=
  run.map f

theorem extends_bind {f f' : α → Parser β} (run : (p c).Extends (p' c))
    (further : ∀ value next, p c = .success value next → (f value next).Extends (f' value next)) :
    (Parser.bind p f c).Extends (Parser.bind p' f' c) :=
  run.andThen fun value next taken => (further value next taken).committing c next

theorem extends_both (run : (p c).Extends (p' c))
    (further : ∀ value next, p c = .success value next →
      (delimiter next).Extends (delimiter' next)) :
    (Parser.both p delimiter c).Extends (Parser.both p' delimiter' c) :=
  run.andThen fun value next taken => ((further value next taken).map _).committing c next

theorem extends_orElse (run : (p c).Extends (p' c)) (other : (q c).Extends (q' c)) :
    (Parser.orElse p q c).Extends (Parser.orElse p' q' c) := by
  apply run.recover
  intro e
  split
  · exact other
  · exact .refl _

theorem extends_attempt (run : (p c).Extends (p' c)) :
    (Parser.attempt p c).Extends (Parser.attempt p' c) :=
  run.recover fun _ => .refl _

theorem extends_optional (run : (p c).Extends (p' c)) :
    (Parser.optional p c).Extends (Parser.optional p' c) :=
  (run.map some).recover fun _ => .refl _

/-- One turn of a repetition, and the turns behind it. -/
theorem extends_manyLoop_succ (run : (p c).Extends (p' c)) (budget : Nat) (values : List α)
    (further : ∀ value next, p c = .success value next → next.offset ≠ c.offset →
      (manyLoop p budget (value :: values) next).Extends
        (manyLoop p' budget (value :: values) next)) :
    (manyLoop p (budget + 1) values c).Extends (manyLoop p' (budget + 1) values c) := by
  rw [manyLoop, manyLoop]
  rcases run.cases with gaveUp | same
  · rw [gaveUp]
    exact .of_exhausted _
  · rw [same]
    cases taken : p c with
    | success value next =>
        dsimp only
        split
        · exact .refl _
        · rename_i moved
          exact further value next taken moved
    | failure e => exact .refl _
    | fault f => exact .refl _
    | exhausted => exact .of_exhausted _

/-- One delimiter of a list with the element behind it, and what follows. -/
theorem extends_sepByLoop_succ (run : (delimiter c).Extends (delimiter' c)) (budget budget' : Nat)
    (values : List α)
    (item : ∀ separator middle, delimiter c = .success separator middle →
      (p middle).Extends (p' middle))
    (further : ∀ separator middle value next, delimiter c = .success separator middle →
      p middle = .success value next →
        (sepByLoop p delimiter budget (value :: values) next).Extends
          (sepByLoop p' delimiter' budget' (value :: values) next)) :
    (sepByLoop p delimiter (budget + 1) values c).Extends
      (sepByLoop p' delimiter' (budget' + 1) values c) := by
  rw [sepByLoop, sepByLoop]
  rcases run.cases with gaveUp | same
  · rw [gaveUp]
    exact .of_exhausted _
  · rw [same]
    cases delimited : delimiter c with
    | success separator middle =>
        dsimp only
        rcases (item separator middle delimited).cases with gaveUp | same
        · rw [gaveUp]
          exact .of_exhausted _
        · rw [same]
          cases taken : p middle with
          | success value next => exact further separator middle value next delimited taken
          | failure e => exact .refl _
          | fault f => exact .refl _
          | exhausted => exact .of_exhausted _
    | failure e => exact .refl _
    | fault f => exact .refl _
    | exhausted => exact .of_exhausted _

theorem extends_sepBy (run : (p c).Extends (p' c)) (budget budget' : Nat)
    (further : ∀ value next, p c = .success value next →
      (sepByLoop p delimiter budget [value] next).Extends
        (sepByLoop p' delimiter' budget' [value] next)) :
    (sepBy budget p delimiter c).Extends (sepBy budget' p' delimiter' c) := by
  rw [sepBy, sepBy]
  rcases run.cases with gaveUp | same
  · rw [gaveUp]
    exact .of_exhausted _
  · rw [same]
    cases taken : p c with
    | success value next => exact further value next taken
    | failure e => exact .refl _
    | fault f => exact .refl _
    | exhausted => exact .of_exhausted _

end Runs

/-- The second parser extends every run of the first from `start` on. -/
def ExtendsFrom (start : Cursor) (p p' : Parser α) : Prop :=
  ∀ ⦃c⦄, start.Reaches c → (p c).Extends (p' c)

namespace ExtendsFrom

variable {allowed : Fault → Prop} {start : Cursor} {p p' : Parser α}
  {delimiter delimiter' : Parser β}

protected theorem refl (p : Parser α) : ExtendsFrom start p p :=
  fun _ _ => .refl _

theorem manyLoop (orderly : p.Orderly allowed) (inRange : start.InRange)
    (runs : ExtendsFrom start p p') (budget : Nat) (values : List α) :
    ExtendsFrom start (Parser.manyLoop p budget values) (Parser.manyLoop p' budget values) := by
  intro c reaches
  induction budget generalizing values c with
  | zero => exact .of_exhausted _
  | succ budget ih =>
      apply extends_manyLoop_succ (runs reaches)
      intro value next taken _
      have further := orderly.reaches (reaches.inRange inRange) taken
      exact ih (value :: values) (reaches.trans further)

theorem sepByLoop (itemOrderly : p.Orderly allowed) (delimiterOrderly : delimiter.Orderly allowed)
    (inRange : start.InRange) (item : ExtendsFrom start p p')
    (between : ExtendsFrom start delimiter delimiter') {budget budget' : Nat}
    (enough : budget ≤ budget') (values : List α) :
    ExtendsFrom start (Parser.sepByLoop p delimiter budget values)
      (Parser.sepByLoop p' delimiter' budget' values) := by
  intro c reaches
  induction budget generalizing budget' values c with
  | zero => exact .of_exhausted _
  | succ budget ih =>
      obtain ⟨budget', rfl⟩ := Nat.exists_eq_add_one.mpr (Nat.zero_lt_of_lt enough)
      have reachesMiddle {separator : β} {middle : Cursor}
          (delimited : delimiter c = .success separator middle) : start.Reaches middle :=
        reaches.trans (delimiterOrderly.reaches (reaches.inRange inRange) delimited)
      apply extends_sepByLoop_succ (between reaches)
      · intro separator middle delimited
        exact item (reachesMiddle delimited)
      · intro separator middle value next delimited taken
        have further := itemOrderly.reaches ((reachesMiddle delimited).inRange inRange) taken
        exact ih (by omega) (value :: values) ((reachesMiddle delimited).trans further)

end ExtendsFrom

end JsonFit.Parser
