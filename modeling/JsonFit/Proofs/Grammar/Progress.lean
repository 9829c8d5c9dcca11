import JsonFit.Proofs.Grammar.Discipline
import JsonFit.Proofs.Parser.Extends

/-!
# Budgets and progress

Three things bound a run of a grammar.

A larger budget never changes the outcome of a run that has ended: so a budget
that is enough is as good as none.

A grammar is guarded if a call of a rule in it has passed at least one byte
before, so that there is no way from a rule to itself on the spot.  Rules with
guarded grammars call rules only further on in the text.  To say so of whole
runs, `callAscending` watches the calls: a call that is not further on than the
rule it comes from is a fault.  No combinator recovers from a fault, so a run
that is the same with and without the watch makes no such call.

And the loops of a grammar advance if their parts pass at least one byte
wherever they succeed.
-/

namespace JsonFit.Grammar

open JsonFit.Parser (ExtendsFrom Passes)
open JsonFit.Parser.Outcome (Extends)

variable {Rule : Type} {Result : Rule → Type} {α β : Type}

/-- One case for each way to build a grammar: what the rules extend, the grammar
extends. -/
theorem eval_extends {call call' : (r : Rule) → Parser (Result r)}
    (orderly : ∀ r, (call r).Orderly fun _ => True) {start : Cursor} (inRange : start.InRange)
    (calls : ∀ r, ExtendsFrom start (call r) (call' r)) {budget budget' : Nat}
    (enough : budget ≤ budget') (p : Grammar Result α) :
    ExtendsFrom start (eval call budget p) (eval call' budget' p) := by
  have evalOrderly {γ : Type} (q : Grammar Result γ) :
      (eval call budget q).Orderly fun _ => True :=
    eval_orderly orderly budget q fun _ _ => trivial
  have reachesNext {γ : Type} {q : Grammar Result γ} {c : Cursor} (reaches : start.Reaches c)
      {value : γ} {next : Cursor} (taken : eval call budget q c = .success value next) :
      start.Reaches next :=
    reaches.trans ((evalOrderly q).reaches (reaches.inRange inRange) taken)
  induction p with
  | literal text => exact .refl _
  | char point => exact .refl _
  | upTo delimiter => exact .refl _
  | finish => exact .refl _
  | succeed value => exact .refl _
  | fail message => exact .refl _
  | abort fault => exact .refl _
  | rule r => exact calls r
  | map f p ih => exact fun c reaches => Parser.extends_map (ih reaches) f
  | bind p f first second =>
      exact fun c reaches => Parser.extends_bind (first reaches)
        fun value next taken => second value (reachesNext reaches taken)
  | both p q first second =>
      exact fun c reaches => Parser.extends_both (first reaches)
        fun value next taken => second (reachesNext reaches taken)
  | orElse p q first second =>
      exact fun c reaches => Parser.extends_orElse (first reaches) (second reaches)
  | attempt p ih => exact fun c reaches => Parser.extends_attempt (ih reaches)
  | optional p ih => exact fun c reaches => Parser.extends_optional (ih reaches)
  | many p ih => exact fun c reaches => ih.manyLoop (evalOrderly p) inRange _ [] reaches
  | sepBy p delimiter item between =>
      exact fun c reaches => Parser.extends_sepBy (item reaches) budget budget'
        fun value next taken => item.sepByLoop (evalOrderly p) (evalOrderly delimiter) inRange
          between enough [value] (reachesNext reaches taken)

theorem callRule_extends (rules : (r : Rule) → Grammar Result (Result r)) {start : Cursor}
    (inRange : start.InRange) {budget budget' : Nat} (enough : budget ≤ budget') (r : Rule) :
    ExtendsFrom start (callRule rules budget r) (callRule rules budget' r) := by
  induction budget generalizing budget' r with
  | zero => exact fun _ _ => .of_exhausted _
  | succ budget ih =>
      obtain ⟨budget', rfl⟩ := Nat.exists_eq_add_one.mpr (Nat.zero_lt_of_lt enough)
      have less : budget ≤ budget' := Nat.le_of_succ_le_succ enough
      exact eval_extends (callRule_orderly_any rules budget) inRange (ih less) less (rules r)

/-- A run that has ended is the same with any larger budget. -/
theorem run_extends (rules : (r : Rule) → Grammar Result (Result r)) {budget budget' : Nat}
    (enough : budget ≤ budget') (p : Grammar Result α) {c : Cursor} (inRange : c.InRange) :
    (run rules budget p c).Extends (run rules budget' p c) :=
  eval_extends (callRule_orderly_any rules budget) inRange
    (callRule_extends rules inRange enough) enough p (.refl inRange)

/-- The run of a grammar ends in this outcome, with a budget that is enough. -/
def EndsIn (rules : (r : Rule) → Grammar Result (Result r)) (p : Grammar Result α) (c : Cursor)
    (outcome : Parser.Outcome α) : Prop :=
  outcome.Ended ∧ ∃ budget, run rules budget p c = outcome

/-- The outcome of a run is the one with every budget from some budget on. -/
theorem EndsIn.exists_enough {rules : (r : Rule) → Grammar Result (Result r)}
    {p : Grammar Result α} {c : Cursor} {outcome : Parser.Outcome α}
    (ends : EndsIn rules p c outcome) (inRange : c.InRange) :
    ∃ enough, ∀ budget, enough ≤ budget → run rules budget p c = outcome := by
  obtain ⟨ended, enough, rfl⟩ := ends
  exact ⟨enough, fun budget larger => run_extends rules larger p inRange ended⟩

/-- What large budgets do alike ends alike. -/
theorem endsIn_congr (rules : (r : Rule) → Grammar Result (Result r)) {p q : Grammar Result α}
    {c : Cursor} (inRange : c.InRange) (enough : Nat)
    (same : ∀ budget, enough ≤ budget → run rules budget p c = run rules budget q c)
    {outcome : Parser.Outcome α} : EndsIn rules p c outcome ↔ EndsIn rules q c outcome := by
  constructor
  · intro ends
    obtain ⟨enough', endsWith⟩ := ends.exists_enough inRange
    exact ⟨ends.1, max enough enough',
      (same _ (Nat.le_max_left ..)).symm.trans (endsWith _ (Nat.le_max_right ..))⟩
  · intro ends
    obtain ⟨enough', endsWith⟩ := ends.exists_enough inRange
    exact ⟨ends.1, max enough enough',
      (same _ (Nat.le_max_left ..)).trans (endsWith _ (Nat.le_max_right ..))⟩

/-! ## Guarded grammars -/

/-- What alternatives pass on to a choice between two of them, they pass on to a
choice between any number. -/
theorem firstOf_of_forall {holds : Grammar Result α → Prop} (none : holds (abort .noAlternatives))
    (whole : ∀ p, holds p → holds (attempt p))
    (either : ∀ p q, holds p → holds q → holds (orElse p q)) {ps : List (Grammar Result α)}
    (all : ∀ p ∈ ps, holds p) : holds (firstOf ps) := by
  have further (choice : Grammar Result α) (held : holds choice) (qs : List (Grammar Result α))
      (others : ∀ q ∈ qs, holds q) :
      holds (qs.foldl (fun choice q => orElse choice (attempt q)) choice) := by
    induction qs generalizing choice with
    | nil => exact held
    | cons q qs ih =>
        obtain ⟨here, later⟩ := List.forall_mem_cons.mp others
        exact ih _ (either _ _ held (whole q here)) later
  cases ps with
  | nil => exact none
  | cons p ps =>
      obtain ⟨here, later⟩ := List.forall_mem_cons.mp all
      exact further _ (whole p here) ps later

section Guarded

variable (call : (r : Rule) → Parser (Result r)) (budget : Nat)

/-- Has every call of a rule in the grammar passed at least one byte before?  A
part may stand unguarded only behind one that passes bytes. -/
def Guarded : {α : Type} → Grammar Result α → Prop
  | _, literal _ => True
  | _, char _ => True
  | _, upTo _ => True
  | _, finish => True
  | _, succeed _ => True
  | _, fail _ => True
  | _, abort _ => True
  | _, rule _ => False
  | _, map _ p => Guarded p
  | _, bind p f => Guarded p ∧ (Passes 1 (eval call budget p) ∨ ∀ value, Guarded (f value))
  | _, both p q => Guarded p ∧ (Passes 1 (eval call budget p) ∨ Guarded q)
  | _, orElse p q => Guarded p ∧ Guarded q
  | _, attempt p => Guarded p
  | _, optional p => Guarded p
  | _, many p => Guarded p
  | _, sepBy p _ => Guarded p ∧ Passes 1 (eval call budget p)

/-- Do the parts of all loops in the grammar pass at least one byte wherever they
succeed?  These are the repeated part of a repetition, and the elements and the
delimiters of a list. -/
def LoopsAdvance : {α : Type} → Grammar Result α → Prop
  | _, literal _ => True
  | _, char _ => True
  | _, upTo _ => True
  | _, finish => True
  | _, succeed _ => True
  | _, fail _ => True
  | _, abort _ => True
  | _, rule _ => True
  | _, map _ p => LoopsAdvance p
  | _, bind p f => LoopsAdvance p ∧ ∀ value, LoopsAdvance (f value)
  | _, both p q => LoopsAdvance p ∧ LoopsAdvance q
  | _, orElse p q => LoopsAdvance p ∧ LoopsAdvance q
  | _, attempt p => LoopsAdvance p
  | _, optional p => LoopsAdvance p
  | _, many p => LoopsAdvance p ∧ Passes 1 (eval call budget p)
  | _, sepBy p delimiter => LoopsAdvance p ∧ LoopsAdvance delimiter ∧
      Passes 1 (eval call budget p) ∧ Passes 1 (eval call budget delimiter)

/-- A choice between guarded alternatives is guarded. -/
theorem guarded_firstOf {ps : List (Grammar Result α)}
    (all : ∀ p ∈ ps, Guarded call budget p) : Guarded call budget (firstOf ps) :=
  firstOf_of_forall trivial (fun _ held => held) (fun _ _ => And.intro) all

theorem loopsAdvance_firstOf {ps : List (Grammar Result α)}
    (all : ∀ p ∈ ps, LoopsAdvance call budget p) : LoopsAdvance call budget (firstOf ps) :=
  firstOf_of_forall trivial (fun _ held => held) (fun _ _ => And.intro) all

end Guarded

/-- From a cursor on, a guarded grammar asks nothing of its rules but further on
in the text. -/
theorem eval_extends_of_guarded {call call' : (r : Rule) → Parser (Result r)}
    (orderly : ∀ r, (call r).Orderly fun _ => True) {c : Cursor} (inRange : c.InRange)
    {budget budget' : Nat} (enough : budget ≤ budget')
    (calls : ∀ r ⦃d⦄, c.Reaches d → c.offset < d.offset → (call r d).Extends (call' r d))
    {p : Grammar Result α} (guarded : Guarded call budget p) :
    (eval call budget p c).Extends (eval call' budget' p c) := by
  have evalOrderly {γ : Type} (q : Grammar Result γ) :
      (eval call budget q).Orderly fun _ => True :=
    eval_orderly orderly budget q fun _ _ => trivial
  have reachesNext {γ : Type} {q : Grammar Result γ} {value : γ} {next : Cursor}
      (taken : eval call budget q c = .success value next) : c.Reaches next :=
    (evalOrderly q).reaches inRange taken
  -- once a byte has been passed, the rules are compared everywhere further on
  have behind {γ : Type} (q : Grammar Result γ) {next : Cursor} (reaches : c.Reaches next)
      (moved : c.offset < next.offset) :
      ExtendsFrom next (eval call budget q) (eval call' budget' q) := by
    apply eval_extends orderly (reaches.inRange inRange) _ enough
    intro r d further
    exact calls r (reaches.trans further) (Int.lt_of_lt_of_le moved further.notBefore)
  have passed {γ : Type} {q : Grammar Result γ} (passes : Passes 1 (eval call budget q))
      {value : γ} {next : Cursor} (taken : eval call budget q c = .success value next) :
      c.offset < next.offset := by
    obtain ⟨before, ahead, rfl⟩ := inRange.exists_between
    obtain ⟨text, rest, -, some, rfl⟩ := passes taken
    simp only [Cursor.offset_between, List.length_append]
    omega
  -- after a guarded part of a sequence the cursor has moved or is the same
  have onward {γ δ : Type} {q : Grammar Result γ} {q' : Grammar Result δ}
      (second : Passes 1 (eval call budget q) ∨
        (eval call budget q' c).Extends (eval call' budget' q' c))
      {value : γ} {next : Cursor} (taken : eval call budget q c = .success value next) :
      (eval call budget q' next).Extends (eval call' budget' q' next) := by
    have reaches := reachesNext taken
    by_cases moved : c.offset < next.offset
    · exact behind q' reaches moved (.refl (reaches.inRange inRange))
    · rcases second with passes | same
      · exact absurd (passed passes taken) moved
      · have notBefore := reaches.notBefore
        rw [reaches.eq_of_offset_eq (by omega)]
        exact same
  induction p with
  | literal text => exact .refl _
  | char point => exact .refl _
  | upTo delimiter => exact .refl _
  | finish => exact .refl _
  | succeed value => exact .refl _
  | fail message => exact .refl _
  | abort fault => exact .refl _
  | rule r => exact guarded.elim
  | map f p ih => exact Parser.extends_map (ih guarded) f
  | bind p f first second =>
      exact Parser.extends_bind (first guarded.1) fun value next taken =>
        onward (guarded.2.imp_right fun all => second value (all value)) taken
  | both p q first second =>
      exact Parser.extends_both (first guarded.1) fun value next taken =>
        onward (guarded.2.imp_right second) taken
  | orElse p q first second =>
      exact Parser.extends_orElse (first guarded.1) (second guarded.2)
  | attempt p ih => exact Parser.extends_attempt (ih guarded)
  | optional p ih => exact Parser.extends_optional (ih guarded)
  | many p ih =>
      apply Parser.extends_manyLoop_succ (ih guarded)
      intro value next taken unlike
      have reaches := reachesNext taken
      have notBefore := reaches.notBefore
      have nextInRange := reaches.inRange inRange
      exact (behind p reaches (by omega)).manyLoop (evalOrderly p) nextInRange _ [value]
        (.refl nextInRange)
  | sepBy p delimiter item _ =>
      apply Parser.extends_sepBy (item guarded.1)
      intro value next taken
      have reaches := reachesNext taken
      have moved := passed guarded.2 taken
      have nextInRange := reaches.inRange inRange
      exact (behind p reaches moved).sepByLoop (evalOrderly p) (evalOrderly delimiter) nextInRange
        (behind delimiter reaches moved) enough [value] (.refl nextInRange)

/-! ## Calls further on -/

/-- The parser of a rule, watched: a call must be further on than `floor`, and
the calls that it makes must be further on than itself. -/
def callAscending (rules : (r : Rule) → Grammar Result (Result r)) (f : Fault) :
    (budget : Nat) → (floor : Int) → (r : Rule) → Parser (Result r)
  | 0, _, _ => fun _ => .exhausted
  | budget + 1, floor, r => fun c =>
      if floor < c.offset then eval (callAscending rules f budget c.offset) budget (rules r) c
      else .fault f

variable (rules : (r : Rule) → Grammar Result (Result r)) (f : Fault)

theorem callAscending_orderly (budget : Nat) (floor : Int) (r : Rule) :
    (callAscending rules f budget floor r).Orderly fun _ => True := by
  intro c inRange
  cases budget with
  | zero => trivial
  | succ budget =>
      rw [callAscending]
      dsimp only
      split
      · exact eval_orderly (callAscending_orderly budget c.offset) budget (rules r)
          (fun _ _ => trivial) inRange
      · trivial

/-- Every call of a rule in a run of a rule is further on in the text: the run
is the same with the watch and without, whatever fault the watch raises. -/
def CallsAscend : Prop :=
  ∀ f budget floor r (c : Cursor), c.InRange → floor < c.offset →
    callAscending rules f budget floor r c = callRule rules budget r c

variable {rules}

/-- Rules with guarded grammars call rules further on only.  By induction on the
budget: the calls inside a call are as they are without the watch. -/
theorem callsAscend_of_guarded (guarded : ∀ call budget r, Guarded call budget (rules r)) :
    CallsAscend rules := by
  intro f budget floor r c inRange above
  induction budget generalizing floor r c with
  | zero => rfl
  | succ budget ih =>
      rw [callAscending, callRule]
      dsimp only
      rw [if_pos above]
      have same (r : Rule) {d : Cursor} (reaches : c.Reaches d) (moved : c.offset < d.offset) :
          callAscending rules f budget c.offset r d = callRule rules budget r d :=
        ih c.offset r d (reaches.inRange inRange) moved
      apply Extends.antisymm
      · exact eval_extends_of_guarded (callRule_orderly_any rules budget) inRange
          (Nat.le_refl _) (fun r _ reaches moved => .of_eq (same r reaches moved))
          (guarded _ _ r)
      · exact eval_extends_of_guarded (callAscending_orderly rules f budget c.offset) inRange
          (Nat.le_refl _) (fun r _ reaches moved => .of_eq (same r reaches moved).symm)
          (guarded _ _ r)

end JsonFit.Grammar
