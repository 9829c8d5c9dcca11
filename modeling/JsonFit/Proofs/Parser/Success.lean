import JsonFit.Grammar

/-!
# When parsers succeed

For every combinator, the runs of its parts that make up a successful run of the
whole.  A list is described by `FurtherItems`: the chain of delimiters and
elements behind its first element, up to the cursor at which the delimiter
declines.
-/

namespace JsonFit.Parser

variable {α β γ : Type} {p q : Parser α} {delimiter : Parser β} {c next : Cursor}

/-- The parser fails at this cursor and leaves the choice open. -/
def Declines (p : Parser α) (c : Cursor) : Prop :=
  ∃ e, p c = .failure e ∧ e.retry = true

theorem declines_of_failAt {cause : Cause} (failed : p c = failAt c cause) : p.Declines c :=
  ⟨_, failed, rfl⟩

theorem Outcome.map_eq_success_iff {outcome : Outcome α} {f : α → γ} {value : γ} :
    outcome.map f = .success value next ↔
      ∃ inner, outcome = .success inner next ∧ f inner = value := by
  constructor
  · intro mapped
    cases outcome with
    | success inner middle =>
        cases mapped
        exact ⟨inner, rfl, rfl⟩
    | failure e => contradiction
    | fault f => contradiction
    | exhausted => contradiction
  · rintro ⟨inner, rfl, rfl⟩
    rfl

theorem Outcome.andThen_eq_success_iff {outcome : Outcome α} {k : α → Cursor → Outcome γ}
    {value : γ} :
    outcome.andThen k = .success value next ↔
      ∃ first middle, outcome = .success first middle ∧ k first middle = .success value next := by
  constructor
  · intro succeeded
    cases outcome with
    | success first middle => exact ⟨first, middle, rfl, succeeded⟩
    | failure e => contradiction
    | fault f => contradiction
    | exhausted => contradiction
  · rintro ⟨first, middle, rfl, succeeded⟩
    exact succeeded

/-- Committing concerns failures only. -/
theorem committing_eq_success_iff {start middle : Cursor} {outcome : Outcome α} {value : α} :
    committing start middle outcome = .success value next ↔ outcome = .success value next := by
  cases outcome <;> simp [committing, Outcome.mapFailure, Outcome.recover]

theorem map_eq_success_iff {f : α → γ} {value : γ} :
    map f p c = .success value next ↔ ∃ inner, p c = .success inner next ∧ f inner = value :=
  Outcome.map_eq_success_iff

theorem bind_eq_success_iff {f : α → Parser γ} {value : γ} :
    bind p f c = .success value next ↔
      ∃ first middle, p c = .success first middle ∧ f first middle = .success value next := by
  simp only [bind, Outcome.andThen_eq_success_iff, committing_eq_success_iff]

theorem both_eq_success_iff {first : α} {second : β} :
    both p delimiter c = .success (first, second) next ↔
      ∃ middle, p c = .success first middle ∧ delimiter middle = .success second next := by
  simp only [both, Outcome.andThen_eq_success_iff, committing_eq_success_iff,
    Outcome.map_eq_success_iff, Prod.mk.injEq]
  constructor
  · rintro ⟨_, middle, taken, _, taken', rfl, rfl⟩
    exact ⟨middle, taken, taken'⟩
  · rintro ⟨middle, taken, taken'⟩
    exact ⟨first, middle, taken, second, taken', rfl, rfl⟩

theorem Declines.map (declines : p.Declines c) (f : α → γ) : (Parser.map f p).Declines c := by
  rcases declines with ⟨e, failed, retry⟩
  exact ⟨e, by rw [Parser.map, failed, Outcome.map], retry⟩

/-- Where the first part of a sequence has not moved, the second may decline. -/
theorem declines_bind {f : α → Parser γ} {value : α} (taken : p c = .success value next)
    (unmoved : next.offset = c.offset) (declines : (f value).Declines next) :
    (bind p f).Declines c := by
  rcases declines with ⟨e, failed, retry⟩
  refine ⟨e, ?_, retry⟩
  rw [bind, taken, Outcome.andThen, failed]
  simp [committing, Outcome.mapFailure, Outcome.recover, Failure.commitIf, unmoved]

/-- The first part of a sequence fails as it is. -/
theorem both_of_failure {e : Failure} (failed : p c = .failure e) (q : Parser β) :
    both p q c = .failure e := by
  rw [both, failed, Outcome.andThen]

/-- The second part of a sequence fails committed if the first has moved. -/
theorem both_of_failure_second {first : α} {middle : Cursor} {e : Failure}
    (taken : p c = .success first middle) (failed : delimiter middle = .failure e) :
    both p delimiter c = .failure (e.commitIf (decide (middle.offset ≠ c.offset))) := by
  rw [both, taken, Outcome.andThen, failed, Outcome.map, committing, Outcome.mapFailure,
    Outcome.recover]

theorem Declines.both (declines : p.Declines c) (q : Parser β) : (Parser.both p q).Declines c := by
  rcases declines with ⟨e, failed, retry⟩
  exact ⟨e, both_of_failure failed q, retry⟩

theorem orElse_of_declines (declines : p.Declines c) : orElse p q c = q c := by
  rcases declines with ⟨e, failed, retry⟩
  rw [orElse, failed, Outcome.recover, if_pos retry]

theorem orElse_of_success {value : α} (taken : p c = .success value next) :
    orElse p q c = .success value next := by
  rw [orElse, taken, Outcome.recover]
  simp

theorem orElse_eq_success_iff {value : α} :
    orElse p q c = .success value next ↔
      p c = .success value next ∨ (p.Declines c ∧ q c = .success value next) := by
  rw [orElse, Declines]
  cases p c with
  | failure e =>
      by_cases retry : e.retry = true <;> simp [Outcome.recover, retry]
  | success inner middle => simp [Outcome.recover]
  | fault f => simp [Outcome.recover]
  | exhausted => simp [Outcome.recover]

theorem Declines.orElse (first : p.Declines c) (second : q.Declines c) :
    (Parser.orElse p q).Declines c := by
  rw [Declines, orElse_of_declines first]
  exact second

theorem attempt_eq_success_iff {value : α} :
    attempt p c = .success value next ↔ p c = .success value next := by
  rw [attempt, Outcome.mapFailure]
  cases p c <;> simp [Outcome.recover]

/-- An attempt declines wherever its parser fails at all. -/
theorem declines_attempt {e : Failure} (failed : p c = .failure e) : (attempt p).Declines c :=
  ⟨e.restart c.offset, by rw [attempt, failed, Outcome.mapFailure, Outcome.recover], rfl⟩

/-- The items of a list that stand behind a cursor, each after a delimiter, and
the cursor behind the last of them. -/
inductive FurtherItems (p : Parser α) (delimiter : Parser β) : Cursor → List α → Cursor → Prop
    where
  /-- No delimiter stands here. -/
  | stop {c : Cursor} (declines : delimiter.Declines c) : FurtherItems p delimiter c [] c
  /-- A delimiter and an item stand here. -/
  | step {c middle next last : Cursor} {separator : β} {value : α} {values : List α}
      (delimited : delimiter c = .success separator middle)
      (item : p middle = .success value next) (others : FurtherItems p delimiter next values last) :
      FurtherItems p delimiter c (value :: values) last

theorem sepByLoop_of_furtherItems {values : List α} {last : Cursor}
    (items : FurtherItems p delimiter c values last) {budget : Nat}
    (enough : values.length < budget) (earlier : List α) :
    sepByLoop p delimiter budget earlier c = .success (earlier.reverse ++ values) last := by
  induction items generalizing budget earlier with
  | stop declines =>
      rcases declines with ⟨e, failed, retry⟩
      obtain ⟨budget, rfl⟩ := Nat.exists_eq_add_one_of_ne_zero (Nat.ne_zero_of_lt enough)
      simp [sepByLoop, failed, retry]
  | step delimited item others ih =>
      obtain ⟨budget, rfl⟩ := Nat.exists_eq_add_one_of_ne_zero (Nat.ne_zero_of_lt enough)
      simp only [List.length_cons, Nat.add_lt_add_iff_right] at enough
      simp [sepByLoop, delimited, item, ih enough]

theorem furtherItems_of_sepByLoop {budget : Nat} {earlier values : List α} {last : Cursor}
    (succeeded : sepByLoop p delimiter budget earlier c = .success values last) :
    ∃ others, values = earlier.reverse ++ others ∧ FurtherItems p delimiter c others last := by
  induction budget generalizing earlier c with
  | zero => simp [sepByLoop] at succeeded
  | succ budget ih =>
      rw [sepByLoop] at succeeded
      cases delimited : delimiter c with
      | success separator middle =>
          cases item : p middle with
          | success value next =>
              simp only [delimited, item] at succeeded
              obtain ⟨others, rfl, items⟩ := ih succeeded
              exact ⟨value :: others, by simp, .step delimited item items⟩
          | failure e => simp [delimited, item] at succeeded
          | fault f => simp [delimited, item] at succeeded
          | exhausted => simp [delimited, item] at succeeded
      | failure e =>
          by_cases retry : e.retry = true
          · simp only [delimited, retry, if_true, Outcome.success.injEq] at succeeded
            obtain ⟨rfl, rfl⟩ := succeeded
            exact ⟨[], by simp, .stop ⟨e, delimited, retry⟩⟩
          · simp [delimited, retry] at succeeded
      | fault f => simp [delimited] at succeeded
      | exhausted => simp [delimited] at succeeded

/-- A list is empty, or it is an item and further items. -/
theorem sepBy_success_cases {budget : Nat} {values : List α} {last : Cursor}
    (succeeded : sepBy budget p delimiter c = .success values last) :
    (values = [] ∧ last = c) ∨
    ∃ value next others, values = value :: others ∧ p c = .success value next ∧
      FurtherItems p delimiter next others last := by
  rw [sepBy] at succeeded
  cases item : p c with
  | success value next =>
      simp only [item] at succeeded
      obtain ⟨others, rfl, items⟩ := furtherItems_of_sepByLoop succeeded
      exact .inr ⟨value, next, others, by simp, rfl, items⟩
  | failure e =>
      by_cases retry : e.retry = true
      · simp only [item, retry, if_true, Outcome.success.injEq] at succeeded
        exact .inl ⟨succeeded.1.symm, succeeded.2.symm⟩
      · simp [item, retry] at succeeded
  | fault f => simp [item] at succeeded
  | exhausted => simp [item] at succeeded

theorem sepBy_of_declines (declines : p.Declines c) (budget : Nat) :
    sepBy budget p delimiter c = .success [] c := by
  rcases declines with ⟨e, failed, retry⟩
  simp [sepBy, failed, retry]

theorem sepBy_of_furtherItems {value : α} {values : List α} {last : Cursor}
    (item : p c = .success value next) (items : FurtherItems p delimiter next values last)
    {budget : Nat} (enough : values.length < budget) :
    sepBy budget p delimiter c = .success (value :: values) last := by
  simp [sepBy, item, sepByLoop_of_furtherItems items enough]

end JsonFit.Parser

namespace JsonFit.Grammar

variable {Rule : Type} {Result : Rule → Type} {α β : Type}
  {call : (r : Rule) → Parser (Result r)} {budget : Nat} {c next : Cursor}
  {p : Grammar Result α} {q : Grammar Result β}

theorem eval_andThen_eq_success_iff {value : β} :
    eval call budget (andThen p q) c = .success value next ↔
      ∃ first middle, eval call budget p c = .success first middle ∧
        eval call budget q middle = .success value next := by
  simp only [andThen, eval, Parser.map_eq_success_iff, Prod.exists, Parser.both_eq_success_iff]
  constructor
  · rintro ⟨first, second, ⟨middle, taken, taken'⟩, rfl⟩
    exact ⟨first, middle, taken, taken'⟩
  · rintro ⟨first, middle, taken, taken'⟩
    exact ⟨first, value, ⟨middle, taken, taken'⟩, rfl⟩

theorem eval_skip_eq_success_iff {value : α} :
    eval call budget (skip p q) c = .success value next ↔
      ∃ middle second, eval call budget p c = .success value middle ∧
        eval call budget q middle = .success second next := by
  simp only [skip, eval, Parser.map_eq_success_iff, Prod.exists, Parser.both_eq_success_iff]
  constructor
  · rintro ⟨first, second, ⟨middle, taken, taken'⟩, rfl⟩
    exact ⟨middle, second, taken, taken'⟩
  · rintro ⟨middle, second, taken, taken'⟩
    exact ⟨value, second, ⟨middle, taken, taken'⟩, rfl⟩

theorem eval_skip_of_failure {e : Parser.Failure} (failed : eval call budget p c = .failure e) :
    eval call budget (skip p q) c = .failure e := by
  rw [skip, eval, eval, Parser.map, Parser.both_of_failure failed, Parser.Outcome.map]

theorem eval_andThen_of_failure_second {first : α} {middle : Cursor} {e : Parser.Failure}
    (taken : eval call budget p c = .success first middle)
    (failed : eval call budget q middle = .failure e) :
    eval call budget (andThen p q) c =
      .failure (e.commitIf (decide (middle.offset ≠ c.offset))) := by
  rw [andThen, eval, eval, Parser.map, Parser.both_of_failure_second taken failed,
    Parser.Outcome.map]

theorem declines_andThen (declines : (eval call budget p).Declines c) (q : Grammar Result β) :
    (eval call budget (andThen p q)).Declines c :=
  (declines.both _).map _

theorem declines_skip (declines : (eval call budget p).Declines c) (q : Grammar Result β) :
    (eval call budget (skip p q)).Declines c :=
  (declines.both _).map _

end JsonFit.Grammar
