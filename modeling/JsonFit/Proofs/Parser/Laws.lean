import JsonFit.Proofs.Parser.Orderly

/-!
# Laws of sequences and choices

Sequences form a monad and choices are associative.  For choices this is plain:
a choice looks at nothing but the standing of a failure.  For sequences the
standing itself is what has to be compared, because the two ways to bracket
three parsers measure consumption over different spans.  They agree as long as
nobody goes back: if the first two parsers together end where they began, then
neither of them has moved.
-/

namespace JsonFit.Parser

variable {α β γ : Type} {allowed : Fault → Prop} {start middle last : Cursor}

namespace Outcome

theorem andThen_assoc (outcome : Outcome α) (k : α → Cursor → Outcome β)
    (l : β → Cursor → Outcome γ) :
    (outcome.andThen k).andThen l = outcome.andThen fun value next => (k value next).andThen l := by
  cases outcome <;> rfl

@[simp]
theorem success_andThen (value : α) (next : Cursor) (k : α → Cursor → Outcome β) :
    (success value next).andThen k = k value next :=
  rfl

@[simp]
theorem andThen_success (outcome : Outcome α) : outcome.andThen success = outcome := by
  cases outcome <;> rfl

theorem map_andThen (outcome : Outcome α) (k : α → Cursor → Outcome β) (f : β → γ) :
    (outcome.andThen k).map f = outcome.andThen fun value next => (k value next).map f := by
  cases outcome <;> rfl

@[simp]
theorem map_map (outcome : Outcome α) (f : α → β) (g : β → γ) :
    (outcome.map f).map g = outcome.map (g ∘ f) := by
  cases outcome <;> rfl

/-- What follows a run matters only at the cursors that the run can reach. -/
theorem Orderly.andThen_congr {outcome : Outcome α} {k l : α → Cursor → Outcome β}
    (orderly : outcome.Orderly allowed start)
    (same : ∀ value middle, start.Reaches middle → k value middle = l value middle) :
    outcome.andThen k = outcome.andThen l := by
  cases outcome with
  | success value next => exact same value next orderly
  | failure e => rfl
  | fault f => rfl
  | exhausted => rfl

end Outcome

@[simp]
theorem committing_self (c : Cursor) (outcome : Outcome α) : committing c c outcome = outcome := by
  cases outcome <;> simp [committing, Outcome.mapFailure, Outcome.recover, Failure.commitIf]

theorem committing_map (outcome : Outcome α) (f : α → β) :
    committing start middle (outcome.map f) = (committing start middle outcome).map f := by
  cases outcome <;> rfl

/-- Behind a cursor that has moved, every failure comes out committed. -/
theorem committing_failure_of_moved (moved : middle.offset ≠ start.offset) (e : Failure) :
    committing start middle (.failure e : Outcome α) = .failure e.commit := by
  simp [committing, Outcome.mapFailure, Outcome.recover, Failure.commitIf, moved]

/-- Two consecutive spans commit what the whole span commits. -/
theorem committing_committing (first : start.Reaches middle) (second : middle.Reaches last)
    (outcome : Outcome α) :
    committing start middle (committing middle last outcome) = committing start last outcome := by
  by_cases unmoved : middle.offset = start.offset
  · obtain rfl := first.eq_of_offset_eq unmoved
    exact committing_self _ _
  · have moved : last.offset ≠ start.offset := by
      have low := first.notBefore
      have further := second.notBefore
      omega
    cases outcome with
    | failure e =>
        rw [committing_failure_of_moved moved]
        by_cases still : last.offset = middle.offset
        · rw [second.eq_of_offset_eq still, committing_self, committing_failure_of_moved unmoved]
        · rw [committing_failure_of_moved still, committing_failure_of_moved unmoved]
          rfl
    | success value next => rfl
    | fault f => rfl
    | exhausted => rfl

/-- The failures of a third part may be measured from the second part, as long as
the second part is then measured from the first as a whole. -/
theorem committing_andThen {outcome : Outcome α} (first : start.Reaches middle)
    (second : outcome.Orderly allowed middle) (k : α → Cursor → Outcome β) :
    (committing start middle outcome).andThen
        (fun value last => committing start last (k value last)) =
      committing start middle
        (outcome.andThen fun value last => committing middle last (k value last)) := by
  cases outcome with
  | success value last => exact (committing_committing first second (k value last)).symm
  | failure e => rfl
  | fault f => rfl
  | exhausted => rfl

variable {p : Parser α} {q : Parser β}

theorem succeed_bind (value : α) (f : α → Parser β) : bind (succeed value) f = f value := by
  funext c
  exact committing_self c (f value c)

theorem bind_succeed (p : Parser α) : bind p succeed = p := by
  funext c
  exact (p c).andThen_success

theorem bind_assoc {f : α → Parser β} (first : p.Orderly allowed)
    (second : ∀ value, (f value).Orderly allowed) (g : β → Parser γ) {c : Cursor}
    (inRange : c.InRange) :
    bind (bind p f) g c = bind p (fun value => bind (f value) g) c := by
  simp only [bind, Outcome.andThen_assoc]
  apply (first inRange).andThen_congr
  intro value middle reaches
  exact committing_andThen reaches (second value (reaches.inRange inRange)) g

/-- A sequence with one value made of both: the first part runs, then the second,
and a failure of the second is committed if the first has moved. -/
theorem map_both (p : Parser α) (q : Parser β) (f : α × β → γ) (c : Cursor) :
    map f (both p q) c =
      (p c).andThen fun first middle =>
        committing c middle ((q middle).map fun second => f (first, second)) := by
  simp only [map, both, Outcome.map_andThen, ← committing_map, Outcome.map_map]
  rfl

/-- Sequences are dependent sequences whose second part ignores the first value. -/
theorem map_both_eq_bind (p : Parser α) (q : Parser β) (f : α × β → γ) :
    map f (both p q) = bind p fun first => map (fun second => f (first, second)) q := by
  funext c
  exact map_both p q f c

theorem orElse_assoc (p q r : Parser α) : orElse (orElse p q) r = orElse p (orElse q r) := by
  funext c
  unfold orElse
  cases p c with
  | failure e => cases standing : e.retry <;> simp [Outcome.recover, standing]
  | success value next => rfl
  | fault f => rfl
  | exhausted => rfl

theorem fail_orElse (message : Bytes) (q : Parser α) : orElse (fail message) q = q :=
  rfl

end JsonFit.Parser
