import JsonFit.Json.Path

/-!
# Paths in two parts

A path is gone step by step, so its second part starts at the value that the first
part reaches, and the first error ends it.  Together with an error the root is given
back: the root of the whole path, and not the value where the second part started.

An index that counts from the end of an array stands for one that counts from the
start.  There is no other way for an index to select an element.
-/

namespace JsonFit.Json.Value

variable {ε : Type} {root v : Value} {e : PathError ε}

theorem walk_cons_of_ok {s : Step ε} {next : Value} (stepped : v.step s = .ok next)
    (p : List (Step ε)) : v.walk (s :: p) = next.walk p := by
  rw [walk, stepped]

theorem walk_cons_of_error {s : Step ε} (failed : v.step s = .error e) (p : List (Step ε)) :
    v.walk (s :: p) = .error e := by
  rw [walk, failed]

/-- The second part of a path goes on from where the first part has led to. -/
theorem walk_append (v : Value) (p q : List (Step ε)) :
    v.walk (p ++ q) = v.walk p >>= fun u => u.walk q := by
  induction p generalizing v with
  | nil => rfl
  | cons s p ih =>
      cases stepped : v.step s with
      | ok next =>
          rw [List.cons_append, walk_cons_of_ok stepped, walk_cons_of_ok stepped]
          exact ih next
      | error e =>
          rw [List.cons_append, walk_cons_of_error stepped, walk_cons_of_error stepped]
          rfl

variable {p q : List (Step ε)}

theorem atPath_eq_value_iff : root.atPath p = (v, none) ↔ root.walk p = .ok v := by
  rw [atPath]
  cases root.walk p <;> simp

/-- Together with an error, it is the root that is given back. -/
theorem atPath_eq_error_iff :
    root.atPath p = (v, some e) ↔ v = root ∧ root.walk p = .error e := by
  rw [atPath]
  cases root.walk p <;> simp [eq_comm]

/-- The position that an index from the start selects. -/
theorem position?_of_nonneg {size : Nat} {i : Int} (nonneg : 0 ≤ i) (less : i < size) :
    position? size i = some i.toNat := by
  rw [position?, if_neg (Int.not_lt.mpr nonneg)]
  exact if_pos ⟨nonneg, less⟩

/-- An index from the end stands for one from the start. -/
theorem position?_of_neg {size : Nat} {i : Int} (low : -(size : Int) ≤ i) (negative : i < 0) :
    position? size i = some (i + size).toNat := by
  rw [position?, if_pos negative]
  apply if_pos
  omega

theorem position?_of_outside {size : Nat} {i : Int} (outside : i < -(size : Int) ∨ size ≤ i) :
    position? size i = none := by
  rw [position?]
  apply if_neg
  split <;> omega

variable {elements : List Value} {i : Int}

theorem step_index_of_position? {n : Nat} (selects : position? elements.length i = some n)
    (inside : n < elements.length) :
    (array elements).step (.index i : Step ε) = .ok elements[n] := by
  rw [step, elementAt?, selects, Option.bind_some, List.getElem?_eq_getElem inside]

theorem step_index_of_outside (outside : i < -(elements.length : Int) ∨ elements.length ≤ i) :
    (array elements).step (.index i : Step ε) =
      .error (.indexOutOfBounds i elements.length) := by
  rw [step, elementAt?, position?_of_outside outside, Option.bind_none]

/-- If the first part of a path fails, the whole path fails with the same error; if it
reaches a value, the whole path leads where the second part leads from there, and fails
where that fails.  Every error comes with the root of the whole path.  In an array, an
index from the end selects the same element as the index that is larger by the size,
on every path, and an index outside of both ranges is an error. -/
theorem atPath_composes :
    (∀ (root : Value) (p q : List (Step ε)),
      (∀ v e, root.atPath p = (v, some e) →
        v = root ∧ root.atPath (p ++ q) = (root, some e)) ∧
      ∀ u, root.atPath p = (u, none) →
        (∀ w, root.atPath (p ++ q) = (w, none) ↔ u.atPath q = (w, none)) ∧
        ∀ v e, u.atPath q = (v, some e) → root.atPath (p ++ q) = (root, some e)) ∧
    ∀ (elements : List Value) (i : Int) (q : List (Step ε)),
      (-(elements.length : Int) ≤ i → i < 0 →
        ∃ element, elements[(i + elements.length).toNat]? = some element ∧
          (array elements).atPath [(.index i : Step ε)] = (element, none) ∧
          (array elements).atPath (.index i :: q) =
            (array elements).atPath (.index (i + elements.length) :: q)) ∧
      (i < -(elements.length : Int) ∨ elements.length ≤ i →
        (array elements).atPath (.index i :: q) =
          (array elements, some (.indexOutOfBounds i elements.length))) := by
  constructor
  · intro root p q
    constructor
    · intro v e failed
      rcases atPath_eq_error_iff.mp failed with ⟨rfl, stopped⟩
      constructor
      · rfl
      · apply atPath_eq_error_iff.mpr
        rw [walk_append, stopped]
        exact ⟨rfl, rfl⟩
    · intro u reached
      have whole : root.walk (p ++ q) = u.walk q := by
        rw [walk_append, atPath_eq_value_iff.mp reached]
        rfl
      constructor
      · intro w
        rw [atPath_eq_value_iff, whole, atPath_eq_value_iff]
      · intro v e failed
        apply atPath_eq_error_iff.mpr
        exact ⟨rfl, whole.trans (atPath_eq_error_iff.mp failed).2⟩
  · intro elements i q
    constructor
    · intro low negative
      have inside : (i + elements.length).toNat < elements.length := by omega
      have fromEnd : (array elements).step (.index i : Step ε) = _ :=
        step_index_of_position? (position?_of_neg low negative) inside
      have fromStart : (array elements).step (.index (i + elements.length) : Step ε) = _ :=
        step_index_of_position? (position?_of_nonneg (by omega) (by omega)) inside
      refine ⟨_, List.getElem?_eq_getElem inside, ?_, ?_⟩
      · exact atPath_eq_value_iff.mpr (walk_cons_of_ok fromEnd [])
      · rw [atPath, atPath, walk_cons_of_ok fromEnd, walk_cons_of_ok fromStart]
    · intro outside
      apply atPath_eq_error_iff.mpr
      exact ⟨rfl, walk_cons_of_error (step_index_of_outside outside) q⟩

/-- Behind a key, the second part of a path applies a function and then leaves an array
of one element; it is the object that is given back.  The last of two elements. -/
theorem atPath_composes_function :
    let elements : List Value := [.null, .bool true]
    let root : Value := .object [([97], .array elements)]
    let p : List (Step Unit) := [.key [97]]
    let q : List (Step Unit) := [.apply fun v => .ok (.array [v]), .index 1]
    root.atPath p = (.array elements, none) ∧
      (array elements).atPath q = (.array elements, some (.indexOutOfBounds 1 1)) ∧
      root.atPath (p ++ q) = (root, some (.indexOutOfBounds 1 1)) ∧
      -(elements.length : Int) ≤ -1 ∧ (-1 : Int) < 0 ∧
      ∃ element, elements[1]? = some element ∧
        (array elements).atPath [(.index (-1) : Step Unit)] = (element, none) := by
  intro elements root p q
  have whole := @atPath_composes Unit
  have reached : root.atPath p = (.array elements, none) := rfl
  have failed : (array elements).atPath q = (.array elements, some (.indexOutOfBounds 1 1)) := rfl
  have givenBack := ((whole.1 root p q).2 _ reached).2 _ _ failed
  rcases (whole.2 elements (-1) []).1 (by decide) (by decide) with ⟨element, found, selected, _⟩
  exact ⟨reached, failed, givenBack, by decide, by decide, element, found, selected⟩

end JsonFit.Json.Value
