import JsonFit.Parser.Basic
import JsonFit.Proofs.Cursor.Split

/-!
# Atoms on a split text

What each atom does is decided by the bytes ahead alone.  It either takes a
piece off them, or fails at the cursor and leaves the choice open.  The two
cases are stated together for every atom, and the condition for success apart.
-/

namespace JsonFit.Parser

open Cursor (between)

variable (before : Bytes)

/-- A text just ahead is taken. -/
theorem literal_append (text rest : Bytes) (someAhead : text ++ rest ≠ []) :
    literal text (between before (text ++ rest)) =
      .success text (between (before ++ text) rest) := by
  have notAtEnd : (between before (text ++ rest)).atEnd = false := by
    simpa only [Cursor.atEnd_between, List.isEmpty_eq_false_iff] using someAhead
  simp [literal, notAtEnd, Outcome.checking]

theorem literal_cases (text ahead : Bytes) :
    (∃ rest, ahead = text ++ rest ∧
      literal text (between before ahead) = .success text (between (before ++ text) rest)) ∨
    ∃ cause, literal text (between before ahead) = failAt (between before ahead) cause := by
  by_cases atEnd : ahead = []
  · exact .inr ⟨.endOfInput, by simp [literal, atEnd]⟩
  · by_cases taken : ahead.take text.length = text
    · obtain ⟨rest, restEq⟩ := List.prefix_iff_eq_take.mpr taken.symm
      subst restEq
      exact .inl ⟨rest, rfl, literal_append before text rest atEnd⟩
    · refine .inr ⟨.unexpectedText text (ahead.take text.length), ?_⟩
      simp [literal, atEnd, taken, Outcome.checking]

theorem literal_eq_failAt {text ahead : Bytes} (absent : ¬ text <+: ahead) :
    ∃ cause, literal text (between before ahead) = failAt (between before ahead) cause := by
  rcases literal_cases before text ahead with ⟨rest, rfl, _⟩ | failed
  · exact absurd (List.prefix_append text rest) absent
  · exact failed

theorem literal_success_cases {before : Bytes} {text ahead value : Bytes} {next : Cursor}
    (succeeded : literal text (between before ahead) = .success value next) :
    value = text ∧ ∃ rest, ahead = text ++ rest ∧ next = between (before ++ text) rest := by
  rcases literal_cases before text ahead with ⟨rest, split, taken⟩ | ⟨cause, failed⟩
  · rw [succeeded] at taken
    cases taken
    exact ⟨rfl, rest, split, rfl⟩
  · rw [succeeded] at failed
    contradiction

/-- No encoding of a character is empty. -/
theorem encodeInt_ne_nil (point : Int) : Utf8.encodeInt point ≠ [] := by
  have encode_ne_nil (n : Nat) : Utf8.encode n ≠ [] :=
    List.ne_nil_of_length_pos (Utf8.Symbol.width_pos (.char n))
  cases point with
  | ofNat n => exact encode_ne_nil n
  | negSucc n => exact encode_ne_nil Utf8.replacement

/-- A character just ahead is taken. -/
theorem char_append (point : Int) (rest : Bytes) :
    char point (between before (Utf8.encodeInt point ++ rest)) =
      .success point (between (before ++ Utf8.encodeInt point) rest) := by
  have notAtEnd : (between before (Utf8.encodeInt point ++ rest)).atEnd = false := by
    simp [encodeInt_ne_nil]
  simp [char, notAtEnd, Outcome.checking]

theorem char_cases (point : Int) (ahead : Bytes) :
    (∃ rest, ahead = Utf8.encodeInt point ++ rest ∧
      char point (between before ahead) =
        .success point (between (before ++ Utf8.encodeInt point) rest)) ∨
    ∃ cause, char point (between before ahead) = failAt (between before ahead) cause := by
  by_cases atEnd : ahead = []
  · exact .inr ⟨.endOfInput, by simp [char, atEnd]⟩
  · by_cases taken : ahead.take (Utf8.encodeInt point).length = Utf8.encodeInt point
    · obtain ⟨rest, restEq⟩ := List.prefix_iff_eq_take.mpr taken.symm
      subst restEq
      exact .inl ⟨rest, rfl, char_append before point rest⟩
    · refine .inr ⟨.unexpectedChar point
        (Utf8.firstPoint (ahead.take (Utf8.encodeInt point).length)), ?_⟩
      simp [char, atEnd, taken, Outcome.checking]

/-- The bytes before the first delimiter ahead are taken. -/
theorem upTo_of_find? {delimiter ahead : Bytes} {count : Nat} (someAhead : ahead ≠ [])
    (found : Bytes.find? delimiter ahead = some count) :
    upTo delimiter (between before ahead) =
      .success (ahead.take count) (between (before ++ ahead.take count) (ahead.drop count)) := by
  have countLe : count ≤ ahead.length := Bytes.find?_le_length found
  have notAtEnd : (between before ahead).atEnd = false := by
    simpa only [Cursor.atEnd_between, List.isEmpty_eq_false_iff] using someAhead
  have forwardEq : (between before ahead).forward count =
      .ok (between (before ++ ahead.take count) (ahead.drop count)) := by
    simpa [List.length_take_of_le countLe] using
      Cursor.forward_between before (ahead.take count) (ahead.drop count)
  have sinceEq : (between (before ++ ahead.take count) (ahead.drop count)).since
      (between before ahead) = .ok (ahead.take count) := by
    simpa using Cursor.since_between before (ahead.take count) (ahead.drop count)
  simp [upTo, found, notAtEnd, forwardEq, sinceEq, Outcome.checking]

theorem upTo_cases (delimiter ahead : Bytes) :
    (∃ count, ahead ≠ [] ∧ Bytes.find? delimiter ahead = some count ∧
      upTo delimiter (between before ahead) =
        .success (ahead.take count)
          (between (before ++ ahead.take count) (ahead.drop count))) ∨
    ∃ cause, upTo delimiter (between before ahead) = failAt (between before ahead) cause := by
  by_cases atEnd : ahead = []
  · refine .inr ⟨.missingDelimiter delimiter, ?_⟩
    subst atEnd
    cases found : Bytes.find? delimiter [] <;> simp [upTo, found, Outcome.checking]
  · cases found : Bytes.find? delimiter ahead with
    | none => exact .inr ⟨.missingDelimiter delimiter, by simp [upTo, found, Outcome.checking]⟩
    | some count => exact .inl ⟨count, atEnd, rfl, upTo_of_find? before atEnd found⟩

/-- The first occurrence of a single byte. -/
theorem find?_singleton_eq_some_iff {d : UInt8} {text : Bytes} {count : Nat} :
    Bytes.find? [d] text = some count ↔
      ∃ passed rest, text = passed ++ d :: rest ∧ d ∉ passed ∧ passed.length = count := by
  induction text generalizing count with
  | nil => simp [Bytes.find?]
  | cons b text ih =>
      by_cases here : d = b
      · subst here
        simp only [Bytes.find?, List.isPrefixOf_cons_cons_self, List.isPrefixOf_nil_left, if_true,
          Option.some.injEq]
        constructor
        · rintro rfl
          exact ⟨[], text, rfl, by simp, rfl⟩
        · rintro ⟨passed, rest, split, absent, rfl⟩
          cases passed with
          | nil => rfl
          | cons b' passed =>
              simp only [List.cons_append, List.cons.injEq] at split
              simp [split.1] at absent
      · have notHere : [d].isPrefixOf (b :: text) = false := by simp [List.isPrefixOf, here]
        simp only [Bytes.find?, notHere, Bool.false_eq_true, if_false, Option.map_eq_some_iff, ih]
        constructor
        · rintro ⟨_, ⟨passed, rest, rfl, absent, rfl⟩, rfl⟩
          exact ⟨b :: passed, rest, rfl, by simp [here, absent], rfl⟩
        · rintro ⟨passed, rest, split, absent, rfl⟩
          cases passed with
          | nil =>
              simp only [List.nil_append, List.cons.injEq] at split
              exact absurd split.1.symm here
          | cons b' passed =>
              simp only [List.cons_append, List.cons.injEq] at split
              simp only [List.mem_cons, not_or] at absent
              exact ⟨passed.length, ⟨passed, rest, split.2, absent.2, rfl⟩, rfl⟩

/-- The bytes in front of a one-byte delimiter are taken. -/
theorem upTo_singleton (d : UInt8) (passed rest : Bytes) (absent : d ∉ passed) :
    upTo [d] (between before (passed ++ d :: rest)) =
      .success passed (between (before ++ passed) (d :: rest)) := by
  have found : Bytes.find? [d] (passed ++ d :: rest) = some passed.length :=
    find?_singleton_eq_some_iff.mpr ⟨passed, rest, rfl, absent, rfl⟩
  rw [upTo_of_find? before (by simp) found]
  simp

theorem upTo_singleton_cases (d : UInt8) (ahead : Bytes) :
    (∃ passed rest, ahead = passed ++ d :: rest ∧ d ∉ passed ∧
      upTo [d] (between before ahead) =
        .success passed (between (before ++ passed) (d :: rest))) ∨
    ∃ cause, upTo [d] (between before ahead) = failAt (between before ahead) cause := by
  rcases upTo_cases before [d] ahead with ⟨count, _, found, _⟩ | failed
  · obtain ⟨passed, rest, rfl, absent, _⟩ := find?_singleton_eq_some_iff.mp found
    exact .inl ⟨passed, rest, rfl, absent, upTo_singleton before d passed rest absent⟩
  · exact .inr failed

theorem finish_nil : finish (between before []) = .success () (between before []) := by
  simp [finish]

theorem finish_cases (ahead : Bytes) :
    (ahead = [] ∧ finish (between before ahead) = .success () (between before ahead)) ∨
    ∃ cause, finish (between before ahead) = failAt (between before ahead) cause := by
  cases ahead with
  | nil => exact .inl ⟨rfl, finish_nil before⟩
  | cons b rest =>
      refine .inr ⟨.trailingInput (Utf8.firstPoint ((b :: rest).take 4)), ?_⟩
      have peekEq : (between before (b :: rest)).peek 4 = .ok ((b :: rest).take 4) :=
        Cursor.peek_between before (b :: rest) 4
      simp [finish, peekEq, Outcome.checking]

end JsonFit.Parser
