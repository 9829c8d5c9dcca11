import JsonFit.Capture
import JsonFit.Proofs.Grammar.Progress
import JsonFit.Proofs.Parser.Repetition

/-!
# Grammars that keep all they match

The value of a parser is made of texts, views and characters, put together by pairs,
options and lists.  Read from left to right these leaves are a text, `Textual.text`, and if
no part of a grammar drops or makes up a value, then this is the input that was passed.

What backtracking gives up leaves no trace: neither a failed alternative, nor an optional
part that fails, nor the last turn of a repetition, which fails or is read without moving.
All of these go on from the cursor before them, and contribute no leaf.
-/

namespace JsonFit

open Cursor (between)

/-- Types of values that are made of pieces of text. -/
class Textual (α : Type) where
  /-- The text of all leaves of a value, in order. -/
  text : α → Bytes

namespace Textual

variable {α β : Type} [Textual α] [Textual β]

instance : Textual Bytes where
  text piece := piece

instance : Textual Int where
  text := Utf8.encodeInt

instance : Textual Unit where
  text _ := []

instance : Textual (α × β) where
  text parts := text parts.1 ++ text parts.2

instance : Textual (Option α) where
  text
    | none => []
    | some value => text value

instance : Textual (List α) where
  text values := values.flatMap text

instance : Textual Capture where
  text := Capture.flatten

end Textual

open Textual (text)

namespace Parser

variable {α β : Type} [Textual α] [Textual β] {allowed : Fault → Prop}

/-- Where the parser succeeds, it has passed just the text of its value. -/
def Retains (p : Parser α) : Prop :=
  ∀ ⦃before ahead value next⦄, p (between before ahead) = .success value next →
    ∃ rest, ahead = text value ++ rest ∧ next = between (before ++ text value) rest

theorem literal_retains (piece : Bytes) : Retains (literal piece) := by
  intro before ahead value next taken
  obtain ⟨rfl, split⟩ := literal_success_cases taken
  exact split

theorem char_retains (point : Int) : Retains (char point) := by
  intro before ahead value next taken
  rcases char_cases before point ahead with ⟨rest, split, taken'⟩ | ⟨cause, failed⟩
  · rw [taken] at taken'
    cases taken'
    exact ⟨rest, split, rfl⟩
  · rw [taken] at failed
    contradiction

theorem upTo_retains (delimiter : Bytes) : Retains (upTo delimiter) := by
  intro before ahead value next taken
  rcases upTo_cases before delimiter ahead with ⟨count, _, _, taken'⟩ | ⟨cause, failed⟩
  · rw [taken] at taken'
    cases taken'
    exact ⟨ahead.drop count, (List.take_append_drop count ahead).symm, rfl⟩
  · rw [taken] at failed
    contradiction

theorem finish_retains : Retains finish := by
  intro before ahead value next taken
  rcases finish_cases before ahead with ⟨_, taken'⟩ | ⟨cause, failed⟩
  · rw [taken] at taken'
    cases taken'
    exact ⟨ahead, rfl, by simp [text]⟩
  · rw [taken] at failed
    contradiction

namespace Retains

variable {p q : Parser α} {r : Parser β}

/-- The value may be replaced by another one with the same text. -/
theorem map (retains : Retains p) {f : α → β} (same : ∀ value, text (f value) = text value) :
    Retains (Parser.map f p) := by
  intro before ahead value next taken
  obtain ⟨inner, taken', rfl⟩ := map_eq_success_iff.mp taken
  rw [same]
  exact retains taken'

theorem both (first : Retains p) (second : Retains r) : Retains (Parser.both p r) := by
  rintro before ahead ⟨value, value'⟩ next taken
  obtain ⟨middle, taken, taken'⟩ := both_eq_success_iff.mp taken
  obtain ⟨rest, rfl, rfl⟩ := first taken
  obtain ⟨rest', rfl, rfl⟩ := second taken'
  exact ⟨rest', by simp [text], by simp [text]⟩

theorem orElse (first : Retains p) (second : Retains q) : Retains (Parser.orElse p q) := by
  intro before ahead value next taken
  rcases orElse_eq_success_iff.mp taken with taken | ⟨_, taken⟩
  · exact first taken
  · exact second taken

theorem attempt (retains : Retains p) : Retains (Parser.attempt p) :=
  fun _ _ _ _ taken => retains (attempt_eq_success_iff.mp taken)

theorem optional (retains : Retains p) : Retains (Parser.optional p) := by
  intro before ahead value next taken
  rw [Parser.optional] at taken
  cases inner : p (between before ahead) with
  | success value' next' =>
      rw [inner] at taken
      cases taken
      exact retains inner
  | failure e =>
      rw [inner] at taken
      cases taken
      exact ⟨ahead, rfl, by simp [text]⟩
  | fault f =>
      rw [inner] at taken
      contradiction
  | exhausted =>
      rw [inner] at taken
      contradiction

/-- Rounds pass the texts of their values. -/
theorem rounds (retains : Retains p) {c last : Cursor} {values : List α}
    (rounds : Rounds (Advances p) c values last) {before ahead : Bytes}
    (start : c = between before ahead) :
    ∃ rest, ahead = text values ++ rest ∧ last = between (before ++ text values) rest := by
  induction rounds generalizing before ahead with
  | nil c => exact ⟨ahead, rfl, by simpa [text] using start⟩
  | cons here others ih =>
      subst start
      obtain ⟨rest, rfl, rfl⟩ := retains here.1
      obtain ⟨rest', rfl, rfl⟩ := ih rfl
      exact ⟨rest', by simp [text], by simp [text]⟩

/-- The last turn of a repetition, which does not count, has passed nothing. -/
theorem many (retains : Retains p) (orderly : p.Orderly allowed) : Retains (Parser.many p) := by
  intro before ahead values last taken
  obtain ⟨rounds, _⟩ :=
    (many_eq_success_iff orderly (Cursor.inRange_between before ahead)).mp taken
  exact retains.rounds rounds rfl

end Retains

end Parser

namespace Grammar

variable {Rule : Type} {Result : Rule → Type} [∀ r, Textual (Result r)] {α : Type} [Textual α]

/-- Grammars that are made of texts, characters, views and the end of the input by
sequences that keep both values, choices, attempts, optional parts and repetitions.  Rules
may be called, and a value may be given another form with the same text. -/
inductive Lossless : {α : Type} → [Textual α] → Grammar Result α → Prop where
  | literal (piece : Bytes) : Lossless (literal piece)
  | char (point : Int) : Lossless (char point)
  | upTo (delimiter : Bytes) : Lossless (upTo delimiter)
  | finish : Lossless finish
  | fail {α : Type} [Textual α] (message : Bytes) : Lossless (fail message : Grammar Result α)
  | abort {α : Type} [Textual α] (fault : Fault) : Lossless (abort fault : Grammar Result α)
  | rule (r : Rule) : Lossless (rule r)
  | map {α β : Type} [Textual α] [Textual β] {f : α → β} {p : Grammar Result α}
      (same : ∀ value, text (f value) = text value) (part : Lossless p) : Lossless (map f p)
  | both {α β : Type} [Textual α] [Textual β] {p : Grammar Result α} {q : Grammar Result β}
      (first : Lossless p) (second : Lossless q) : Lossless (both p q)
  | orElse {α : Type} [Textual α] {p q : Grammar Result α} (first : Lossless p)
      (second : Lossless q) : Lossless (orElse p q)
  | attempt {α : Type} [Textual α] {p : Grammar Result α} (part : Lossless p) :
      Lossless (attempt p)
  | optional {α : Type} [Textual α] {p : Grammar Result α} (part : Lossless p) :
      Lossless (optional p)
  | many {α : Type} [Textual α] {p : Grammar Result α} (part : Lossless p) : Lossless (many p)

theorem eval_retains {call : (r : Rule) → Parser (Result r)}
    (callOrderly : ∀ r, (call r).Orderly fun _ => True) (callRetains : ∀ r, (call r).Retains)
    (budget : Nat) {p : Grammar Result α} (lossless : Lossless p) :
    (eval call budget p).Retains := by
  have orderly {γ : Type} (q : Grammar Result γ) : (eval call budget q).Orderly fun _ => True :=
    eval_orderly callOrderly budget q fun _ _ => trivial
  induction lossless with
  | literal piece => exact Parser.literal_retains piece
  | char point => exact Parser.char_retains point
  | upTo delimiter => exact Parser.upTo_retains delimiter
  | finish => exact Parser.finish_retains
  | fail message => exact fun _ _ _ _ taken => nomatch taken
  | abort fault => exact fun _ _ _ _ taken => nomatch taken
  | rule r => exact callRetains r
  | map same _ ih => exact ih.map same
  | both _ _ first second => exact first.both second
  | orElse _ _ first second => exact first.orElse second
  | attempt _ ih => exact ih.attempt
  | optional _ ih => exact ih.optional
  | many _ ih => exact ih.many (orderly _)

/-- A choice between any number of such alternatives. -/
theorem lossless_firstOf {ps : List (Grammar Result α)} (all : ∀ p ∈ ps, Lossless p) :
    Lossless (firstOf ps) :=
  firstOf_of_forall (.abort _) (fun _ => .attempt) (fun _ _ => .orElse) all

variable {rules : (r : Rule) → Grammar Result (Result r)}

theorem callRule_retains (lossless : ∀ r, Lossless (rules r)) (budget : Nat) (r : Rule) :
    (callRule rules budget r).Retains := by
  induction budget generalizing r with
  | zero => exact fun _ _ _ _ taken => nomatch taken
  | succ budget ih =>
      exact eval_retains (callRule_orderly_any rules budget) ih budget (lossless r)

/-- A grammar that drops and makes up nothing, like all rules that it may call, succeeds
with a value whose leaves are the input between the two cursors. -/
theorem run_success_since (rulesLossless : ∀ r, Lossless (rules r)) (budget : Nat)
    {p : Grammar Result α} (lossless : Lossless p) {c : Cursor} (inRange : c.InRange) {value : α}
    {next : Cursor} (taken : run rules budget p c = .success value next) :
    c.Reaches next ∧ next.since c = .ok (text value) := by
  have retains : (run rules budget p).Retains :=
    eval_retains (callRule_orderly_any rules budget) (callRule_retains rulesLossless budget)
      budget lossless
  obtain ⟨before, ahead, rfl⟩ := inRange.exists_between
  obtain ⟨rest, rfl, rfl⟩ := retains taken
  exact ⟨Cursor.reaches_between before _ rest, Cursor.since_between before _ rest⟩

/-- The letter `a` in parentheses, any number deep. -/
def parenthesized : Grammar (fun _ : Unit => Capture) Capture :=
  firstOf
    [map (fun parts : Capture × Capture × Capture => .list [parts.1, parts.2.1, parts.2.2])
        (both (map .char (char 40)) (both (rule ()) (map .char (char 41)))),
      map .text (literal (Bytes.ofString "a"))]

theorem lossless_parenthesized : Lossless parenthesized := by
  have inParentheses (parts : Capture × Capture × Capture) :
      text (Capture.list [parts.1, parts.2.1, parts.2.2]) = text parts := by
    simp [text, Capture.flatten, Capture.flattenAll]
  have character (point : Int) :
      Lossless (map Capture.char (char point) : Grammar (fun _ : Unit => Capture) Capture) :=
    .map (fun _ => rfl) (.char point)
  apply lossless_firstOf
  rw [List.forall_mem_cons, List.forall_mem_singleton]
  constructor
  · exact .map inParentheses (.both (character 40) (.both (.rule ()) (character 41)))
  · exact .map (fun _ => rfl) (.literal _)

/-- In `.(a)a(a` from offset 1 a repetition passes `(a)a`.  The last parenthesis has been
read in vain, and is in no leaf. -/
theorem run_success_since_parentheses :
    let c : Cursor := ⟨(Bytes.ofString ".(a)a(a").toArray, 1⟩
    let value : List Capture :=
      [.list [.char 40, .text (Bytes.ofString "a"), .char 41], .text (Bytes.ofString "a")]
    (∀ _ : Unit, Lossless parenthesized) ∧
      Lossless (many (rule ()) : Grammar (fun _ : Unit => Capture) (List Capture)) ∧ c.InRange ∧
      run (fun _ => parenthesized) 3 (many (rule ())) c = .success value ⟨c.input, 5⟩ ∧
      (⟨c.input, 5⟩ : Cursor).since c = .ok (Bytes.ofString "(a)a") := by
  intro c value
  have inRange : c.InRange := by decide
  have lossless : Lossless (many (rule ()) : Grammar (fun _ : Unit => Capture) (List Capture)) :=
    .many (.rule ())
  have taken : run (fun _ => parenthesized) 3 (many (rule ())) c = .success value ⟨c.input, 5⟩ :=
    rfl
  exact ⟨fun _ => lossless_parenthesized, lossless, inRange, taken,
    (run_success_since (fun _ => lossless_parenthesized) 3 lossless inRange taken).2⟩

end Grammar

end JsonFit
