import JsonFit.Json.Value
import JsonFit.Proofs.Json.Escape

/-!
# Strings in a text

A text with strings in it, and between the strings nothing that looks like one.
There are two ways to tell where a string ends: at the next quotation mark, or at
the next one that is not escaped, which is the way of the standard.  If a text can
be taken apart in both ways, then both find the same strings.

For suppose they differ.  Where they differ first, the standard goes on over a
quotation mark that ends the string for the other.  From there on what is inside of
a string for the one is outside for the other; and outside there are no
backslashes, so the two cannot get in step again, and the standard has a string
open at the end.
-/

namespace JsonFit.Json

open Value (stringText)

/-- The bytes that may stand behind a backslash for a character of their own. -/
def escapeLetters : Bytes :=
  [Ascii.quotationMark, Ascii.backslash, Ascii.slash, Ascii.letterB, Ascii.letterF,
    Ascii.letterN, Ascii.letterR, Ascii.letterT]

/-- The inside of a string by the standard: encoded characters but controls, the
quotation mark and the backslash; escapes of one letter; and escapes of four
hexadecimal digits. -/
inductive StringBody : Bytes → Prop where
  /-- Nothing. -/
  | nil : StringBody []
  /-- A character that stands for itself. -/
  | char {point : Nat} {rest : Bytes} (scalar : Utf8.isScalar point = true)
      (notControl : Ascii.space.toNat ≤ point) (notMark : point ≠ Ascii.quotationMark.toNat)
      (notBackslash : point ≠ Ascii.backslash.toNat) (others : StringBody rest) :
      StringBody (Utf8.encode point ++ rest)
  /-- An escape of one letter. -/
  | letter {b : UInt8} {rest : Bytes} (known : b ∈ escapeLetters) (others : StringBody rest) :
      StringBody (Ascii.backslash :: b :: rest)
  /-- An escape of four digits. -/
  | digits {ds rest : Bytes} (four : ds.length = 4)
      (hexadecimal : ∀ d ∈ ds, (Ascii.hexValue? d).isSome = true) (others : StringBody rest) :
      StringBody (Ascii.backslash :: Ascii.letterU :: (ds ++ rest))

theorem space_le_of_hexValue? {d : UInt8} (isDigit : (Ascii.hexValue? d).isSome = true) :
    Ascii.space ≤ d := by
  have small : Ascii.space.toNat = 32 := rfl
  simp only [Ascii.hexValue?, UInt8.le_iff_toNat_le, UInt8.reduceToNat] at isDigit ⊢
  split at isDigit
  · omega
  split at isDigit
  · omega
  split at isDigit
  · omega
  · cases isDigit

/-- No control stands inside of a string. -/
theorem StringBody.space_le {raw : Bytes} (body : StringBody raw) : ∀ b ∈ raw, Ascii.space ≤ b := by
  induction body with
  | nil => exact List.forall_mem_nil _
  | @char point _ scalar notControl notMark notBackslash others ih =>
      refine List.forall_mem_append.mpr ⟨?_, ih⟩
      intro b inside
      apply UInt8.not_lt.mp
      intro below
      have small : b.toNat < Ascii.space.toNat := UInt8.lt_iff_toNat_lt.mp below
      have pointEq := (Utf8.mem_encode_iff (Nat.lt_trans small (by decide))).mp inside
      omega
  | @letter b rest known others ih =>
      have all : escapeLetters.all (Ascii.space ≤ ·) = true := by rfl
      have above : Ascii.space ≤ b := of_decide_eq_true (List.all_eq_true.mp all b known)
      exact List.forall_mem_cons.mpr ⟨by decide, List.forall_mem_cons.mpr ⟨above, ih⟩⟩
  | @digits ds rest four hexadecimal others ih =>
      have above : ∀ d ∈ ds, Ascii.space ≤ d := fun d inside =>
        space_le_of_hexValue? (hexadecimal d inside)
      have behind := List.forall_mem_append.mpr ⟨above, ih⟩
      exact List.forall_mem_cons.mpr ⟨by decide, List.forall_mem_cons.mpr ⟨by decide, behind⟩⟩

/-- Only one place in a text is in front of its first byte of a kind. -/
theorem append_cons_inj_of_notMem {b : UInt8} {x x' y y' : Bytes} (notIn : b ∉ x)
    (notIn' : b ∉ x') (same : x ++ b :: y = x' ++ b :: y') : x = x' ∧ y = y' := by
  induction x generalizing x' with
  | nil =>
      cases x' with
      | nil => exact ⟨rfl, (List.cons.inj same).2⟩
      | cons b' x' =>
          obtain ⟨rfl, _⟩ := List.cons.inj same
          exact absurd List.mem_cons_self notIn'
  | cons a x ih =>
      cases x' with
      | nil =>
          obtain ⟨rfl, _⟩ := List.cons.inj same
          exact absurd List.mem_cons_self notIn
      | cons a' x' =>
          obtain ⟨rfl, others⟩ := List.cons.inj same
          obtain ⟨rfl, restEq⟩ := ih (fun inside => notIn (List.mem_cons_of_mem a inside))
            (fun inside => notIn' (List.mem_cons_of_mem a inside)) others
          exact ⟨rfl, restEq⟩

/-- A beginning without a byte is passed before the byte. -/
theorem exists_of_append_eq {b : UInt8} {front rest x y : Bytes} (notIn : b ∉ front)
    (split : front ++ rest = x ++ b :: y) : ∃ x', x = front ++ x' ∧ rest = x' ++ b :: y := by
  rcases List.append_eq_append_iff.mp split with ⟨x', rfl, restEq⟩ | ⟨front', rfl, restEq⟩
  · exact ⟨x', rfl, restEq⟩
  · cases front' with
    | nil => exact ⟨[], by simp, restEq.symm⟩
    | cons b' front' =>
        obtain ⟨rfl, _⟩ := List.cons.inj restEq
        exact absurd (by simp) notIn

/-- The first quotation mark inside of a string is escaped, and what follows it may
be the inside of a string as well. -/
theorem StringBody.split {x y : Bytes} (body : StringBody (x ++ Ascii.quotationMark :: y))
    (noMark : Ascii.quotationMark ∉ x) :
    (∃ x', x = x' ++ [Ascii.backslash]) ∧ StringBody y := by
  generalize textEq : x ++ Ascii.quotationMark :: y = text at body
  -- a part without quotation marks in front of the others changes nothing
  have onward {front rest x : Bytes} (frontNoMark : Ascii.quotationMark ∉ front)
      (noMark : Ascii.quotationMark ∉ x) (same : x ++ Ascii.quotationMark :: y = front ++ rest)
      (others : ∀ {x' : Bytes}, Ascii.quotationMark ∉ x' → x' ++ Ascii.quotationMark :: y = rest →
        (∃ x'', x' = x'' ++ [Ascii.backslash]) ∧ StringBody y) :
      (∃ x', x = x' ++ [Ascii.backslash]) ∧ StringBody y := by
    obtain ⟨x', rfl, restEq⟩ := exists_of_append_eq frontNoMark same.symm
    obtain ⟨⟨x'', rfl⟩, behind⟩ :=
      others (fun inside => noMark (List.mem_append_right front inside)) restEq.symm
    exact ⟨⟨front ++ x'', (List.append_assoc ..).symm⟩, behind⟩
  induction body generalizing x with
  | nil => cases x <;> cases textEq
  | @char point rest scalar notControl notMark notBackslash others ih =>
      have frontNoMark : Ascii.quotationMark ∉ Utf8.encode point := by
        rwa [Utf8.mem_encode_iff (by decide)]
      exact onward frontNoMark noMark textEq ih
  | @letter b rest known others ih =>
      have notBackslash : Ascii.quotationMark ≠ Ascii.backslash := by decide
      by_cases isMark : b = Ascii.quotationMark
      · subst isMark
        have same : x ++ Ascii.quotationMark :: y =
            [Ascii.backslash] ++ Ascii.quotationMark :: rest := textEq
        obtain ⟨rfl, rfl⟩ := append_cons_inj_of_notMem noMark (by simpa using notBackslash) same
        exact ⟨⟨[], rfl⟩, others⟩
      · have frontNoMark : Ascii.quotationMark ∉ [Ascii.backslash, b] := by
          simpa [notBackslash] using Ne.symm isMark
        exact onward frontNoMark noMark textEq ih
  | @digits ds rest four hexadecimal others ih =>
      have frontNoMark : Ascii.quotationMark ∉ Ascii.backslash :: Ascii.letterU :: ds := by
        intro inside
        rcases List.mem_cons.mp inside with here | inside
        · cases here
        rcases List.mem_cons.mp inside with here | inside
        · cases here
        · cases hexadecimal _ inside
      exact onward frontNoMark noMark textEq ih

/-- A text without quotation marks and backslashes. -/
def IsGap (t : Bytes) : Prop :=
  ∀ b ∈ t, b ≠ Ascii.quotationMark ∧ b ≠ Ascii.backslash

instance (t : Bytes) : Decidable (IsGap t) :=
  List.decidableBAll _ t

namespace IsGap

variable {t u : Bytes}

theorem append (first : IsGap t) (second : IsGap u) : IsGap (t ++ u) :=
  List.forall_mem_append.mpr ⟨first, second⟩

theorem noMark (gap : IsGap t) : Ascii.quotationMark ∉ t :=
  fun inside => (gap _ inside).1 rfl

theorem noBackslash (gap : IsGap t) : Ascii.backslash ∉ t :=
  fun inside => (gap _ inside).2 rfl

end IsGap

/-- The text holds these strings in order, with insides of a kind, and gaps between
them. -/
inductive Strung (Body : Bytes → Prop) : Bytes → List Bytes → Prop where
  /-- No strings. -/
  | last {gap : Bytes} (isGap : IsGap gap) : Strung Body gap []
  /-- A string in front of others. -/
  | cons {gap raw rest : Bytes} {raws : List Bytes} (isGap : IsGap gap) (body : Body raw)
      (others : Strung Body rest raws) : Strung Body (gap ++ (stringText raw ++ rest)) (raw :: raws)

namespace Strung

variable {Body : Bytes → Prop} {t u : Bytes} {raws raws' : List Bytes}

theorem forall_body (strung : Strung Body t raws) : ∀ raw ∈ raws, Body raw := by
  induction strung with
  | last => exact List.forall_mem_nil _
  | cons _ body _ ih => exact List.forall_mem_cons.mpr ⟨body, ih⟩

theorem of_string {raw : Bytes} (body : Body raw) : Strung Body (stringText raw) [raw] := by
  have strung := cons (List.forall_mem_nil _) body (last (List.forall_mem_nil _))
  simpa using strung

theorem before {gap : Bytes} (isGap : IsGap gap) (strung : Strung Body t raws) :
    Strung Body (gap ++ t) raws := by
  cases strung with
  | last isGap' => exact .last (isGap.append isGap')
  | cons isGap' body others =>
      rw [← List.append_assoc]
      exact .cons (isGap.append isGap') body others

theorem append (first : Strung Body t raws) (second : Strung Body u raws') :
    Strung Body (t ++ u) (raws ++ raws') := by
  induction first with
  | last isGap => exact second.before isGap
  | cons isGap body _ ih =>
      rw [List.append_assoc, List.append_assoc]
      exact .cons isGap body ih

theorem behind {gap : Bytes} (strung : Strung Body t raws) (isGap : IsGap gap) :
    Strung Body (t ++ gap) raws := by
  simpa using strung.append (.last isGap)

end Strung

section Readings

variable {t : Bytes} {raws raws' : List Bytes}

/-- The text in front of its first string and behind the mark that opens it. -/
theorem cons_text_eq (gap raw rest : Bytes) : gap ++ (stringText raw ++ rest) =
    gap ++ Ascii.quotationMark :: (raw ++ Ascii.quotationMark :: rest) := by
  simp [stringText]

/-- Out of step, with a string open for the standard where the other is outside of
strings, the two do not come to an end together. -/
theorem Strung.not_shifted (strung : Strung (Ascii.quotationMark ∉ ·) t raws) {inside rest : Bytes}
    (split : t = inside ++ Ascii.quotationMark :: rest) (body : StringBody inside)
    (standard : Strung StringBody rest raws') : False := by
  induction strung generalizing inside rest raws' with
  | last isGap =>
      rw [split] at isGap
      exact isGap.noMark (by simp)
  | @cons gap raw rest₀ raws isGap noMark others ih =>
      rw [cons_text_eq] at split
      by_cases marked : Ascii.quotationMark ∈ inside
      · obtain ⟨x, y, rfl, first⟩ := List.eq_append_cons_of_mem marked
        obtain ⟨⟨x', rfl⟩, _⟩ := body.split first
        rw [List.append_assoc, List.cons_append] at split
        obtain ⟨rfl, _⟩ := append_cons_inj_of_notMem isGap.noMark first split
        exact isGap.noBackslash (by simp)
      · obtain ⟨rfl, rfl⟩ := append_cons_inj_of_notMem isGap.noMark marked split
        generalize restEq : raw ++ Ascii.quotationMark :: rest₀ = rest at standard
        cases standard with
        | last isGap' =>
            subst restEq
            exact isGap'.noMark (by simp)
        | cons isGap' body' others' =>
            rw [cons_text_eq] at restEq
            obtain ⟨_, restEq⟩ := append_cons_inj_of_notMem noMark isGap'.noMark restEq
            exact ih restEq body' others'

/-- A text with strings in both ways has the same strings in both. -/
theorem Strung.unique (strung : Strung (Ascii.quotationMark ∉ ·) t raws)
    (standard : Strung StringBody t raws') : raws = raws' := by
  induction strung generalizing raws' with
  | @last gap isGap =>
      cases standard with
      | last => rfl
      | cons => exact absurd (by simp [stringText]) isGap.noMark
  | @cons gap raw rest raws isGap noMark others ih =>
      generalize textEq : gap ++ (stringText raw ++ rest) = t at standard
      cases standard with
      | last isGap' =>
          subst textEq
          exact absurd (by simp [stringText]) isGap'.noMark
      | @cons gap' raw' rest' raws' isGap' body others' =>
          rw [cons_text_eq, cons_text_eq] at textEq
          obtain ⟨_, textEq⟩ := append_cons_inj_of_notMem isGap.noMark isGap'.noMark textEq
          by_cases marked : Ascii.quotationMark ∈ raw'
          · obtain ⟨x, y, rfl, first⟩ := List.eq_append_cons_of_mem marked
            rw [List.append_assoc, List.cons_append] at textEq
            obtain ⟨_, restEq⟩ := append_cons_inj_of_notMem noMark first textEq
            exact (others.not_shifted restEq (body.split first).2 others').elim
          · obtain ⟨rfl, rfl⟩ := append_cons_inj_of_notMem noMark marked textEq
            rw [ih others']

end Readings

end JsonFit.Json
