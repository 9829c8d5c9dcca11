import JsonFit.Json.Escape
import JsonFit.Proofs.Text.Utf8

/-!
# Written strings

A quotation mark stays a quotation mark when a text is written as the inside of a
string: it gets a backslash in front.  No other character brings one in.
-/

namespace JsonFit.Json.Escape

open Utf8 (Symbol)

theorem letterOf?_eq_quotationMark_iff {point : Nat} :
    letterOf? point = some Ascii.quotationMark ↔ point = Ascii.quotationMark.toNat := by
  constructor
  · intro found
    unfold letterOf? at found
    split at found
    case h_6 => rfl
    all_goals contradiction
  · rintro rfl
    rfl

theorem hexDigit_ne_quotationMark {n : Nat} (small : n < 16) :
    Ascii.hexDigit n ≠ Ascii.quotationMark := by
  have table : ∀ n < 16, Ascii.hexDigit n ≠ Ascii.quotationMark := by decide
  exact table n small

theorem quotationMark_notMem_hex (width n : Nat) : Ascii.quotationMark ∉ Bytes.hex width n := by
  induction width generalizing n with
  | zero => exact List.not_mem_nil
  | succ width ih =>
      have last := hexDigit_ne_quotationMark (Nat.mod_lt n (by decide : 0 < 16))
      simp [Bytes.hex, ih, last.symm]

/-- Only the quotation mark is written with one. -/
theorem quotationMark_mem_quoteSymbol_iff {s : Symbol} :
    Ascii.quotationMark ∈ quoteSymbol s ↔ s.point = Ascii.quotationMark.toNat := by
  rw [← letterOf?_eq_quotationMark_iff, quoteSymbol]
  cases found : letterOf? s.point with
  | some letter =>
      have notBackslash : Ascii.quotationMark ≠ Ascii.backslash := by decide
      simp [notBackslash, eq_comm]
  | none =>
      have other : s.point ≠ Ascii.quotationMark.toNat := by
        rw [Ne, ← letterOf?_eq_quotationMark_iff, found]
        exact Option.some_ne_none _ ∘ Eq.symm
      dsimp only
      split
      · have notBackslash : Ascii.quotationMark ≠ Ascii.backslash := by decide
        have notLetter : Ascii.quotationMark ≠ Ascii.letterU := by decide
        simp [unicodeEscape, quotationMark_notMem_hex, notBackslash, notLetter]
      · simp [Utf8.mem_encode_iff (by decide : Ascii.quotationMark.toNat < 0x80), other]

/-- A text is written with a quotation mark exactly if it holds one. -/
theorem quotationMark_mem_quote_iff {text : Bytes} :
    Ascii.quotationMark ∈ quote text ↔ Ascii.quotationMark ∈ text := by
  rw [quote, List.mem_flatMap, Utf8.mem_iff_char_mem_symbols (by decide)]
  constructor
  · rintro ⟨symbol, inside, here⟩
    rw [quotationMark_mem_quoteSymbol_iff] at here
    cases symbol with
    | char point =>
        rw [← here]
        exact inside
    | stray b =>
        have notMark : Utf8.replacement ≠ Ascii.quotationMark.toNat := by decide
        exact absurd here notMark
  · intro inside
    exact ⟨_, inside, quotationMark_mem_quoteSymbol_iff.mpr rfl⟩

end JsonFit.Json.Escape
