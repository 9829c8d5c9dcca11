import JsonFit.Proofs.Json.Quoting

/-!
# Texts that end inside an escape

Every text is made of whole pieces with nothing behind them but, at most, the
beginning of an escape.  The pieces are decoded one by one, whatever follows, and the
beginning of an escape cannot be decoded.  So a text is decoded up to any place where
the part in front can be decoded, and from there on as if nothing were in front; and
it can only fail at its end.

A `\u` takes four bytes with it, be they digits or not.  Therefore a backslash among
these is no beginning of an escape, and a text that can be decoded may have a prefix
that cannot.
-/

namespace JsonFit.Json.Escape

variable {s t rest decoded message : Bytes} {e : Truncation}

/-- The text is the beginning of an escape; the message says of which kind. -/
inductive Incomplete : Bytes → Bytes → Prop where
  /-- A backslash on its own. -/
  | escape : Incomplete [Ascii.backslash] (Bytes.ofString "incomplete escape sequence")
  /-- The mark of digits with fewer than four bytes behind it, whatever they are. -/
  | unicode {ds : Bytes} (short : ds.length ≤ 3) :
      Incomplete (Ascii.backslash :: Ascii.letterU :: ds)
        (Bytes.ofString "incomplete Unicode escape")

/-- A list of at most three bytes is one that does not begin with four. -/
theorem length_le_three_iff {ds : Bytes} :
    ds.length ≤ 3 ↔ ∀ a b c d rest, ds = a :: b :: c :: d :: rest → False := by
  match ds with
  | [] | [_] | [_, _] | [_, _, _] => simp
  | a :: b :: c :: d :: rest =>
      constructor
      · intro short
        simp only [List.length_cons] at short
        omega
      · intro few
        exact (few a b c d rest rfl).elim

theorem unquote_mark_short {ds : Bytes} (short : ds.length ≤ 3) :
    unquote (Ascii.backslash :: Ascii.letterU :: ds) = .error .unicode := by
  have noLetter : ofLetter? Ascii.letterU = none := by rfl
  rw [unquote.eq_def]
  simp only [noLetter, ne_eq, not_true_eq_false, if_false]
  split
  · exact (length_le_three_iff.mp short _ _ _ _ _ rfl).elim
  · rfl

theorem Incomplete.exists_error (incomplete : Incomplete t message) :
    ∃ e : Truncation, unquote t = .error e ∧ e.message = message := by
  cases incomplete with
  | escape => exact ⟨.escape, by simp [unquote], rfl⟩
  | unicode short => exact ⟨.unicode, unquote_mark_short short, rfl⟩

/-- The two messages are different. -/
theorem Truncation.message_inj {e e' : Truncation} (same : e.message = e'.message) : e = e' := by
  cases e <;> cases e'
  · rfl
  · exact absurd same (by decide)
  · exact absurd same (by decide)
  · rfl

/-- An unknown letter is decoded as the replacement character. -/
theorem unquotes_unknown {letter : UInt8} (unknown : ofLetter? letter = none)
    (notMark : letter ≠ Ascii.letterU) :
    Unquotes [Ascii.backslash, letter] (Utf8.encode Utf8.replacement) := by
  intro rest
  rw [List.cons_append, List.singleton_append, unquote.eq_def]
  simp [unknown, notMark]

/-- The text is made of whole pieces, and behind them nothing or the beginning of an
escape. -/
def IsPieced (s : Bytes) : Prop :=
  ∃ t decoded rest, s = t ++ rest ∧ Unquotes t decoded ∧
    (rest = [] ∨ ∃ message, Incomplete rest message)

theorem IsPieced.further {piece : Bytes} (whole : Unquotes piece decoded) (others : IsPieced s) :
    IsPieced (piece ++ s) := by
  obtain ⟨t, decoded', rest, rfl, pieces, ending⟩ := others
  exact ⟨piece ++ t, _, rest, (List.append_assoc ..).symm, whole.append pieces, ending⟩

theorem Incomplete.isPieced (incomplete : Incomplete s message) : IsPieced s :=
  ⟨[], [], s, rfl, unquotes_nil, .inr ⟨message, incomplete⟩⟩

theorem isPieced (s : Bytes) : IsPieced s := by
  induction s using unquote.induct with
  | case1 => exact ⟨[], [], [], rfl, unquotes_nil, .inl rfl⟩
  | case2 b rest plain ih => exact ih.further (unquotes_byte plain)
  | case3 b isBackslash =>
      obtain rfl := not_not.mp isBackslash
      exact Incomplete.escape.isPieced
  | case4 b isBackslash letter rest decoded known ih =>
      obtain rfl := not_not.mp isBackslash
      exact ih.further (unquotes_letter known)
  | case5 b isBackslash letter rest unknown notMark ih =>
      obtain rfl := not_not.mp isBackslash
      exact ih.further (unquotes_unknown unknown notMark)
  | case6 b isBackslash letter _ isMark x y z w rest ih =>
      obtain rfl := not_not.mp isBackslash
      obtain rfl := not_not.mp isMark
      exact ih.further (unquotes_digits x y z w)
  | case7 b isBackslash letter rest _ isMark few =>
      obtain rfl := not_not.mp isBackslash
      obtain rfl := not_not.mp isMark
      exact (Incomplete.unicode (length_le_three_iff.mpr few)).isPieced

/-- Whole pieces in front do not matter for what goes wrong. -/
theorem Unquotes.append_eq_error_iff (pieces : Unquotes t decoded) :
    unquote (t ++ rest) = .error e ↔ unquote rest = .error e := by
  rw [pieces]
  cases unquote rest <;> simp [Except.map]

/-- What can be decoded is made of whole pieces. -/
theorem unquotes_of_unquote_eq (unquoted : unquote s = .ok decoded) : Unquotes s decoded := by
  obtain ⟨t, decoded', rest, rfl, pieces, rfl | ⟨message, incomplete⟩⟩ := isPieced s
  · rw [List.append_nil] at unquoted ⊢
    obtain rfl := Except.ok.inj (pieces.unquote_eq.symm.trans unquoted)
    exact pieces
  · obtain ⟨e, failed, _⟩ := incomplete.exists_error
    have wholeFailed := pieces.append_eq_error_iff.mpr failed
    rw [unquoted] at wholeFailed
    cases wholeFailed

/-- What cannot be decoded has the beginning of an escape behind whole pieces. -/
theorem exists_incomplete (failed : unquote s = .error e) :
    ∃ t decoded rest, s = t ++ rest ∧ Unquotes t decoded ∧ Incomplete rest e.message := by
  obtain ⟨t, decoded, rest, rfl, pieces, rfl | ⟨message, incomplete⟩⟩ := isPieced s
  · rw [List.append_nil, pieces.unquote_eq] at failed
    cases failed
  · obtain ⟨e', restFailed, messageEq⟩ := incomplete.exists_error
    obtain rfl := Except.error.inj ((pieces.append_eq_error_iff.mpr restFailed).symm.trans failed)
    exact ⟨t, decoded, rest, rfl, pieces, messageEq ▸ incomplete⟩

/-- Behind a text that can be decoded, decoding goes on as at the start: the whole can
be decoded exactly if the rest can, the results stand one behind the other, and an
error is that of the rest.  A text cannot be decoded exactly if it is one that can with
the beginning of an escape behind it, and the error names the kind of escape. -/
theorem unquote_splits :
    (∀ a b decoded : Bytes, unquote a = .ok decoded →
      (∀ whole, unquote (a ++ b) = .ok whole ↔
        ∃ further, unquote b = .ok further ∧ whole = decoded ++ further) ∧
      ∀ e, unquote (a ++ b) = .error e ↔ unquote b = .error e) ∧
    ∀ (s : Bytes) (e : Truncation), unquote s = .error e ↔
      ∃ a decoded t, s = a ++ t ∧ unquote a = .ok decoded ∧ Incomplete t e.message := by
  constructor
  · intro a b decoded unquoted
    have pieces := unquotes_of_unquote_eq unquoted
    refine ⟨fun whole => ?_, fun e => pieces.append_eq_error_iff⟩
    rw [pieces]
    cases unquote b <;> simp [Except.map, eq_comm]
  · intro s e
    constructor
    · intro failed
      obtain ⟨a, decoded, t, split, pieces, incomplete⟩ := exists_incomplete failed
      exact ⟨a, decoded, t, split, pieces.unquote_eq, incomplete⟩
    · rintro ⟨a, decoded, t, rfl, unquoted, incomplete⟩
      obtain ⟨e', failed, messageEq⟩ := incomplete.exists_error
      obtain rfl := Truncation.message_inj messageEq
      exact (unquotes_of_unquote_eq unquoted).append_eq_error_iff.mpr failed

/-- A `\u` swallows a quotation mark with its backslash, and a second backslash; with
two digits behind the next `\u`, the text ends inside an escape. -/
theorem unquote_splits_swallowed :
    let a := Bytes.ofString "\\u\\\"\\q"
    let b := Bytes.ofString "\\u12"
    let replaced := Utf8.encode Utf8.replacement
    unquote a = .ok replaced ∧ unquote (a ++ a) = .ok (replaced ++ replaced) ∧
      unquote b = .error .unicode ∧ unquote (a ++ b) = .error .unicode := by
  intro a b replaced
  have swallowed : unquote a = .ok replaced := by rfl
  have failed : unquote b = .error .unicode :=
    (unquote_splits.2 b .unicode).mpr ⟨[], [], b, rfl, rfl, .unicode (by decide)⟩
  have twice := ((unquote_splits.1 a a replaced swallowed).1 _).mpr ⟨replaced, swallowed, rfl⟩
  exact ⟨swallowed, twice, failed, ((unquote_splits.1 a b replaced swallowed).2 _).mpr failed⟩

end JsonFit.Json.Escape
