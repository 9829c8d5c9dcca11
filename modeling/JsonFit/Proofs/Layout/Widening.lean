import JsonFit.Proofs.Layout.Anchored

/-!
# Wider layouts are flatter

An anchored document is laid out to two widths.  Every group that is flat in the
narrow layout is flat in the wide one, or inside a group that is, and the wide
text has no more line feeds.

The two layouts go through the document side by side.  Where a group begins,
both have used the same number of bytes of the line, so that the room that is
left differs by as much as the widths.  Behind a group that only the wide layout
has made flat this need not hold any more; but before the next group there is a
line break, and the indentation is the same in both.

Room is counted in words.  Nothing wraps around if the length of the narrow text
is a word.
-/

namespace JsonFit.Layout

/-- Is the group at this address flat?  An address leads from the outside to the
inside: it is the place of a group in its sequence, followed by the address of a
group in that one. -/
def Placed.flatAt : List Placed → List Nat → Bool
  | _, [] => false
  | ps, i :: inner =>
      match ps[i]? with
      | some (.flat _) => inner.isEmpty
      | some (.tall parts) => flatAt parts inner
      | _ => false

/-- Every group that is flat in the first layout is flat in the second, or inside
a group that is. -/
def AsFlat (ps qs : List Placed) : Prop :=
  ∀ address, Placed.flatAt ps address = true →
    ∃ outer, outer <+: address ∧ Placed.flatAt qs outer = true

/-- The second layout differs from the first only by groups that it makes flat,
and it has no more line feeds in them. -/
inductive Flatter : List Placed → List Placed → Prop where
  /-- Nothing is left. -/
  | nil : Flatter [] []
  /-- An element is placed in the same way. -/
  | same (p : Placed) {ps qs : List Placed} (others : Flatter ps qs) :
      Flatter (p :: ps) (p :: qs)
  /-- A group is tall in both layouts. -/
  | tall {parts parts' ps qs : List Placed} (inside : Flatter parts parts')
      (others : Flatter ps qs) : Flatter (.tall parts :: ps) (.tall parts' :: qs)
  /-- A group is tall in the first layout only. -/
  | flattened {parts : List Placed} {elems : List Elem} {ps qs : List Placed}
      (fewer : (Doc.flat elems).count Ascii.lineFeed ≤
        (Placed.writeAll parts).count Ascii.lineFeed)
      (others : Flatter ps qs) : Flatter (.tall parts :: ps) (.flat elems :: qs)

section AsFlat

variable {p q : Placed} {ps qs : List Placed}

@[simp]
theorem Placed.flatAt_cons_succ (i : Nat) (inner : List Nat) :
    flatAt (p :: ps) ((i + 1) :: inner) = flatAt ps (i :: inner) :=
  rfl

/-- The elements at the front may be compared by themselves. -/
theorem AsFlat.cons (here : ∀ inner, Placed.flatAt (p :: ps) (0 :: inner) = true →
      ∃ outer, outer <+: inner ∧ Placed.flatAt (q :: qs) (0 :: outer) = true)
    (others : AsFlat ps qs) : AsFlat (p :: ps) (q :: qs) := by
  intro address isFlat
  cases address with
  | nil => contradiction
  | cons i inner =>
      cases i with
      | zero =>
          obtain ⟨outer, isPrefix, isFlat'⟩ := here inner isFlat
          exact ⟨0 :: outer, (List.prefix_cons_inj 0).mpr isPrefix, isFlat'⟩
      | succ i =>
          obtain ⟨outer, isPrefix, isFlat'⟩ := others (i :: inner) isFlat
          cases outer with
          | nil => contradiction
          | cons j outer =>
              obtain ⟨rfl, further⟩ := List.cons_prefix_cons.mp isPrefix
              exact ⟨(j + 1) :: outer, (List.prefix_cons_inj (j + 1)).mpr further, isFlat'⟩

end AsFlat

namespace Flatter

variable {ps qs : List Placed}

theorem asFlat (flatter : Flatter ps qs) : AsFlat ps qs := by
  induction flatter with
  | nil =>
      intro address isFlat
      cases address <;> contradiction
  | same p others ih =>
      refine .cons (fun inner isFlat => ?_) ih
      exact ⟨inner, List.prefix_refl inner, isFlat⟩
  | tall inside others ihInside ih =>
      refine .cons (fun inner isFlat => ?_) ih
      exact ihInside inner isFlat
  | flattened fewer others ih =>
      refine .cons (fun inner isFlat => ?_) ih
      exact ⟨[], List.nil_prefix, rfl⟩

theorem count_le (flatter : Flatter ps qs) :
    (Placed.writeAll qs).count Ascii.lineFeed ≤ (Placed.writeAll ps).count Ascii.lineFeed := by
  induction flatter with
  | nil => exact Nat.le_refl _
  | same p others ih =>
      have here := p.writeOnto_eq
      simp only [Placed.writeAll, Placed.writeAllOnto] at ih ⊢
      rw [here, here (Placed.writeAllOnto _ []), List.count_append, List.count_append]
      exact Nat.add_le_add_left ih _
  | tall inside others ihInside ih =>
      simp only [Placed.writeAll_tall, List.count_append]
      exact Nat.add_le_add ihInside ih
  | flattened fewer others ih =>
      simp only [Placed.writeAll_tall, Placed.writeAll_flat, List.count_append]
      exact Nat.add_le_add fewer ih

end Flatter

/-! ## One layout -/

/-- Behind a balanced document, the indentation has changed by its own line
breaks, however its groups are laid out. -/
theorem indent_placeAll (width : Int) {d : List Elem} {room : Room}
    (balanced : ∀ parts ∈ Doc.groups d, (Doc.ownDeltas parts).sum = 0)
    (inRange : Word.InRange room.indent) :
    (placeAll width d room).2.indent = Word.wrap (room.indent + (Doc.ownDeltas d).sum) := by
  induction d using Doc.induction generalizing room with
  | nil => simp [Doc.ownDeltas, Word.wrap_of_inRange inRange]
  | literal s es ih => exact ih balanced inRange
  | text s es ih => exact ih balanced inRange
  | newline delta es ih =>
      have inRange' : Word.InRange (room.breakLine width delta).indent := Word.inRange_wrap _
      rw [placeAll_newline, ih balanced inRange', Room.indent_breakLine, Word.wrap_wrap_add,
        Doc.ownDeltas, List.sum_cons, Int.add_assoc]
  | group parts es inside others =>
      simp only [Doc.groups, Elem.groups, List.cons_append, List.forall_mem_cons,
        List.forall_mem_append] at balanced
      obtain ⟨here, within, behind⟩ := balanced
      by_cases fits : (Doc.flatWidth parts : Int) ≤ room.rest
      · rw [placeAll_group_of_le fits]
        exact others behind inRange
      · have unchanged : (placeAll width parts room).2.indent = room.indent := by
          rw [inside within inRange, here, Int.add_zero, Word.wrap_of_inRange inRange]
        have inRange' : Word.InRange (placeAll width parts room).2.indent := unchanged ▸ inRange
        rw [placeAll_group_of_lt (Int.not_le.mp fits), others behind inRange', unchanged]
        rfl

/-- Of every kind of bytes, a layout writes at least as many as the flat form
has; a line break may count for the space in its place. -/
theorem countP_flat_le (width : Int) {kind : UInt8 → Bool}
    (feeds : kind Ascii.space = true → kind Ascii.lineFeed = true) (d : List Elem) (room : Room) :
    (Doc.flat d).countP kind ≤ (Placed.writeAll (placeAll width d room).1).countP kind := by
  induction d using Doc.induction generalizing room with
  | nil => exact Nat.le_refl _
  | literal s es ih =>
      simp only [Doc.flat_literal, placeAll_literal, Placed.writeAll_text, List.countP_append]
      exact Nat.add_le_add_left (ih _) _
  | text s es ih =>
      simp only [Doc.flat_text, placeAll_text, Placed.writeAll_text, List.countP_append]
      exact Nat.add_le_add_left (ih _) _
  | newline delta es ih =>
      have others := ih (room.breakLine width delta)
      have here : (if kind Ascii.space = true then 1 else 0) ≤
          if kind Ascii.lineFeed = true then 1 else 0 := by
        by_cases spaced : kind Ascii.space = true
        · simp [spaced, feeds spaced]
        · simp [spaced]
      simp only [Doc.flat_newline, placeAll_newline, Placed.writeAll_line, List.countP_cons,
        List.countP_append]
      omega
  | group parts es inside others =>
      by_cases fits : (Doc.flatWidth parts : Int) ≤ room.rest
      · rw [placeAll_group_of_le fits, Placed.writeAll_flat, Doc.flat_group, List.countP_append,
          List.countP_append]
        exact Nat.add_le_add_left (others _) _
      · rw [placeAll_group_of_lt (Int.not_le.mp fits), Placed.writeAll_tall, Doc.flat_group,
          List.countP_append, List.countP_append]
        exact Nat.add_le_add (inside _) (others _)

/-- A flat form has no line feeds but those of its texts. -/
theorem count_flat_le (width : Int) (d : List Elem) (room : Room) :
    (Doc.flat d).count Ascii.lineFeed ≤
      (Placed.writeAll (placeAll width d room).1).count Ascii.lineFeed :=
  countP_flat_le width (fun _ => rfl) d room

/-- No layout is shorter than the flat form. -/
theorem flatWidth_le_length_render (width : Int) (d : Doc) :
    Doc.flatWidth d ≤ (render width d).length := by
  have allBytes : (Doc.flat d).countP (fun _ => true) ≤ (render width d).countP fun _ => true :=
    countP_flat_le width (fun _ => rfl) d (Room.fresh width)
  simpa only [List.countP_true, Doc.length_flat] using allBytes

/-! ## Two layouts side by side -/

/-- The room that two layouts have where they have used the same number of bytes
of the line, and where `length` more bytes will be written in the narrow one. -/
structure Apart (w₁ w₂ : Int) (narrow wide : Room) (length : Nat) : Prop where
  /-- The difference is that of the widths. -/
  difference : wide.rest = narrow.rest + (w₂ - w₁)
  /-- The room in the wide layout is a word. -/
  high : wide.rest ≤ Word.maximum
  /-- The room in the narrow layout stays a word. -/
  low : Word.minimum ≤ narrow.rest - length

section Widths

variable {w₁ w₂ : Int} {narrow wide : Room} {length : Nat}

theorem Apart.spend (narrower : w₁ ≤ w₂) {n : Nat}
    (apart : Apart w₁ w₂ narrow wide (n + length)) :
    Apart w₁ w₂ (narrow.spend n) (wide.spend n) length := by
  rcases apart with ⟨difference, high, low⟩
  have inRange {rest : Int} (between : narrow.rest ≤ rest ∧ rest ≤ wide.rest) :
      Word.wrap (rest - n) = rest - n := by
    apply Word.wrap_of_inRange
    simp only [Word.InRange, Word.minimum, Word.maximum] at high low ⊢
    omega
  have narrowEq : Word.wrap (narrow.rest - n) = narrow.rest - n := inRange (by omega)
  have wideEq : Word.wrap (wide.rest - n) = wide.rest - n := inRange (by omega)
  constructor
  · rw [Room.rest_spend, Room.rest_spend, narrowEq, wideEq]
    omega
  · rw [Room.rest_spend, wideEq]
    omega
  · rw [Room.rest_spend, narrowEq]
    omega

/-- On a new line of one indentation, all that counts is the width. -/
theorem apart_breakLine (nonneg : 0 ≤ w₁) (narrower : w₁ ≤ w₂) (isWord : w₂ ≤ Word.maximum)
    (sameIndent : wide.indent = narrow.indent) {delta : Int}
    (indented : 0 ≤ Word.wrap (narrow.indent + delta))
    (short : (Word.wrap (narrow.indent + delta)).toNat + length ≤ Word.maximum) :
    Apart w₁ w₂ (narrow.breakLine w₁ delta) (wide.breakLine w₂ delta) length := by
  have inRange {w : Int} (between : 0 ≤ w ∧ w ≤ w₂) :
      Word.wrap (w - Word.wrap (narrow.indent + delta)) =
        w - Word.wrap (narrow.indent + delta) := by
    apply Word.wrap_of_inRange
    simp only [Word.InRange, Word.minimum, Word.maximum] at isWord short ⊢
    omega
  have narrowEq := inRange (w := w₁) (by omega)
  have wideEq := inRange (w := w₂) (by omega)
  constructor
  · rw [Room.rest_breakLine, Room.rest_breakLine, sameIndent, narrowEq, wideEq]
    omega
  · rw [Room.rest_breakLine, sameIndent, wideEq]
    omega
  · rw [Room.rest_breakLine, narrowEq]
    simp only [Word.minimum, Word.maximum] at short ⊢
    omega

/-- The step of the comparison is one element; the invariant is that the
indentations are equal, and that the layouts are `Apart` where a group may
begin. -/
theorem flatter_placeAll (nonneg : 0 ≤ w₁) (narrower : w₁ ≤ w₂) (isWord : w₂ ≤ Word.maximum)
    {d : List Elem} {anchored : Bool} (settled : Doc.AnchoredFrom anchored narrow.indent d)
    (inRange : Word.InRange narrow.indent) (sameIndent : wide.indent = narrow.indent)
    (short : (Placed.writeAll (placeAll w₁ d narrow).1).length ≤ Word.maximum)
    (apart : anchored = true →
      Apart w₁ w₂ narrow wide (Placed.writeAll (placeAll w₁ d narrow).1).length) :
    Flatter (placeAll w₁ d narrow).1 (placeAll w₂ d wide).1 := by
  induction d using Doc.induction generalizing anchored narrow wide with
  | nil => exact .nil
  | literal s es ih =>
      simp only [placeAll_literal, Placed.writeAll_text, List.length_append] at short apart ⊢
      refine .same _ (ih (Doc.anchoredFrom_literal_iff.mp settled) inRange sameIndent ?_ ?_)
      · omega
      · exact fun known => (apart known).spend narrower
  | text s es ih =>
      simp only [placeAll_text, Placed.writeAll_text, List.length_append] at short apart ⊢
      refine .same _ (ih (Doc.anchoredFrom_text_iff.mp settled) inRange sameIndent ?_ ?_)
      · omega
      · exact fun known => (apart known).spend narrower
  | newline delta es ih =>
      obtain ⟨indented, further⟩ := Doc.anchoredFrom_newline_iff.mp settled
      have sameNext : (wide.breakLine w₂ delta).indent = (narrow.breakLine w₁ delta).indent := by
        rw [Room.indent_breakLine, Room.indent_breakLine, sameIndent]
      simp only [placeAll_newline, Placed.writeAll_line, List.length_cons, List.length_append,
        List.length_replicate, Room.indent_breakLine] at short ⊢
      rw [sameIndent]
      refine .same _ (ih further (Word.inRange_wrap _) sameNext ?_ fun _ => ?_)
      · omega
      · exact apart_breakLine nonneg narrower isWord sameIndent indented (by omega)
  | group parts es inside others =>
      obtain ⟨rfl, balanced, within, behind⟩ := (Doc.anchoredFrom_group_iff inRange).mp settled
      have moreRoom : narrow.rest ≤ wide.rest := by
        have difference := (apart rfl).difference
        omega
      have unchanged (w : Int) {room : Room} (same : room.indent = narrow.indent) :
          (placeAll w parts room).2.indent = narrow.indent := by
        rw [indent_placeAll w within.balanced (same ▸ inRange), balanced, Int.add_zero, same,
          Word.wrap_of_inRange inRange]
      have further {narrow' wide' : Room} (same : narrow'.indent = narrow.indent)
          (same' : wide'.indent = narrow.indent)
          (short' : (Placed.writeAll (placeAll w₁ es narrow').1).length ≤ Word.maximum) :
          Flatter (placeAll w₁ es narrow').1 (placeAll w₂ es wide').1 :=
        others (same ▸ behind) (same ▸ inRange) (same'.trans same.symm) short'
          fun known => absurd known Bool.false_ne_true
      by_cases fits : (Doc.flatWidth parts : Int) ≤ narrow.rest
      · rw [placeAll_group_of_le fits] at short ⊢
        rw [placeAll_group_of_le (Int.le_trans fits moreRoom)]
        simp only [Placed.writeAll_flat, List.length_append] at short
        exact .same _ (further rfl sameIndent (by omega))
      · rw [placeAll_group_of_lt (Int.not_le.mp fits)] at short ⊢
        simp only [Placed.writeAll_tall, List.length_append] at short
        by_cases fits' : (Doc.flatWidth parts : Int) ≤ wide.rest
        · rw [placeAll_group_of_le fits']
          exact .flattened (count_flat_le w₁ parts narrow)
            (further (unchanged w₁ rfl) sameIndent (by omega))
        · rw [placeAll_group_of_lt (Int.not_le.mp fits')]
          refine .tall (inside within inRange sameIndent (by omega) ?_)
            (further (unchanged w₁ rfl) (unchanged w₂ sameIndent) (by omega))
          exact fun known => absurd known Bool.false_ne_true

/-- An anchored document becomes flatter with the width. -/
theorem flatter_layout (nonneg : 0 ≤ w₁) (narrower : w₁ ≤ w₂) (isWord : w₂ ≤ Word.maximum)
    {d : Doc} (settled : Doc.Anchored d) (short : (render w₁ d).length ≤ Word.maximum) :
    Flatter (layout w₁ d) (layout w₂ d) := by
  have apart : Apart w₁ w₂ (Room.fresh w₁) (Room.fresh w₂) (render w₁ d).length := by
    constructor
    · simp only [Room.fresh]
      omega
    · exact isWord
    · simp only [Room.fresh, Word.minimum, Word.maximum] at short ⊢
      omega
  have start : Doc.AnchoredFrom true (Room.fresh w₁).indent d := settled
  have inRange : Word.InRange 0 := by decide
  exact flatter_placeAll nonneg narrower isWord start inRange rfl short fun _ => apart

end Widths

end JsonFit.Layout
