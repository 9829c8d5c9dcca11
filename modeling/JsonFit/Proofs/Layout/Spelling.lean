import JsonFit.Layout.Placed

/-!
# What a layout writes

A text spells a document if it has all of its texts in order, and between them
one space, or a line feed and spaces, for each line break.  Both the flat form
and the text fitted to any width are spellings: a layout chooses how line breaks
are written, and nothing else.

Texts are written in front of others, so a piece of text is what a writer puts in
front of any tail.
-/

namespace JsonFit.Layout

/-- The writer puts the text `t` in front of every tail. -/
def Prepends (write : Bytes → Bytes) (t : Bytes) : Prop :=
  ∀ tail, write tail = t ++ tail

/-- What a line break may be written as. -/
def IsBreak (w : Bytes) : Prop :=
  w = [Ascii.space] ∨ ∃ n, w = Ascii.lineFeed :: List.replicate n Ascii.space

mutual

/-- The text spells the element. -/
def Elem.Spells : Elem → Bytes → Prop
  | .literal s, t => t = s
  | .text s, t => t = s
  | .newline _, t => IsBreak t
  | .group parts, t => Doc.Spells parts t

/-- The text spells the document. -/
def Doc.Spells : List Elem → Bytes → Prop
  | [], t => t = []
  | e :: es, t => ∃ t₁ t₂, e.Spells t₁ ∧ Doc.Spells es t₂ ∧ t = t₁ ++ t₂

end

theorem Doc.spells_append {d d' : List Elem} {t : Bytes} :
    Doc.Spells (d ++ d') t ↔ ∃ t₁ t₂, Doc.Spells d t₁ ∧ Doc.Spells d' t₂ ∧ t = t₁ ++ t₂ := by
  induction d generalizing t with
  | nil =>
      constructor
      · intro spelled
        exact ⟨[], t, rfl, spelled, rfl⟩
      · rintro ⟨_, t₂, rfl, spelled, rfl⟩
        exact spelled
  | cons e es ih =>
      constructor
      · rintro ⟨t₁, t₂, here, spelled, rfl⟩
        obtain ⟨u₁, u₂, others, behind, rfl⟩ := ih.mp spelled
        exact ⟨t₁ ++ u₁, u₂, ⟨t₁, u₁, here, others, rfl⟩, behind, by simp⟩
      · rintro ⟨_, u₂, ⟨t₁, u₁, here, others, rfl⟩, behind, rfl⟩
        exact ⟨t₁, u₁ ++ u₂, here, ih.mpr ⟨u₁, u₂, others, behind, rfl⟩, by simp⟩

/-- One element is spelled by what spells it as a document. -/
@[simp]
theorem Doc.spells_singleton {e : Elem} {t : Bytes} : Doc.Spells [e] t ↔ e.Spells t := by
  constructor
  · rintro ⟨t₁, _, here, rfl, rfl⟩
    simpa using here
  · intro here
    exact ⟨t, [], here, rfl, by simp⟩

theorem Prepends.comp {write rest : Bytes → Bytes} {t u : Bytes} (here : Prepends write t)
    (others : Prepends rest u) : Prepends (write ∘ rest) (t ++ u) := by
  intro tail
  rw [Function.comp_apply, others, here, List.append_assoc]

mutual

theorem Elem.exists_spells_flatOnto (e : Elem) : ∃ t, e.Spells t ∧ Prepends e.flatOnto t := by
  cases e with
  | literal s => exact ⟨s, rfl, fun _ => rfl⟩
  | text s => exact ⟨s, rfl, fun _ => rfl⟩
  | newline delta => exact ⟨[Ascii.space], .inl rfl, fun _ => rfl⟩
  | group parts => exact Doc.exists_spells_flatOnto parts

/-- The flat form of a document spells it. -/
theorem Doc.exists_spells_flatOnto (d : List Elem) :
    ∃ t, Doc.Spells d t ∧ Prepends (Doc.flatOnto d) t := by
  cases d with
  | nil => exact ⟨[], rfl, fun _ => rfl⟩
  | cons e es =>
      obtain ⟨t, here, written⟩ := e.exists_spells_flatOnto
      obtain ⟨u, others, writtenOthers⟩ := Doc.exists_spells_flatOnto es
      have both : Prepends (e.flatOnto ∘ Doc.flatOnto es) (t ++ u) := written.comp writtenOthers
      exact ⟨t ++ u, ⟨t, u, here, others, rfl⟩, both⟩

end

section Width

variable (width : Int)

mutual

theorem Elem.exists_spells_place (e : Elem) (room : Room) :
    ∃ t, e.Spells t ∧ Prepends (place width e room).1.writeOnto t := by
  cases e with
  | literal s => exact ⟨s, rfl, fun _ => rfl⟩
  | text s => exact ⟨s, rfl, fun _ => rfl⟩
  | newline delta => exact ⟨_, .inr ⟨_, rfl⟩, fun _ => rfl⟩
  | group parts =>
      rw [place]
      split
      · exact Doc.exists_spells_flatOnto parts
      · exact Doc.exists_spells_placeAll parts room

/-- What is written for a document spells it, whatever room there is. -/
theorem Doc.exists_spells_placeAll (d : List Elem) (room : Room) :
    ∃ t, Doc.Spells d t ∧ Prepends (Placed.writeAllOnto (placeAll width d room).1) t := by
  cases d with
  | nil => exact ⟨[], rfl, fun _ => rfl⟩
  | cons e es =>
      obtain ⟨t, here, written⟩ := Elem.exists_spells_place e room
      obtain ⟨u, others, writtenOthers⟩ :=
        Doc.exists_spells_placeAll es (place width e room).2
      have both : Prepends ((place width e room).1.writeOnto ∘
          Placed.writeAllOnto (placeAll width es (place width e room).2).1) (t ++ u) :=
        written.comp writtenOthers
      exact ⟨t ++ u, ⟨t, u, here, others, rfl⟩, both⟩

end

/-- A document fitted to a width is spelled by its text. -/
theorem spells_render (d : Doc) : Doc.Spells d (render width d) := by
  obtain ⟨t, spelled, written⟩ := Doc.exists_spells_placeAll width d (Room.fresh width)
  have renderEq : render width d = t := (written []).trans (List.append_nil t)
  exact renderEq ▸ spelled

end Width

end JsonFit.Layout
