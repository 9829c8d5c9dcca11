import JsonFit.Proofs.Json.Soundness

/-!
# Viable beginnings

A beginning of a text is viable if it can be completed to a text of the grammar.
Completions are put together by the derivations alone, so that nothing has to be
said about how a completed text is read.  Each lemma puts something that has been
passed in front of a viable part: white space, an item and a comma, a bracket, a
key and a colon.
-/

namespace JsonFit.Json

open Value (stringText)

variable {α β : Type} {Item : Bytes → α → Prop} {Item' : Bytes → β → Prop}

/-- The text can be completed to an item with white space around it. -/
def Viable (Item : Bytes → α → Prop) (u : Bytes) : Prop :=
  ∃ t a, Spaced Item (u ++ t) a

theorem Spaced.viable {s : Bytes} {a : α} (spaced : Spaced Item s a) : Viable Item s :=
  ⟨[], a, by simpa using spaced⟩

/-- What stands at the beginning of a viable text is viable. -/
theorem Viable.shorten {u v : Bytes} (viable : Viable Item v) (part : u <+: v) :
    Viable Item u := by
  obtain ⟨rest, rfl⟩ := part
  obtain ⟨t, a, spaced⟩ := viable
  exact ⟨rest ++ t, a, by simpa using spaced⟩

theorem Viable.map {f : α → β} (further : ∀ t a, Item t a → Item' t (f a)) {u : Bytes}
    (viable : Viable Item u) : Viable Item' u := by
  obtain ⟨t, a, spaced⟩ := viable
  exact ⟨t, f a, spaced.map further⟩

theorem Viable.before {w u : Bytes} (blank : Blank w) (viable : Viable Item u) :
    Viable Item (w ++ u) := by
  obtain ⟨t, a, spaced⟩ := viable
  exact ⟨t, a, by simpa using spaced.before blank⟩

/-- The last item of a list. -/
theorem Viable.listed {u : Bytes} (viable : Viable Item u) : Viable (Listed Item) u := by
  have last : ∀ t a, Item t a → Listed Item t [a] := fun _ _ item => .last item
  exact viable.map last

/-- An item and a comma in front of the rest of a list. -/
theorem Viable.listed_cons {s w₁ w₂ u : Bytes} {a : α} (item : Spaced Item s a)
    (blank₁ : Blank w₁) (blank₂ : Blank w₂) (viable : Viable (Listed Item) u) :
    Viable (Listed Item) (s ++ w₁ ++ Ascii.comma :: w₂ ++ u) := by
  obtain ⟨t, as, listed⟩ := viable
  have all := item.listed_cons blank₁ blank₂ listed
  exact ⟨t, a :: as, by simpa using all⟩

/-- A bracket in front of the rest of a list. -/
theorem Viable.bracketed {opening closing : UInt8} {w₁ w₂ u : Bytes} (blank₁ : Blank w₁)
    (blank₂ : Blank w₂) (viable : Viable (Listed Item) u) :
    Viable (Bracketed opening closing Item) (w₁ ++ opening :: w₂ ++ u) := by
  obtain ⟨t, as, listed⟩ := viable
  have bracketed : Bracketed opening closing Item _ as := (listed.before blank₂).bracketed
  have all := (Spaced.of_item bracketed).before blank₁
  exact ⟨t ++ [closing], as, by simpa using all⟩

/-- A bracket with nothing behind it but white space. -/
theorem viable_opening {opening closing : UInt8} {w₁ w₂ : Bytes} (blank₁ : Blank w₁)
    (blank₂ : Blank w₂) : Viable (Bracketed opening closing Item) (w₁ ++ opening :: w₂) := by
  have bracketed : Bracketed opening closing Item _ [] := .empty blank₂
  have all := (Spaced.of_item bracketed).before blank₁
  exact ⟨[closing], [], by simpa using all⟩

/-- A key and a colon in front of a value. -/
theorem Viable.memberText {key w₁ w₂ u : Bytes} (unquoted : Ascii.quotationMark ∉ key)
    (blank₁ : Blank w₁) (blank₂ : Blank w₂) (viable : Viable Derives u) :
    Viable DerivedMember (stringText key ++ w₁ ++ Ascii.colon :: w₂ ++ u) := by
  obtain ⟨t, v, w, t', w', blank, derives, blank', split⟩ := viable
  have member : DerivedMember _ _ :=
    MemberText.mk ⟨unquoted, rfl⟩ blank₁ (blank₂.append blank) derives
  have all := (Spaced.of_item member).behind blank'
  refine ⟨t, (key, v), ?_⟩
  rw [List.append_assoc, split]
  simpa using all

theorem viable_string {raw : Bytes} (unquoted : Ascii.quotationMark ∉ raw) :
    Viable Derives (stringText raw) :=
  (Spaced.of_item (.string unquoted)).viable

theorem viable_empty : Viable Derives [] :=
  (viable_string List.not_mem_nil).shorten ⟨_, rfl⟩

/-- A key without its colon. -/
theorem viable_key {key : Bytes} (unquoted : Ascii.quotationMark ∉ key) :
    Viable DerivedMember (stringText key) := by
  have member := viable_empty.memberText unquoted blank_nil blank_nil
  rw [List.append_assoc, List.append_assoc] at member
  exact member.shorten (List.prefix_append _ _)

end JsonFit.Json
