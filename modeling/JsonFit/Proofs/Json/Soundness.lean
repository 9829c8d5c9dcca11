import JsonFit.Proofs.Json.Token

/-!
# Soundness of the JSON grammar

What a rule has taken when it succeeds is a derivation of its value.  A rule may
take white space on both sides as well: the tokens of containers do.  So the
statement for every rule is `SoundFor`, in which the text taken is an item with
white space around it.
-/

namespace JsonFit.Json

open Cursor (between)
open Grammar (eval)
open JsonFit.Parser (FurtherItems)
open Value (stringText)

variable {α β : Type} {Item : Bytes → α → Prop} {Item' : Bytes → β → Prop}

theorem Spaced.of_item {t : Bytes} {a : α} (item : Item t a) : Spaced Item t a :=
  ⟨[], t, [], blank_nil, item, blank_nil, by simp⟩

theorem Spaced.map {f : α → β} (further : ∀ t a, Item t a → Item' t (f a)) {s : Bytes} {a : α}
    (spaced : Spaced Item s a) : Spaced Item' s (f a) := by
  rcases spaced with ⟨w₁, t, w₂, blank₁, item, blank₂, rfl⟩
  exact ⟨w₁, t, w₂, blank₁, further t a item, blank₂, rfl⟩

theorem Spaced.before {w s : Bytes} {a : α} (blank : Blank w) (spaced : Spaced Item s a) :
    Spaced Item (w ++ s) a := by
  rcases spaced with ⟨w₁, t, w₂, blank₁, item, blank₂, rfl⟩
  exact ⟨w ++ w₁, t, w₂, blank.append blank₁, item, blank₂, by simp⟩

theorem Spaced.behind {w s : Bytes} {a : α} (spaced : Spaced Item s a) (blank : Blank w) :
    Spaced Item (s ++ w) a := by
  rcases spaced with ⟨w₁, t, w₂, blank₁, item, blank₂, rfl⟩
  exact ⟨w₁, t, w₂ ++ w, blank₁, item, blank₂.append blank, by simp⟩

/-- An item in front of a comma and of further items. -/
theorem Spaced.listed_cons {s w₁ w₂ rest : Bytes} {a : α} {as : List α}
    (item : Spaced Item s a) (blank₁ : Blank w₁) (blank₂ : Blank w₂)
    (others : Spaced (Listed Item) rest as) :
    Spaced (Listed Item) (s ++ w₁ ++ Ascii.comma :: (w₂ ++ rest)) (a :: as) := by
  rcases item with ⟨u₁, t, u₂, blankU₁, item, blankU₂, rfl⟩
  rcases others with ⟨v₁, list, v₂, blankV₁, listed, blankV₂, rfl⟩
  refine ⟨u₁, _, v₂, blankU₁,
    .cons item (blankU₂.append blank₁) (blank₂.append blankV₁) listed, blankV₂, ?_⟩
  simp

/-- Items with white space around them may stand between brackets. -/
theorem Spaced.bracketed {opening closing : UInt8} {s : Bytes} {as : List α}
    (listed : Spaced (Listed Item) s as) :
    Bracketed opening closing Item (opening :: (s ++ [closing])) as := by
  rcases listed with ⟨w₁, list, w₂, blank₁, listed, blank₂, rfl⟩
  have bracketed : Bracketed opening closing Item _ as := .items blank₁ listed blank₂
  simpa using bracketed

/-- Where the parser succeeds, it has taken an item with white space around it. -/
def SoundFor (Item : Bytes → α → Prop) (p : Parser α) : Prop :=
  ∀ ⦃before ahead a next⦄, p (between before ahead) = .success a next →
    ∃ s rest, Spaced Item s a ∧ ahead = s ++ rest ∧ next = between (before ++ s) rest

theorem SoundFor.map {p : Parser α} (sound : SoundFor Item p) {f : α → β}
    (further : ∀ t a, Item t a → Item' t (f a)) : SoundFor Item' (Parser.map f p) := by
  intro before ahead b next succeeded
  obtain ⟨a, taken, rfl⟩ := Parser.map_eq_success_iff.mp succeeded
  obtain ⟨s, rest, spaced, split, nextEq⟩ := sound taken
  exact ⟨s, rest, spaced.map further, split, nextEq⟩

theorem SoundFor.orElse {p q : Parser α} (first : SoundFor Item p) (second : SoundFor Item q) :
    SoundFor Item (Parser.orElse p q) := by
  intro before ahead a next succeeded
  rcases Parser.orElse_eq_success_iff.mp succeeded with taken | ⟨_, taken⟩
  · exact first taken
  · exact second taken

namespace Rules

variable {call : Unit → Parser Value} {budget : Nat}

/-- Further items of a list, behind a comma each, continue an item to a list. -/
theorem exists_listed_of_furtherItems {item : Rules α}
    (sound : SoundFor Item (eval call budget item)) {before ahead : Bytes} {values : List α}
    {last : Cursor} (items : FurtherItems (eval call budget item) (eval call budget comma)
      (between before ahead) values last) :
    ∃ s rest, ahead = s ++ rest ∧ last = between (before ++ s) rest ∧
      ∀ s₀ a, Spaced Item s₀ a → Spaced (Listed Item) (s₀ ++ s) (a :: values) := by
  generalize startEq : between before ahead = start at items
  induction items generalizing before ahead with
  | stop declines =>
      subst startEq
      refine ⟨[], ahead, rfl, by simp, ?_⟩
      intro s₀ a spaced
      rw [List.append_nil]
      rcases spaced with ⟨w₁, t, w₂, blank₁, item, blank₂, rfl⟩
      exact ⟨w₁, t, w₂, blank₁, .last item, blank₂, rfl⟩
  | @step _ middle next last _ value values delimited item others ih =>
      subst startEq
      obtain ⟨w₁, w₂, rest₁, blank₁, blank₂, rfl, rfl⟩ :=
        token_success_cases (by decide) (by decide) delimited
      obtain ⟨s₁, rest₂, spaced, rfl, rfl⟩ := sound item
      obtain ⟨s, rest, rfl, rfl, listed⟩ := ih rfl
      refine ⟨w₁ ++ Ascii.comma :: (w₂ ++ (s₁ ++ s)), rest, by simp, by simp, ?_⟩
      intro s₀ a spaced₀
      simpa using spaced₀.listed_cons blank₁ blank₂ (listed s₁ value spaced)

/-- A container takes items between brackets. -/
theorem bracketed_sound {opening closing : UInt8} (openAscii : opening < 0x80)
    (openNotSpace : isSpace opening = false) (closeAscii : closing < 0x80)
    (closeNotSpace : isSpace closing = false) {item : Rules α}
    (sound : SoundFor Item (eval call budget item)) :
    SoundFor (Bracketed opening closing Item) (eval call budget
      (.skip (.andThen (token opening) (.sepBy item comma)) (token closing))) := by
  intro before ahead as next succeeded
  obtain ⟨middle, _, inside, closed⟩ := Grammar.eval_skip_eq_success_iff.mp succeeded
  obtain ⟨_, middle', opened, list⟩ := Grammar.eval_andThen_eq_success_iff.mp inside
  obtain ⟨w₁, w₂, rest₁, blank₁, blank₂, rfl, rfl⟩ :=
    token_success_cases openAscii openNotSpace opened
  rcases Parser.sepBy_success_cases list with ⟨rfl, rfl⟩ | ⟨a, _, others, rfl, first, items⟩
  · obtain ⟨w₃, w₄, rest, blank₃, blank₄, rfl, rfl⟩ :=
      token_success_cases closeAscii closeNotSpace closed
    have bracketed : Bracketed opening closing Item (opening :: (w₂ ++ w₃ ++ [closing])) [] :=
      .empty (blank₂.append blank₃)
    exact ⟨w₁ ++ opening :: (w₂ ++ w₃ ++ [closing]) ++ w₄, rest,
      ((Spaced.of_item bracketed).before blank₁).behind blank₄, by simp, by simp⟩
  · obtain ⟨s₁, rest₂, spaced, rfl, rfl⟩ := sound first
    obtain ⟨s, rest₃, rfl, rfl, listed⟩ := exists_listed_of_furtherItems sound items
    obtain ⟨w₃, w₄, rest, blank₃, blank₄, rfl, rfl⟩ :=
      token_success_cases closeAscii closeNotSpace closed
    have bracketed : Bracketed opening closing Item
        (opening :: (w₂ ++ (s₁ ++ s) ++ w₃ ++ [closing])) (a :: others) :=
      (((listed s₁ a spaced).before blank₂).behind blank₃).bracketed
    exact ⟨w₁ ++ opening :: (w₂ ++ (s₁ ++ s) ++ w₃ ++ [closing]) ++ w₄, rest,
      ((Spaced.of_item bracketed).before blank₁).behind blank₄, by simp, by simp⟩

/-- A member takes a key, a colon and a value. -/
theorem member_sound (sound : SoundFor Derives (call ())) :
    SoundFor DerivedMember (eval call budget member) := by
  rintro before ahead ⟨key, v⟩ next succeeded
  obtain ⟨middle, keyed, valued⟩ := Parser.both_eq_success_iff.mp succeeded
  obtain ⟨middle', _, named, colonTaken⟩ := Grammar.eval_skip_eq_success_iff.mp keyed
  obtain ⟨rest₁, unquoted, rfl, rfl⟩ := quoted_success_cases named
  obtain ⟨w₁, w₂, rest₂, blank₁, blank₂, rfl, rfl⟩ :=
    token_success_cases (by decide) (by decide) colonTaken
  obtain ⟨_, rest, ⟨u₁, t, u₂, blankU₁, derives, blankU₂, rfl⟩, rfl, rfl⟩ := sound valued
  have memberText : DerivedMember _ _ :=
    MemberText.mk ⟨unquoted, rfl⟩ blank₁ (blank₂.append blankU₁) derives
  exact ⟨_, rest, (Spaced.of_item memberText).behind blankU₂, by simp, by simp⟩

theorem stringValue_sound : SoundFor Derives (eval call budget stringValue) := by
  intro before ahead v next succeeded
  obtain ⟨raw, taken, rfl⟩ := Parser.map_eq_success_iff.mp succeeded
  obtain ⟨rest, unquoted, rfl, rfl⟩ := quoted_success_cases taken
  exact ⟨stringText raw, rest, .of_item (.string unquoted), rfl, rfl⟩

theorem nullValue_sound : SoundFor Derives (eval call budget nullValue) := by
  intro before ahead v next succeeded
  obtain ⟨_, taken, rfl⟩ := Parser.map_eq_success_iff.mp succeeded
  obtain ⟨_, rest, rfl, rfl⟩ := Parser.literal_success_cases taken
  exact ⟨Value.nullText, rest, .of_item .null, rfl, rfl⟩

theorem boolValue_sound : SoundFor Derives (eval call budget boolValue) := by
  intro before ahead v next succeeded
  obtain ⟨_, taken, rfl⟩ := Parser.map_eq_success_iff.mp succeeded
  rcases Parser.orElse_eq_success_iff.mp taken with isTrue | ⟨_, isFalse⟩
  · obtain ⟨rfl, rest, rfl, rfl⟩ := Parser.literal_success_cases isTrue
    exact ⟨Value.boolText true, rest, .of_item .true, rfl, rfl⟩
  · obtain ⟨rfl, rest, rfl, rfl⟩ := Parser.literal_success_cases isFalse
    exact ⟨Value.boolText false, rest, .of_item .false, rfl, rfl⟩

theorem numberValue_sound : SoundFor Derives (eval call budget numberValue) := by
  intro before ahead v next succeeded
  obtain ⟨run, rest, x, some, characters, denotes, rfl, rfl, rfl⟩ :=
    numberValue_success_cases succeeded
  exact ⟨run, rest, .of_item (.number some characters denotes), rfl, rfl⟩

/-- The rule of values is sound if its calls are. -/
theorem value_sound (sound : SoundFor Derives (call ())) :
    SoundFor Derives (eval call budget value) := by
  have array : SoundFor Derives (eval call budget arrayValue) :=
    (bracketed_sound (by decide) (by decide) (by decide) (by decide) sound).map
      fun _ _ elements => .array elements
  have object : SoundFor Derives (eval call budget objectValue) :=
    (bracketed_sound (by decide) (by decide) (by decide) (by decide) (member_sound sound)).map
      fun _ _ members => .object members
  exact ((((array.orElse object).orElse stringValue_sound).orElse nullValue_sound).orElse
    boolValue_sound).orElse numberValue_sound

theorem callRule_sound (budget : Nat) :
    SoundFor Derives (Grammar.callRule (fun _ => value) budget ()) := by
  induction budget with
  | zero =>
      intro before ahead v next succeeded
      contradiction
  | succ budget ih => exact value_sound ih

/-- What is read as a whole text is a value with white space around it. -/
theorem spaced_of_document (sound : SoundFor Derives (call ())) {s : Bytes} {v : Value}
    {next : Cursor} (succeeded : eval call budget document (Cursor.ofBytes s) = .success v next) :
    Spaced Derives s v := by
  rw [← Cursor.between_nil] at succeeded
  obtain ⟨middle, _, valued, ended⟩ := Grammar.eval_skip_eq_success_iff.mp succeeded
  obtain ⟨_, _, spaces, taken⟩ := Grammar.eval_andThen_eq_success_iff.mp valued
  obtain ⟨w₁, rest₁, rfl, blank₁, clear₁⟩ := exists_blank s
  rw [many_space blank₁ clear₁] at spaces
  cases spaces
  obtain ⟨s₁, rest₂, spaced, rfl, rfl⟩ := sound taken
  obtain ⟨_, _, spaces, finished⟩ := Grammar.eval_andThen_eq_success_iff.mp ended
  obtain ⟨w₂, rest, rfl, blank₂, clear₂⟩ := exists_blank rest₂
  rw [many_space blank₂ clear₂] at spaces
  cases spaces
  rcases Parser.finish_cases _ rest with ⟨rfl, _⟩ | ⟨cause, failed⟩
  · simpa using (spaced.before blank₁).behind blank₂
  · rw [eval, failed] at finished
    contradiction

end Rules

/-- Whatever is read has a derivation. -/
theorem spaced_of_parse {s : Bytes} {v : Value} {next : Cursor}
    (succeeded : parse s = .success v next) : Spaced Derives s v :=
  Rules.spaced_of_document (Rules.callRule_sound _) succeeded

end JsonFit.Json
