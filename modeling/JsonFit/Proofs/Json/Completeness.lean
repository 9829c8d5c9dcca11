import JsonFit.Proofs.Json.Token

/-!
# Completeness of the JSON grammar

Every rule takes the derivations of its values.  Two things have to be told
apart from the text itself.  A number goes on as far as it can, so what follows a
value must not begin with a number character; and a container takes the white
space behind it, while other values leave it, so how much of it is gone behind a
value stays open.  `CompleteFor` says both.

Its bound on the length of the text is the budget for nested values: a container
spends one unit of budget and at least one byte on its bracket.
-/

namespace JsonFit.Json

open Cursor (between)
open Grammar (eval)
open JsonFit.Parser (Clear FurtherItems)
open Rules (numberBytes)
open Value (stringText)

variable {α : Type} {Item : Bytes → α → Prop}

/-- Every item begins with a byte that is not white space. -/
def Visible (Item : Bytes → α → Prop) : Prop :=
  ∀ ⦃t a⦄, Item t a → ∃ b rest, t = b :: rest ∧ isSpace b = false

theorem Visible.clear (visible : Visible Item) {t : Bytes} {a : α} (item : Item t a)
    (r : Bytes) : Clear isSpace (t ++ r) := by
  rcases visible item with ⟨b, rest, rfl, notSpace⟩
  simpa using notSpace

theorem Visible.length_pos (visible : Visible Item) {t : Bytes} {a : α} (item : Item t a) :
    0 < t.length := by
  rcases visible item with ⟨b, rest, rfl, _⟩
  simp

/-- The bytes of numbers are not those with which other values begin. -/
private theorem numberBytes_apart : ∀ b ∈ numberBytes, isSpace b = false ∧
    b ≠ Ascii.openBracket ∧ b ≠ Ascii.openBrace ∧ b ≠ Ascii.quotationMark ∧
    b ≠ Ascii.letterN ∧ b ≠ Ascii.letterT ∧ b ≠ Ascii.letterF := by
  decide +kernel

/-- White space does not go on with a number. -/
theorem Blank.clear_number {w rest : Bytes} (blank : Blank w)
    (clear : Clear numberBytes.contains rest) : Clear numberBytes.contains (w ++ rest) := by
  cases w with
  | nil => exact clear
  | cons b w =>
      have spaces : ∀ b, b = Ascii.space ∨ b = Ascii.tab ∨ b = Ascii.lineFeed ∨
          b = Ascii.carriageReturn → numberBytes.contains b = false := by
        rintro b (rfl | rfl | rfl | rfl) <;> decide
      simpa using spaces b (blank b List.mem_cons_self)

theorem visible_derives : Visible Derives := by
  intro t v derives
  cases derives with
  | array elements => cases elements <;> exact ⟨_, _, rfl, by decide⟩
  | object members => cases members <;> exact ⟨_, _, rfl, by decide⟩
  | string unquoted => exact ⟨_, _, rfl, by decide⟩
  | null => exact ⟨_, _, rfl, by decide⟩
  | true => exact ⟨_, _, rfl, by decide⟩
  | false => exact ⟨_, _, rfl, by decide⟩
  | number some characters denotes =>
      obtain ⟨b, rest, rfl⟩ := List.exists_cons_of_ne_nil some
      exact ⟨b, rest, rfl, (numberBytes_apart b (characters b List.mem_cons_self)).1⟩

theorem visible_memberText {κ : Type} {Names : Bytes → κ → Prop} :
    Visible (MemberText Names Item) := by
  rintro t m ⟨⟩
  exact ⟨_, _, rfl, by decide⟩

theorem visible_listed (visible : Visible Item) : Visible (Listed Item) := by
  intro t as listed
  cases listed with
  | last item => exact visible item
  | cons item _ _ _ =>
      rcases visible item with ⟨b, rest, rfl, notSpace⟩
      exact ⟨b, _, rfl, notSpace⟩

/-- A list has no more items than bytes. -/
theorem Listed.length_le (visible : Visible Item) {body : Bytes} {as : List α}
    (listed : Listed Item body as) : as.length ≤ body.length := by
  induction listed with
  | last item => exact visible.length_pos item
  | cons item _ _ _ ih =>
      simp only [List.length_append, List.length_cons]
      omega

theorem Bracketed.exists_cons {opening closing : UInt8} {t : Bytes} {as : List α}
    (bracketed : Bracketed opening closing Item t as) : ∃ rest, t = opening :: rest := by
  cases bracketed <;> exact ⟨_, rfl⟩

/-! ## Complete parsers -/

/-- The parser takes every item that is shorter than the bound, and perhaps some
of the white space behind it, if no number character follows. -/
def CompleteFor (Item : Bytes → α → Prop) (bound : Nat) (p : Parser α) : Prop :=
  ∀ ⦃t a⦄, Item t a → t.length < bound → ∀ ⦃r⦄, Clear numberBytes.contains r →
    ∃ w rest, Blank w ∧ r = w ++ rest ∧
      ∀ before, p (between before (t ++ r)) = .success a (between (before ++ (t ++ w)) rest)

/-- A parser that takes exactly an item leaves the white space behind it. -/
theorem exists_taken_of_exact {p : Parser α} {t r : Bytes} {a : α}
    (taken : ∀ before, p (between before (t ++ r)) = .success a (between (before ++ t) r)) :
    ∃ w rest, Blank w ∧ r = w ++ rest ∧
      ∀ before, p (between before (t ++ r)) = .success a (between (before ++ (t ++ w)) rest) := by
  refine ⟨[], r, blank_nil, rfl, ?_⟩
  rw [List.append_nil]
  exact taken

/-- A closing bracket or brace: it ends a list, and no number goes on with it. -/
structure Closes (b : UInt8) : Prop where
  ascii : b < 0x80
  notSpace : isSpace b = false
  notComma : b ≠ Ascii.comma
  notNumber : numberBytes.contains b = false

namespace Rules

variable {call : Unit → Parser Value} {budget : Nat}

/-- The items of a list are read one after the other, up to the closing byte. -/
theorem exists_furtherItems {item : Rules α} {bound : Nat}
    (complete : CompleteFor Item bound (eval call budget item)) (visible : Visible Item)
    {body : Bytes} {as : List α} (listed : Listed Item body as) (short : body.length < bound)
    {w : Bytes} {closing : UInt8} (blank : Blank w) (closes : Closes closing) (r : Bytes) :
    ∃ u u', Blank u ∧ Blank u' ∧ w = u ++ u' ∧
      ∀ before, ∃ a others next, as = a :: others ∧
        eval call budget item (between before (body ++ (w ++ closing :: r))) = .success a next ∧
        FurtherItems (eval call budget item) (eval call budget comma) next others
          (between (before ++ (body ++ u)) (u' ++ closing :: r)) := by
  induction listed with
  | last item =>
      have clear := blank.clear_number ((Parser.clear_cons _ closing r).mpr closes.notNumber)
      obtain ⟨u, rest, blankU, split, taken⟩ := complete item short clear
      obtain ⟨u', rfl, rfl⟩ := blankU.exists_of_append_eq closes.notSpace split.symm
      have blankU' : Blank u' := fun b member => blank b (List.mem_append_right u member)
      refine ⟨u, u', blankU, blankU', rfl, fun before => ⟨_, [], _, rfl, taken before, .stop ?_⟩⟩
      exact token_declines (by decide) blankU' (by simpa using closes.notSpace)
        (by simpa using closes.notComma) _
  | @cons t w₁ w₂ rest a as item blank₁ blank₂ others ih =>
      simp only [List.length_append, List.length_cons] at short
      obtain ⟨u, u', blankU, blankU', rfl, further⟩ := ih (by omega)
      have clear := blank₁.clear_number ((Parser.clear_cons numberBytes.contains Ascii.comma
        (w₂ ++ (rest ++ (u ++ u' ++ closing :: r)))).mpr (by decide))
      obtain ⟨v, rest', blankV, split, taken⟩ := complete item (by omega) clear
      obtain ⟨v', rfl, rfl⟩ := blankV.exists_of_append_eq (by decide) split.symm
      have blankV' : Blank v' := fun b member => blank₁ b (List.mem_append_right v member)
      refine ⟨u, u', blankU, blankU', rfl, fun before => ?_⟩
      have delimited : eval call budget comma _ = _ := token_taken (by decide) (by decide) blankV'
        blank₂ ((visible_listed visible).clear others (u ++ u' ++ closing :: r))
        (before ++ (t ++ v))
      obtain ⟨a', others', next, rfl, item', further'⟩ :=
        further (before ++ (t ++ v) ++ (v' ++ Ascii.comma :: w₂))
      refine ⟨a, a' :: others', _, rfl, ?_, .step delimited item' ?_⟩
      · simpa using taken before
      · simpa using further'

/-- A container takes its items, its brackets and all white space behind it. -/
theorem bracketed_complete {opening closing : UInt8} (openAscii : opening < 0x80)
    (openNotSpace : isSpace opening = false) (closes : Closes closing) {item : Rules α}
    (complete : CompleteFor Item budget (eval call budget item)) (visible : Visible Item)
    (declines : 0 < budget →
      ∀ before r, (eval call budget item).Declines (between before (closing :: r))) :
    CompleteFor (Bracketed opening closing Item) (budget + 1) (eval call budget
      (.skip (.andThen (token opening) (.sepBy item comma)) (token closing))) := by
  intro t as bracketed short r _
  obtain ⟨w, rest, rfl, blankW, clearW⟩ := exists_blank r
  refine ⟨w, rest, blankW, rfl, fun before => ?_⟩
  cases bracketed with
  | @empty w₁ blank₁ =>
      have opened : eval call budget (token opening) _ = _ := token_taken openAscii openNotSpace
        blank_nil blank₁
        (by simpa using closes.notSpace : Clear isSpace (closing :: (w ++ rest))) before
      have list : eval call budget (.sepBy item comma) _ = _ := Parser.sepBy_of_declines
        (declines (by simp at short; omega) (before ++ ([] ++ opening :: w₁)) (w ++ rest)) budget
      have closed : eval call budget (token closing) _ = _ := token_taken closes.ascii
        closes.notSpace blank_nil blankW clearW
        (before ++ ([] ++ opening :: w₁))
      simpa using Grammar.eval_skip_eq_success_iff.mpr
        ⟨_, _, Grammar.eval_andThen_eq_success_iff.mpr ⟨_, _, opened, list⟩, closed⟩
  | @items w₁ body w₂ _ blank₁ listed blank₂ =>
      simp only [List.cons_append, List.append_assoc, List.length_cons, List.length_append,
        List.length_nil] at short
      have clear := (visible_listed visible).clear listed (w₂ ++ closing :: (w ++ rest))
      have opened : eval call budget (token opening) _ = _ := token_taken openAscii openNotSpace
        blank_nil blank₁ clear before
      obtain ⟨u, u', blankU, blankU', rfl, further⟩ := exists_furtherItems complete visible
        listed (by omega) blank₂ closes (w ++ rest)
      obtain ⟨a, others, next, rfl, first, items⟩ := further (before ++ ([] ++ opening :: w₁))
      have enough := listed.length_le visible
      simp only [List.length_cons] at enough
      have list : eval call budget (.sepBy item comma) _ = _ :=
        Parser.sepBy_of_furtherItems first items (by omega : others.length < budget)
      have closed : eval call budget (token closing) _ = _ := token_taken closes.ascii
        closes.notSpace blankU' blankW clearW (before ++ ([] ++ opening :: w₁) ++ (body ++ u))
      simpa using Grammar.eval_skip_eq_success_iff.mpr
        ⟨_, _, Grammar.eval_andThen_eq_success_iff.mpr ⟨_, _, opened, list⟩, closed⟩

theorem member_complete {bound : Nat} (complete : CompleteFor Derives bound (call ())) :
    CompleteFor DerivedMember bound (eval call budget member) := by
  rintro _ _ ⟨⟨unquoted, rfl⟩, blank₁, blank₂, derives⟩ short r clear
  rename_i key w₁ w₂ t v
  simp only [List.length_append, List.length_cons] at short
  obtain ⟨w, rest, blankW, rfl, taken⟩ := complete derives (by omega) clear
  refine ⟨w, rest, blankW, rfl, fun before => ?_⟩
  have named : eval call budget quoted _ = _ := quoted_taken unquoted
    (w₁ ++ Ascii.colon :: (w₂ ++ (t ++ (w ++ rest)))) before
  have colonTaken : eval call budget colon _ = _ := token_taken (by decide) (by decide) blank₁
    blank₂ (visible_derives.clear derives (w ++ rest)) (before ++ stringText key)
  have keyed := Grammar.eval_skip_eq_success_iff.mpr ⟨_, _, named, colonTaken⟩
  have valued := taken (before ++ stringText key ++ (w₁ ++ Ascii.colon :: w₂))
  have both : eval call budget member _ = _ := Parser.both_eq_success_iff.mpr ⟨_, keyed, valued⟩
  simpa using both

/-! ## In front of which bytes values decline -/

theorem bracketed_declines {opening closing : UInt8} (openAscii : opening < 0x80)
    {item : Rules α} {ahead : Bytes} (clear : Clear isSpace ahead)
    (other : Clear (· == opening) ahead) (before : Bytes) :
    (eval call budget (.skip (.andThen (token opening) (.sepBy item comma))
      (token closing))).Declines (between before ahead) := by
  have opened : (eval call budget (token opening)).Declines (between before ([] ++ ahead)) :=
    token_declines openAscii blank_nil clear other before
  exact Grammar.declines_skip (Grammar.declines_andThen opened _) _

theorem literal_declines {text rest : Bytes} {b : UInt8} (other : ¬ text <+: b :: rest)
    (before : Bytes) : (Parser.literal text).Declines (between before (b :: rest)) := by
  obtain ⟨cause, failed⟩ := Parser.literal_eq_failAt before other
  exact Parser.declines_of_failAt failed

section

variable {b : UInt8} {rest before : Bytes}

theorem arrayValue_declines (notSpace : isSpace b = false) (other : b ≠ Ascii.openBracket) :
    (eval call budget arrayValue).Declines (between before (b :: rest)) :=
  (bracketed_declines (by decide) (by simpa using notSpace) (by simpa using other) before).map _

theorem containers_decline (notSpace : isSpace b = false) (notBracket : b ≠ Ascii.openBracket)
    (notBrace : b ≠ Ascii.openBrace) :
    (Parser.orElse (eval call budget arrayValue) (eval call budget objectValue)).Declines
      (between before (b :: rest)) := by
  refine (arrayValue_declines notSpace notBracket).orElse (.map ?_ _)
  exact bracketed_declines (by decide) (by simpa using notSpace) (by simpa using notBrace) before

theorem stringValue_declines (other : b ≠ Ascii.quotationMark) :
    (eval call budget stringValue).Declines (between before (b :: rest)) :=
  (quoted_declines (by simpa using other) before).map _

theorem nullValue_declines (other : b ≠ Ascii.letterN) :
    (eval call budget nullValue).Declines (between before (b :: rest)) := by
  have textEq : Value.nullText = Ascii.letterN :: Bytes.ofString "ull" := rfl
  apply Parser.Declines.map
  exact literal_declines (by simp [textEq, other.symm]) before

theorem boolValue_declines (notTrue : b ≠ Ascii.letterT) (notFalse : b ≠ Ascii.letterF) :
    (eval call budget boolValue).Declines (between before (b :: rest)) := by
  have trueEq : Value.boolText true = Ascii.letterT :: Bytes.ofString "rue" := rfl
  have falseEq : Value.boolText false = Ascii.letterF :: Bytes.ofString "alse" := rfl
  apply Parser.Declines.map
  apply Parser.Declines.orElse
  · exact literal_declines (by simp [trueEq, notTrue.symm]) before
  · exact literal_declines (by simp [falseEq, notFalse.symm]) before

end

/-- A bracket that closes a container begins no value. -/
theorem value_declines (before r : Bytes) :
    (eval call budget value).Declines (between before (Ascii.closeBracket :: r)) := by
  refine (((Parser.Declines.orElse ?_ ?_).orElse ?_).orElse ?_).orElse ?_
  · exact containers_decline (by decide) (by decide) (by decide)
  · exact stringValue_declines (by decide)
  · exact nullValue_declines (by decide)
  · exact boolValue_declines (by decide) (by decide)
  · exact numberValue_declines ((Parser.clear_cons _ _ r).mpr (by decide)) before

section

variable {rest before : Bytes} {v : Value} {c next : Cursor}

theorem value_of_arrayValue (taken : eval call budget arrayValue c = .success v next) :
    eval call budget value c = .success v next :=
  Parser.orElse_of_success (Parser.orElse_of_success (Parser.orElse_of_success
    (Parser.orElse_of_success (Parser.orElse_of_success taken))))

theorem value_of_objectValue
    (taken : eval call budget objectValue (between before (Ascii.openBrace :: rest)) =
      .success v next) :
    eval call budget value (between before (Ascii.openBrace :: rest)) = .success v next := by
  refine Parser.orElse_of_success (Parser.orElse_of_success (Parser.orElse_of_success
    (Parser.orElse_of_success ((Parser.orElse_of_declines ?_).trans taken))))
  exact arrayValue_declines (by decide) (by decide)

theorem value_of_stringValue
    (taken : eval call budget stringValue (between before (Ascii.quotationMark :: rest)) =
      .success v next) :
    eval call budget value (between before (Ascii.quotationMark :: rest)) = .success v next := by
  refine Parser.orElse_of_success (Parser.orElse_of_success (Parser.orElse_of_success
    ((Parser.orElse_of_declines ?_).trans taken)))
  exact containers_decline (by decide) (by decide) (by decide)

theorem value_of_nullValue
    (taken : eval call budget nullValue (between before (Ascii.letterN :: rest)) =
      .success v next) :
    eval call budget value (between before (Ascii.letterN :: rest)) = .success v next := by
  refine Parser.orElse_of_success (Parser.orElse_of_success
    ((Parser.orElse_of_declines (.orElse ?_ ?_)).trans taken))
  · exact containers_decline (by decide) (by decide) (by decide)
  · exact stringValue_declines (by decide)

theorem value_of_boolValue {b : UInt8} (first : b = Ascii.letterT ∨ b = Ascii.letterF)
    (taken : eval call budget boolValue (between before (b :: rest)) = .success v next) :
    eval call budget value (between before (b :: rest)) = .success v next := by
  refine Parser.orElse_of_success
    ((Parser.orElse_of_declines (.orElse (.orElse ?_ ?_) ?_)).trans taken)
  · rcases first with rfl | rfl <;> exact containers_decline (by decide) (by decide) (by decide)
  · rcases first with rfl | rfl <;> exact stringValue_declines (by decide)
  · rcases first with rfl | rfl <;> exact nullValue_declines (by decide)

theorem value_of_numberValue {b : UInt8} (first : b ∈ numberBytes)
    (taken : eval call budget numberValue (between before (b :: rest)) = .success v next) :
    eval call budget value (between before (b :: rest)) = .success v next := by
  rcases numberBytes_apart b first with
    ⟨notSpace, notBracket, notBrace, notQuote, notNull, notTrue, notFalse⟩
  refine (Parser.orElse_of_declines (.orElse (.orElse (.orElse ?_ ?_) ?_) ?_)).trans taken
  · exact containers_decline notSpace notBracket notBrace
  · exact stringValue_declines notQuote
  · exact nullValue_declines notNull
  · exact boolValue_declines notTrue notFalse

end

/-! ## Values and whole texts -/

theorem nullValue_taken (r before : Bytes) :
    eval call budget nullValue (between before (Value.nullText ++ r)) =
      .success .null (between (before ++ Value.nullText) r) :=
  Parser.map_eq_success_iff.mpr
    ⟨_, Parser.literal_append before Value.nullText r (List.cons_ne_nil _ _), rfl⟩

theorem boolValue_taken (b : Bool) (r before : Bytes) :
    eval call budget boolValue (between before (Value.boolText b ++ r)) =
      .success (.bool b) (between (before ++ Value.boolText b) r) := by
  apply Parser.map_eq_success_iff.mpr
  cases b with
  | true =>
      have taken := Parser.literal_append before (Value.boolText true) r (List.cons_ne_nil _ _)
      exact ⟨Value.boolText true, Parser.orElse_of_success taken, rfl⟩
  | false =>
      have taken := Parser.literal_append before (Value.boolText false) r (List.cons_ne_nil _ _)
      have trueEq : Value.boolText true = Ascii.letterT :: Bytes.ofString "rue" := rfl
      have notTrue : ¬ Value.boolText true <+: Ascii.letterF :: (Bytes.ofString "alse" ++ r) := by
        simp [trueEq, show Ascii.letterT ≠ Ascii.letterF by decide]
      have declines := literal_declines notTrue before
      exact ⟨Value.boolText false, (Parser.orElse_of_declines declines).trans taken, rfl⟩

theorem closes_closeBracket : Closes Ascii.closeBracket :=
  ⟨by decide, by decide, by decide, by decide⟩

theorem closes_closeBrace : Closes Ascii.closeBrace :=
  ⟨by decide, by decide, by decide, by decide⟩

theorem arrayValue_complete (complete : CompleteFor Derives budget (call ()))
    (declines : 0 < budget →
      ∀ before r, (call ()).Declines (between before (Ascii.closeBracket :: r))) :
    CompleteFor (Bracketed Ascii.openBracket Ascii.closeBracket Derives) (budget + 1)
      (eval call budget (.skip (.andThen (token Ascii.openBracket) (.sepBy anyValue comma))
        (token Ascii.closeBracket))) :=
  bracketed_complete (by decide) (by decide) closes_closeBracket complete visible_derives declines

theorem objectValue_complete (complete : CompleteFor Derives budget (call ())) :
    CompleteFor (Bracketed Ascii.openBrace Ascii.closeBrace DerivedMember) (budget + 1)
      (eval call budget (.skip (.andThen (token Ascii.openBrace) (.sepBy member comma))
        (token Ascii.closeBrace))) := by
  apply bracketed_complete (by decide) (by decide) closes_closeBrace (member_complete complete)
    visible_memberText
  intro _ before r
  have noKey : (eval call budget quoted).Declines (between before (Ascii.closeBrace :: r)) :=
    quoted_declines ((Parser.clear_cons _ _ r).mpr (by decide)) before
  exact (Grammar.declines_skip noKey _).both _

/-- The rule of values is complete for the texts that fit its budget, if its
calls are. -/
theorem value_complete (complete : CompleteFor Derives budget (call ()))
    (declines : 0 < budget →
      ∀ before r, (call ()).Declines (between before (Ascii.closeBracket :: r))) :
    CompleteFor Derives (budget + 1) (eval call budget value) := by
  intro t v derives short r clear
  cases derives with
  | array elements =>
      obtain ⟨w, rest, blank, rfl, taken⟩ :=
        arrayValue_complete complete declines elements short clear
      refine ⟨w, rest, blank, rfl, fun before => ?_⟩
      exact value_of_arrayValue (Parser.map_eq_success_iff.mpr ⟨_, taken before, rfl⟩)
  | object members =>
      obtain ⟨w, rest, blank, rfl, taken⟩ := objectValue_complete complete members short clear
      obtain ⟨body, rfl⟩ := members.exists_cons
      refine ⟨w, rest, blank, rfl, fun before => ?_⟩
      exact value_of_objectValue (Parser.map_eq_success_iff.mpr ⟨_, taken before, rfl⟩)
  | string unquoted =>
      refine exists_taken_of_exact fun before => ?_
      exact value_of_stringValue
        (Parser.map_eq_success_iff.mpr ⟨_, quoted_taken unquoted r before, rfl⟩)
  | null =>
      refine exists_taken_of_exact fun before => ?_
      exact value_of_nullValue (nullValue_taken r before)
  | true =>
      refine exists_taken_of_exact fun before => ?_
      exact value_of_boolValue (.inl rfl) (boolValue_taken Bool.true r before)
  | false =>
      refine exists_taken_of_exact fun before => ?_
      exact value_of_boolValue (.inr rfl) (boolValue_taken Bool.false r before)
  | number some characters denotes =>
      refine exists_taken_of_exact fun before => ?_
      obtain ⟨b, run, rfl⟩ := List.exists_cons_of_ne_nil some
      exact value_of_numberValue (characters b List.mem_cons_self)
        (numberValue_taken some characters denotes clear before)

/-- A budget for nested values is enough for every shorter text. -/
theorem callRule_complete (budget : Nat) :
    CompleteFor Derives budget (Grammar.callRule (fun _ => value) budget ()) := by
  induction budget with
  | zero =>
      intro t v _ short
      contradiction
  | succ budget ih =>
      apply value_complete ih
      intro positive before r
      obtain ⟨fewer, rfl⟩ := Nat.exists_eq_add_one_of_ne_zero (Nat.ne_of_gt positive)
      exact value_declines before r

/-- A value with white space around it is read as a whole text. -/
theorem document_of_spaced {s : Bytes} {v : Value} {bound : Nat}
    (complete : CompleteFor Derives bound (call ())) (spaced : Spaced Derives s v)
    (short : s.length < bound) :
    eval call budget document (Cursor.ofBytes s) = .success v (between s []) := by
  rcases spaced with ⟨w₁, t, w₂, blank₁, derives, blank₂, rfl⟩
  simp only [List.length_append] at short
  have clear : Clear numberBytes.contains w₂ := by
    simpa using blank₂.clear_number (Parser.clear_nil numberBytes.contains)
  obtain ⟨w, rest, _, rfl, taken⟩ := complete derives (by omega) clear
  have blankRest : Blank rest := fun b member => blank₂ b (List.mem_append_right w member)
  have spaces : eval call budget (.many space) (between [] (w₁ ++ (t ++ (w ++ rest)))) = _ :=
    many_space blank₁ (visible_derives.clear derives (w ++ rest)) []
  have called : eval call budget anyValue _ = _ := taken ([] ++ w₁)
  have spaces' : eval call budget (.many space)
      (between ([] ++ w₁ ++ (t ++ w)) (rest ++ [])) = _ :=
    many_space blankRest (Parser.clear_nil _) ([] ++ w₁ ++ (t ++ w))
  rw [List.append_nil] at spaces'
  have finished : eval call budget .finish _ = _ :=
    Parser.finish_nil ([] ++ w₁ ++ (t ++ w) ++ rest)
  have whole : eval call budget document _ = _ := Grammar.eval_skip_eq_success_iff.mpr
    ⟨_, _, Grammar.eval_andThen_eq_success_iff.mpr ⟨_, _, spaces, called⟩,
      Grammar.eval_andThen_eq_success_iff.mpr ⟨_, _, spaces', finished⟩⟩
  simpa using whole

end Rules

end JsonFit.Json
