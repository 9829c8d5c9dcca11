import JsonFit.Proofs.Json.Recognition
import JsonFit.Proofs.Json.Viable
import JsonFit.Proofs.Parser.Failing

/-!
# Where reading fails

A failure is never reported behind the first byte that makes a text hopeless:
what stands before the offset of the failure can be completed to a text that is
read.  The exception is a run of number characters that is no numeral.  It is
reported at its end, and what stands before the run can be completed.

For every rule, `FailsFor` says this of the part of the text that the rule has
passed.  A rule that calls another one has passed something before the call; what
the callee blames is blamed by the caller as well, since a viable part stays
viable behind what was passed (`Blames.widen`).
-/

namespace JsonFit.Json

open Cursor (between)
open Grammar (eval)
open JsonFit.Parser (BrokenItems Cause Clear FailsHere Failure ReadsOne)
open Rules (numberBytes)
open Value (stringText)

variable {α β : Type} {Item : Bytes → α → Prop} {Item' : Bytes → β → Prop}

/-- The beginning of every report on a number. -/
def invalidNumber : Bytes :=
  Bytes.ofString "invalid number"

/-- The text does not end in a number character. -/
def Unnumbered (text : Bytes) : Prop :=
  ∀ b ∈ text.getLast?, b ∉ numberBytes

/-- The longest run of number characters at its place, and not a numeral. -/
structure BadNumber (text run rest : Bytes) : Prop where
  /-- The run has some characters. -/
  some : run ≠ []
  /-- All of them are number characters. -/
  characters : ∀ b ∈ run, b ∈ numberBytes
  /-- No number character stands in front of the run. -/
  begins : Unnumbered text
  /-- No number character stands behind the run. -/
  ends : Clear numberBytes.contains rest
  /-- The run has no value. -/
  rejected : Decimal.read? run = none

theorem Blank.notNumber {w : Bytes} (blank : Blank w) : ∀ b ∈ w, b ∉ numberBytes := by
  intro b member
  rcases blank b member with rfl | rfl | rfl | rfl <;> decide

theorem Blank.unnumbered {w : Bytes} (blank : Blank w) : Unnumbered w := by
  intro b last
  exact blank.notNumber b (List.mem_of_getLast? last)

/-- No number goes on behind a token. -/
theorem Blank.unnumbered_token {w : Bytes} (blank : Blank w) {b : UInt8}
    (other : b ∉ numberBytes) (text w' : Bytes) : Unnumbered (text ++ (w' ++ b :: w)) := by
  intro b' last
  rw [← List.append_assoc, List.getLast?_append, List.getLast?_cons, Option.some_or,
    ← List.getLast?_cons] at last
  rcases List.mem_cons.mp (List.mem_of_getLast? last) with rfl | member
  · exact other
  · exact blank.notNumber b' member

theorem not_invalidNumber_cons {b : UInt8} (other : b ≠ Bytes.ofAscii 'i') (rest : Bytes) :
    ¬ invalidNumber <+: b :: rest := by
  have textEq : invalidNumber = Bytes.ofAscii 'i' :: Bytes.ofString "nvalid number" := rfl
  simp [textEq, other.symm]

/-- The report on a number that is none. -/
theorem invalidNumber_append (shown : Bytes) :
    invalidNumber ++ (Ascii.space :: shown) = Bytes.ofString "invalid number " ++ shown :=
  rfl

/-- Causes that are not worded by the grammar are no reports on numbers. -/
theorem not_invalidNumber_of_isWorded {cause : Cause} (own : cause.isWorded = false) :
    ¬ invalidNumber <+: cause.message := by
  cases cause with
  | endOfInput => exact not_invalidNumber_cons (by decide) _
  | unexpectedText want got => exact not_invalidNumber_cons (by decide) _
  | unexpectedChar want got => exact not_invalidNumber_cons (by decide) _
  | missingDelimiter delimiter => exact not_invalidNumber_cons (by decide) _
  | trailingInput got => exact not_invalidNumber_cons (by decide) _
  | worded message => contradiction

/-! ## Blame -/

/-- The reason for a failure at the end of `text ++ run`: there is no run, or it
is a bad number. -/
inductive Reason (text run rest : Bytes) (e : Failure) : Prop where
  /-- Something else was expected. -/
  | expected (noRun : run = []) (worded : ¬ invalidNumber <+: e.message)
  /-- The run is a bad number. -/
  | number (bad : BadNumber text run rest) (worded : invalidNumber <+: e.message)

/-- The failure of a run between `before` and `ahead` is reported where what has
been passed can still be completed, or behind a bad number there. -/
def Blames (Item : Bytes → α → Prop) (before ahead : Bytes) (e : Failure) : Prop :=
  ∃ passed run rest, ahead = passed ++ (run ++ rest) ∧
    e.offset = (before ++ passed ++ run).length ∧ Viable Item passed ∧
    Reason (before ++ passed) run rest e

section Blames

variable {before ahead u : Bytes} {e e' : Failure}

theorem Blames.congr (blames : Blames Item before ahead e) (agrees : e.Agrees e') :
    Blames Item before ahead e' := by
  rcases blames with ⟨passed, run, rest, split, offset, viable, reason⟩
  refine ⟨passed, run, rest, split, agrees.offset.trans offset, viable, ?_⟩
  have sameMessage : e'.message = e.message := congrArg Cause.message agrees.cause
  rcases reason with ⟨noRun, worded⟩ | ⟨bad, worded⟩
  · exact .expected noRun (sameMessage ▸ worded)
  · exact .number bad (sameMessage ▸ worded)

theorem Blames.mono (blames : Blames Item' before ahead e)
    (further : ∀ passed, Viable Item' passed → Viable Item passed) :
    Blames Item before ahead e := by
  rcases blames with ⟨passed, run, rest, split, offset, viable, reason⟩
  exact ⟨passed, run, rest, split, offset, further passed viable, reason⟩

/-- What is blamed behind `u` is blamed, if viable parts are viable behind `u`. -/
theorem Blames.widen (blames : Blames Item' (before ++ u) ahead e)
    (further : ∀ passed, Viable Item' passed → Viable Item (u ++ passed)) :
    Blames Item before (u ++ ahead) e := by
  rcases blames with ⟨passed, run, rest, rfl, offset, viable, reason⟩
  refine ⟨u ++ passed, run, rest, by simp, by simpa using offset, further passed viable, ?_⟩
  simpa using reason

/-- What is blamed behind an item and a token. -/
theorem Blames.widen_token {s w₁ w₂ : Bytes} {b : UInt8}
    (blames : Blames Item' (before ++ s ++ (w₁ ++ b :: w₂)) ahead e)
    (further : ∀ passed, Viable Item' passed → Viable Item (s ++ w₁ ++ b :: w₂ ++ passed)) :
    Blames Item before (s ++ (w₁ ++ b :: (w₂ ++ ahead))) e := by
  have sameBefore : before ++ s ++ (w₁ ++ b :: w₂) = before ++ (s ++ w₁ ++ b :: w₂) := by simp
  rw [sameBefore] at blames
  simpa using blames.widen further

/-- A failure that is not worded by the grammar, behind a viable part. -/
theorem Blames.of_viable (viable : Viable Item u) (offset : e.offset = (before ++ u).length)
    (own : e.cause.isWorded = false) : Blames Item before (u ++ ahead) e :=
  ⟨u, [], ahead, rfl, by simpa using offset, viable,
    .expected rfl (not_invalidNumber_of_isWorded own)⟩

end Blames

/-- Whatever the parser fails at is blamed, if it does not begin behind a number
character. -/
def FailsFor (Item : Bytes → α → Prop) (p : Parser α) : Prop :=
  ∀ ⦃before ahead e⦄, Unnumbered before → p (between before ahead) = .failure e →
    Blames Item before ahead e

theorem FailsFor.map {p : Parser α} (fails : FailsFor Item p) {f : α → β}
    (further : ∀ t a, Item t a → Item' t (f a)) : FailsFor Item' (Parser.map f p) := by
  intro before ahead e unnumbered failed
  have blames := fails unnumbered (Parser.map_eq_failure_iff.mp failed)
  exact blames.mono fun _ viable => viable.map further

theorem FailsFor.orElse {p q : Parser α} (first : FailsFor Item p) (second : FailsFor Item q) :
    FailsFor Item (Parser.orElse p q) := by
  intro before ahead e unnumbered failed
  rcases Parser.orElse_failure_cases failed with failed | failed
  · exact first unnumbered failed
  · exact second unnumbered failed

/-- A failure of a part that fails where it stands, behind a viable part. -/
theorem blames_of_failsHere {p : Parser β} (here : FailsHere p) {before u ahead : Bytes}
    {e : Failure} (failed : p (between (before ++ u) ahead) = .failure e)
    (viable : Viable Item u) : Blames Item before (u ++ ahead) e := by
  obtain ⟨cause, rfl, own⟩ := here failed
  exact .of_viable viable rfl own

namespace Rules

variable {call : Unit → Parser Value} {budget : Nat}

/-! ## Rules without recursion -/

/-- A token fails in front of the white space that it has passed. -/
theorem token_failsHere {b : UInt8} (ascii : b < 0x80) (notSpace : isSpace b = false) :
    FailsHere (eval call budget (token b)) := by
  intro before ahead e failed
  obtain ⟨w₁, rest, rfl, blank₁, clear₁⟩ := exists_blank ahead
  have reads : ReadsOne (eval call budget (byte b)) (· == b) := byte_readsOne ascii
  by_cases other : Clear (· == b) rest
  · obtain ⟨_, byteFailed, _⟩ := reads.declined (before ++ w₁) rest other
    obtain ⟨cause, rfl, own⟩ := Parser.char_failsHere _ byteFailed
    have behindSpaces := Grammar.eval_andThen_of_failure_second (many_space blank₁ clear₁ before)
      byteFailed
    obtain ⟨inner, innerFailed, rfl⟩ := Parser.attempt_failure_cases failed
    rw [Grammar.eval_skip_of_failure behindSpaces] at innerFailed
    cases innerFailed
    exact ⟨cause, by rw [Failure.restart, (Failure.agrees_commitIf _ _).cause]; rfl, own⟩
  · obtain ⟨b', rest, rfl, here⟩ := Parser.exists_cons_of_not_clear _ other
    obtain rfl : b' = b := by simpa using here
    obtain ⟨w₂, rest, rfl, blank₂, clear₂⟩ := exists_blank rest
    rw [token_taken ascii notSpace blank₁ blank₂ clear₂] at failed
    contradiction

/-- A string fails at its first quotation mark or just behind it. -/
theorem quoted_failure_cases {before ahead : Bytes} {e : Failure}
    (failed : eval call budget quoted (between before ahead) = .failure e) :
    ∃ u rest, ahead = u ++ rest ∧ u <+: [Ascii.quotationMark] ∧
      e.offset = (before ++ u).length ∧ e.cause.isWorded = false := by
  have reads : ReadsOne (eval call budget (byte Ascii.quotationMark))
      (· == Ascii.quotationMark) := quote_readsOne
  rcases Grammar.eval_skip_failure_cases failed with failed | ⟨raw, _, _, taken, unclosed, _⟩
  · rcases Grammar.eval_andThen_failure_cases failed with
      failed | ⟨_, _, _, opened, failed, agrees⟩
    · obtain ⟨cause, rfl, own⟩ := Parser.char_failsHere _ failed
      exact ⟨[], ahead, rfl, ⟨_, rfl⟩, by simp, own⟩
    · obtain ⟨b, rest, here, rfl, rfl⟩ := reads.success_cases opened
      obtain rfl : b = Ascii.quotationMark := by simpa using here
      obtain ⟨cause, rfl, own⟩ := Parser.upTo_failsHere _ failed
      exact ⟨[Ascii.quotationMark], rest, rfl, List.prefix_rfl, agrees.offset,
        by rw [agrees.cause]; exact own⟩
  · -- the text before a quotation mark ends in front of one, which is read
    obtain ⟨_, _, opened, inside⟩ := Grammar.eval_andThen_eq_success_iff.mp taken
    obtain ⟨b, rest, _, rfl, rfl⟩ := reads.success_cases opened
    rcases Parser.upTo_singleton_cases (before ++ [b]) Ascii.quotationMark rest with
      ⟨passed, rest, rfl, _, passedTaken⟩ | ⟨cause, notFound⟩
    · rw [eval, passedTaken] at inside
      cases inside
      rw [reads.taken _ Ascii.quotationMark rest rfl] at unclosed
      contradiction
    · rw [eval, notFound] at inside
      contradiction

/-- A failure of a string is blamed, if an item may begin with a string. -/
theorem blames_of_quoted {before ahead : Bytes} {e : Failure}
    (failed : eval call budget quoted (between before ahead) = .failure e)
    (viable : Viable Item (stringText [])) : Blames Item before ahead e := by
  obtain ⟨u, rest, rfl, part, offset, own⟩ := quoted_failure_cases failed
  exact .of_viable (viable.shorten (part.trans (List.prefix_append _ _))) offset own

/-- A constant fails in front of something else. -/
theorem blames_of_literal {text before ahead : Bytes} {e : Failure}
    (failed : Parser.literal text (between before ahead) = .failure e) :
    Blames Derives before ahead e := by
  obtain ⟨cause, rfl, own⟩ := Parser.literal_failsHere text failed
  exact .of_viable viable_empty (by simp) own

/-- A number fails in front of something else, or behind a bad number. -/
theorem numberValue_failsFor : FailsFor Derives (eval call budget numberValue) := by
  intro before ahead e unnumbered failed
  obtain ⟨run, rest, rfl, inClass, clear⟩ := Parser.exists_run numberBytes.contains ahead
  have characters : ∀ b ∈ run, b ∈ numberBytes := by simpa using inClass
  have taken : eval call budget (.many numberChar) _ = _ := many_numberChar characters clear before
  rcases Parser.bind_failure_cases failed with failed | ⟨_, _, _, taken', failed, agrees⟩
  · rw [taken] at failed
    contradiction
  · rw [taken] at taken'
    cases taken'
    refine Blames.congr ?_ agrees
    by_cases some : run = []
    · subst some
      cases failed
      refine ⟨[], [], rest, rfl, by simp, viable_empty, .expected rfl ?_⟩
      exact not_invalidNumber_cons (by decide) _
    · rw [numberOf_map some characters] at failed
      cases denotes : Decimal.read? run with
      | some x =>
          rw [denotes] at failed
          contradiction
      | none =>
          rw [denotes] at failed
          cases failed
          refine ⟨[], run, rest, rfl, by simp, viable_empty, .number ?_ ?_⟩
          · exact ⟨some, characters, by simpa using unnumbered, clear, denotes⟩
          · exact ⟨_, invalidNumber_append _⟩

/-! ## Containers -/

/-- A list that breaks off behind an item. -/
theorem blames_of_brokenItems {item : Rules α} (sound : SoundFor Item (eval call budget item))
    (fails : FailsFor Item (eval call budget item)) {before s ahead : Bytes} {a : α} {e : Failure}
    (spaced : Spaced Item s a) (broken : BrokenItems (eval call budget item)
      (eval call budget comma) (between (before ++ s) ahead) e) :
    Blames (Listed Item) before (s ++ ahead) e := by
  generalize startEq : between (before ++ s) ahead = start at broken
  induction broken generalizing before s ahead a with
  | delimiter failed committed =>
      subst startEq
      obtain ⟨cause, rfl, _⟩ := token_failsHere (by decide) (by decide) failed
      contradiction
  | item delimited failed =>
      subst startEq
      obtain ⟨w₁, w₂, rest, blank₁, blank₂, rfl, rfl⟩ :=
        token_success_cases (by decide) (by decide) delimited
      have blames := fails (blank₂.unnumbered_token (by decide) (before ++ s) w₁) failed
      refine Blames.congr ?_ (Failure.agrees_commit _)
      exact blames.widen_token fun _ viable => viable.listed.listed_cons spaced blank₁ blank₂
  | step delimited item others ih =>
      subst startEq
      obtain ⟨w₁, w₂, rest, blank₁, blank₂, rfl, rfl⟩ :=
        token_success_cases (by decide) (by decide) delimited
      obtain ⟨s', rest, spaced', rfl, rfl⟩ := sound item
      exact (ih spaced' rfl).widen_token fun _ viable => viable.listed_cons spaced blank₁ blank₂

/-- A list that is not behind a number character fails in one of its items. -/
theorem sepBy_failsFor {item : Rules α} (sound : SoundFor Item (eval call budget item))
    (fails : FailsFor Item (eval call budget item)) :
    FailsFor (Listed Item) (eval call budget (.sepBy item comma)) := by
  intro before ahead e unnumbered failed
  rcases Parser.sepBy_failure_cases failed with failed | ⟨a, _, first, broken⟩
  · exact (fails unnumbered failed).mono fun _ viable => viable.listed
  · obtain ⟨s, rest, spaced, rfl, rfl⟩ := sound first
    exact blames_of_brokenItems sound fails spaced broken

/-- A list that has been read may be closed. -/
theorem viable_of_sepBy {opening closing : UInt8} {item : Rules α}
    (sound : SoundFor Item (eval call budget item)) {before ahead w₁ w₂ : Bytes} {as : List α}
    {next : Cursor} (blank₁ : Blank w₁) (blank₂ : Blank w₂)
    (list : eval call budget (.sepBy item comma) (between before ahead) = .success as next) :
    ∃ s rest, ahead = s ++ rest ∧ next = between (before ++ s) rest ∧
      Viable (Bracketed opening closing Item) (w₁ ++ opening :: w₂ ++ s) := by
  rcases Parser.sepBy_success_cases list with ⟨rfl, rfl⟩ | ⟨a, _, others, rfl, first, items⟩
  · exact ⟨[], ahead, rfl, by simp, by simpa using viable_opening blank₁ blank₂⟩
  · obtain ⟨s₁, rest, spaced, rfl, rfl⟩ := sound first
    obtain ⟨s, rest, rfl, rfl, listed⟩ := exists_listed_of_furtherItems sound items
    have viable := (listed s₁ a spaced).viable
    exact ⟨s₁ ++ s, rest, by simp, by simp, viable.bracketed blank₁ blank₂⟩

/-- A container fails at a bracket or in its items. -/
theorem bracketed_failsFor {opening closing : UInt8} (openAscii : opening < 0x80)
    (openNotSpace : isSpace opening = false) (openNotNumber : opening ∉ numberBytes)
    (closeAscii : closing < 0x80) (closeNotSpace : isSpace closing = false) {item : Rules α}
    (sound : SoundFor Item (eval call budget item))
    (fails : FailsFor Item (eval call budget item)) :
    FailsFor (Bracketed opening closing Item) (eval call budget
      (.skip (.andThen (token opening) (.sepBy item comma)) (token closing))) := by
  intro before ahead e _ failed
  rcases Grammar.eval_skip_failure_cases failed with failed | ⟨as, _, _, inside, failed, agrees⟩
  · rcases Grammar.eval_andThen_failure_cases failed with
      failed | ⟨_, _, _, opened, failed, agrees⟩
    · obtain ⟨cause, rfl, own⟩ := token_failsHere openAscii openNotSpace failed
      have empty : Viable (Bracketed opening closing Item) [] :=
        (viable_opening blank_nil blank_nil).shorten ⟨_, rfl⟩
      exact .of_viable empty (by simp) own
    · obtain ⟨w₁, w₂, rest, blank₁, blank₂, rfl, rfl⟩ :=
        token_success_cases openAscii openNotSpace opened
      have unnumbered := blank₂.unnumbered_token openNotNumber before w₁
      have blames := (sepBy_failsFor sound fails unnumbered failed).congr agrees
      have wider : Blames (Bracketed opening closing Item) before _ e :=
        blames.widen fun _ viable => viable.bracketed blank₁ blank₂
      simpa using wider
  · obtain ⟨_, _, opened, list⟩ := Grammar.eval_andThen_eq_success_iff.mp inside
    obtain ⟨w₁, w₂, rest, blank₁, blank₂, rfl, rfl⟩ :=
      token_success_cases openAscii openNotSpace opened
    obtain ⟨s, rest, rfl, rfl, viable⟩ := viable_of_sepBy sound blank₁ blank₂ list
    rw [List.append_assoc] at failed
    have blames := blames_of_failsHere (token_failsHere closeAscii closeNotSpace) failed viable
    simpa using blames.congr agrees

/-- A member fails at its key, at the colon or in its value. -/
theorem member_failsFor (fails : FailsFor Derives (call ())) :
    FailsFor DerivedMember (eval call budget member) := by
  intro before ahead e _ failed
  rcases Parser.both_failure_cases failed with failed | ⟨key, _, _, keyed, failed, agrees⟩
  · rcases Grammar.eval_skip_failure_cases failed with failed | ⟨key, _, _, named, failed, agrees⟩
    · exact blames_of_quoted failed (viable_key List.not_mem_nil)
    · obtain ⟨rest, unquoted, rfl, rfl⟩ := quoted_success_cases named
      refine Blames.congr ?_ agrees
      exact blames_of_failsHere (token_failsHere (by decide) (by decide)) failed
        (viable_key unquoted)
  · obtain ⟨_, _, named, colonTaken⟩ := Grammar.eval_skip_eq_success_iff.mp keyed
    obtain ⟨rest, unquoted, rfl, rfl⟩ := quoted_success_cases named
    obtain ⟨w₁, w₂, rest, blank₁, blank₂, rfl, rfl⟩ :=
      token_success_cases (by decide) (by decide) colonTaken
    have blames := fails (blank₂.unnumbered_token (by decide) (before ++ stringText key) w₁) failed
    refine Blames.congr ?_ agrees
    exact blames.widen_token fun _ viable => viable.memberText unquoted blank₁ blank₂

/-- The failures of the rule of values are blamed if those of its calls are. -/
theorem value_failsFor (sound : SoundFor Derives (call ())) (fails : FailsFor Derives (call ())) :
    FailsFor Derives (eval call budget value) := by
  have array : FailsFor Derives (eval call budget arrayValue) :=
    (bracketed_failsFor (by decide) (by decide) (by decide) (by decide) (by decide) sound
      fails).map fun _ _ elements => .array elements
  have object : FailsFor Derives (eval call budget objectValue) :=
    (bracketed_failsFor (by decide) (by decide) (by decide) (by decide) (by decide)
      (member_sound sound) (member_failsFor fails)).map fun _ _ members => .object members
  have string : FailsFor Derives (eval call budget stringValue) := by
    intro before ahead e _ failed
    exact blames_of_quoted (Parser.map_eq_failure_iff.mp failed) (viable_string List.not_mem_nil)
  have null : FailsFor Derives (eval call budget nullValue) := by
    intro before ahead e _ failed
    exact blames_of_literal (Parser.map_eq_failure_iff.mp failed)
  have bool : FailsFor Derives (eval call budget boolValue) := by
    intro before ahead e _ failed
    rcases Parser.orElse_failure_cases (Parser.map_eq_failure_iff.mp failed) with failed | failed
    · exact blames_of_literal failed
    · exact blames_of_literal failed
  exact ((((array.orElse object).orElse string).orElse null).orElse bool).orElse
    numberValue_failsFor

theorem callRule_failsFor (budget : Nat) :
    FailsFor Derives (Grammar.callRule (fun _ => value) budget ()) := by
  induction budget with
  | zero =>
      intro before ahead e _ failed
      contradiction
  | succ budget ih => exact value_failsFor (callRule_sound budget) ih

/-- A rule behind white space fails where the white space ends. -/
theorem spaces_failure_cases {q : Rules β} {before ahead : Bytes} {e : Failure}
    (failed : eval call budget (.andThen (.many space) q) (between before ahead) = .failure e) :
    ∃ w rest e', Blank w ∧ ahead = w ++ rest ∧
      eval call budget q (between (before ++ w) rest) = .failure e' ∧ e'.Agrees e := by
  obtain ⟨w, rest, rfl, blank, clear⟩ := exists_blank ahead
  have spaces : eval call budget (.many space) _ = _ := many_space blank clear before
  rcases Grammar.eval_andThen_failure_cases failed with failed | ⟨_, _, e', taken, failed, agrees⟩
  · rw [spaces] at failed
    contradiction
  · rw [spaces] at taken
    cases taken
    exact ⟨w, rest, e', blank, rfl, failed, agrees⟩

/-- A whole text fails in its value or behind it. -/
theorem blames_of_document (sound : SoundFor Derives (call ()))
    (fails : FailsFor Derives (call ())) {s : Bytes} {e : Failure}
    (failed : eval call budget document (between [] s) = .failure e) :
    Blames Derives [] s e := by
  rcases Grammar.eval_skip_failure_cases failed with failed | ⟨v, _, _, valued, failed, agrees⟩
  · obtain ⟨w, rest, e', blank, rfl, failed, agrees⟩ := spaces_failure_cases failed
    refine Blames.congr ?_ agrees
    exact (fails blank.unnumbered failed).widen fun _ viable => viable.before blank
  · obtain ⟨_, _, spaces, taken⟩ := Grammar.eval_andThen_eq_success_iff.mp valued
    obtain ⟨w₁, rest₁, rfl, blank₁, clear₁⟩ := exists_blank s
    rw [many_space blank₁ clear₁] at spaces
    cases spaces
    obtain ⟨s₁, rest₂, spaced, rfl, rfl⟩ := sound taken
    obtain ⟨w₂, rest, e', blank₂, rfl, failed, agrees'⟩ := spaces_failure_cases failed
    have viable := ((spaced.before blank₁).behind blank₂).viable
    have blames : Blames Derives [] (w₁ ++ s₁ ++ w₂ ++ rest) e' :=
      blames_of_failsHere Parser.finish_failsHere failed viable
    simpa using (blames.congr agrees').congr agrees

end Rules

/-- What is blamed in a whole text that fails. -/
theorem blames_of_parse {s : Bytes} {e : Failure} (failed : parse s = .failure e) :
    Blames Derives [] s e :=
  Rules.blames_of_document (Rules.callRule_sound _) (Rules.callRule_failsFor _) failed

/-- A viable text can be completed to one that is read. -/
theorem Viable.exists_parse {u : Bytes} (viable : Viable Derives u) :
    ∃ t v next, parse (u ++ t) = .success v next := by
  obtain ⟨t, v, spaced⟩ := viable
  exact ⟨t, v, _, parse_of_spaced spaced⟩

/-- A failure is reported where the text before it can be completed to one that
is read, or at the end of a run of number characters that has no value, where
the text before the run can be completed.  The message tells which. -/
theorem parse_failure_viable {s : Bytes} {e : Failure} (failed : parse s = .failure e) :
    (¬ invalidNumber <+: e.message ∧
      ∃ text rest, s = text ++ rest ∧ e.offset = text.length ∧
        ∃ t v next, parse (text ++ t) = .success v next) ∨
    (invalidNumber <+: e.message ∧
      ∃ text run rest, s = text ++ (run ++ rest) ∧ e.offset = (text ++ run).length ∧
        BadNumber text run rest ∧ ∃ t v next, parse (text ++ t) = .success v next) := by
  rcases blames_of_parse failed with ⟨text, run, rest, split, offset, viable, reason⟩
  rcases reason with ⟨rfl, worded⟩ | ⟨bad, worded⟩
  · exact .inl ⟨worded, text, rest, split, by simpa using offset, viable.exists_parse⟩
  · exact .inr ⟨worded, text, run, rest, split, by simpa using offset, bad, viable.exists_parse⟩

/-- A sign alone is no number.  It is reported behind it, and the text before it
can be completed. -/
theorem parse_failure_viable_sign :
    ∃ e, parse (Bytes.ofString "[[],-]") = .failure e ∧ e.offset = 5 ∧
      ∃ text run rest, Bytes.ofString "[[],-]" = text ++ (run ++ rest) ∧
        e.offset = (text ++ run).length ∧ BadNumber text run rest ∧
        ∃ t v next, parse (text ++ t) = .success v next := by
  have failed : parse (Bytes.ofString "[[],-]") =
      .failure ⟨.worded (Bytes.ofString "invalid number \"-\""), false, 5⟩ := by
    rfl
  refine ⟨_, failed, rfl, ?_⟩
  rcases parse_failure_viable failed with ⟨worded, _⟩ | ⟨_, blamed⟩
  · exact absurd ⟨_, rfl⟩ worded
  · exact blamed

end JsonFit.Json
