import JsonFit.Json.Grammar
import JsonFit.Proofs.Json.Derivation
import JsonFit.Proofs.Parser.ByteClass

/-!
# The rules without recursion

White space, tokens, strings, constants and numbers.  For each of these rules:
which texts it takes, what it has taken when it has succeeded, and in front of
which texts it declines.
-/

namespace JsonFit.Json

open Cursor (between)
open Grammar (eval firstOf)
open JsonFit.Parser (Clear ReadsOne)
open Value (stringText)

/-! ## White space -/

theorem blank_iff {w : Bytes} : Blank w ↔ ∀ b ∈ w, isSpace b = true := by
  simp [Blank, isSpace, or_assoc]

theorem Blank.append {w₁ w₂ : Bytes} (first : Blank w₁) (second : Blank w₂) :
    Blank (w₁ ++ w₂) := by
  intro b member
  rcases List.mem_append.mp member with inFirst | inSecond
  · exact first b inFirst
  · exact second b inSecond

/-- Every text is white space and a text that does not begin with any. -/
theorem exists_blank (text : Bytes) :
    ∃ w rest, text = w ++ rest ∧ Blank w ∧ Clear isSpace rest := by
  obtain ⟨w, rest, split, inClass, clear⟩ := Parser.exists_run isSpace text
  exact ⟨w, rest, split, blank_iff.mpr inClass, clear⟩

/-- White space taken off in front of a byte that is none leaves white space in
front of it. -/
theorem Blank.exists_of_append_eq {w w₁ rest rest₁ : Bytes} {b : UInt8} (blank : Blank w)
    (notSpace : isSpace b = false) (split : w ++ rest = w₁ ++ b :: rest₁) :
    ∃ u, w₁ = w ++ u ∧ rest = u ++ b :: rest₁ := by
  rcases List.append_eq_append_iff.mp split with ⟨u, rfl, restEq⟩ | ⟨u, rfl, restEq⟩
  · exact ⟨u, rfl, restEq⟩
  · cases u with
    | nil => exact ⟨[], by simp, by simpa using restEq.symm⟩
    | cons b' u =>
        obtain ⟨rfl, _⟩ := List.cons.inj restEq
        have inSpace := blank_iff.mp blank b (by simp)
        rw [notSpace] at inSpace
        contradiction

namespace Rules

variable {call : Unit → Parser Value} {budget : Nat}

/-- The encoding of a character of ASCII is its byte. -/
theorem encodeInt_of_ascii {b : UInt8} (ascii : b < 0x80) : Utf8.encodeInt b.toNat = [b] := by
  have small : b.toNat < 0x80 := ascii
  have scalar : Utf8.isScalar b.toNat = true := by
    simp only [Utf8.isScalar, Bool.or_eq_true, decide_eq_true_eq]
    exact .inl (by omega)
  change Utf8.encode b.toNat = [b]
  simp [Utf8.encode, scalar, small]

theorem byte_readsOne {b : UInt8} (ascii : b < 0x80) :
    ReadsOne (eval call budget (byte b)) (· == b) where
  taken before b' rest here := by
    obtain rfl : b' = b := by simpa using here
    have taken := Parser.char_append before b'.toNat rest
    rw [encodeInt_of_ascii ascii] at taken
    exact taken
  declined before ahead clear := by
    rcases Parser.char_cases before b.toNat ahead with ⟨rest, rfl, _⟩ | ⟨cause, failed⟩
    · simp [encodeInt_of_ascii ascii] at clear
    · exact Parser.declines_of_failAt failed

private theorem foldl_readsOne {choice : Rules Int} {cls : UInt8 → Bool}
    (reads : ReadsOne (eval call budget choice) cls) {bs : Bytes} (ascii : ∀ b ∈ bs, b < 0x80) :
    ReadsOne (eval call budget
        ((bs.map byte).foldl (fun choice q => .orElse choice (.attempt q)) choice))
      fun b => cls b || bs.contains b := by
  induction bs generalizing choice cls with
  | nil => simpa only [List.map_nil, List.foldl_nil, List.contains_nil, Bool.or_false] using reads
  | cons b bs ih =>
      have first : ReadsOne (eval call budget (.orElse choice (.attempt (byte b))))
          fun b' => cls b' || b' == b :=
        reads.orElse (byte_readsOne (ascii b List.mem_cons_self)).attempt
      have others := ih first fun b' member => ascii b' (List.mem_cons_of_mem b member)
      simpa only [List.map_cons, List.foldl_cons, List.contains_cons, Bool.or_assoc] using others

/-- A choice between bytes reads one of them. -/
theorem firstOf_readsOne (bs : Bytes) (some : bs ≠ []) (ascii : ∀ b ∈ bs, b < 0x80) :
    ReadsOne (eval call budget (firstOf (bs.map byte))) bs.contains := by
  cases bs with
  | nil => contradiction
  | cons b bs =>
      have first : ReadsOne (eval call budget (.attempt (byte b))) (· == b) :=
        (byte_readsOne (ascii b List.mem_cons_self)).attempt
      have all := foldl_readsOne first fun b' member => ascii b' (List.mem_cons_of_mem b member)
      have sameClass : (b :: bs).contains = fun b' => b' == b || bs.contains b' :=
        funext fun _ => List.contains_cons
      rw [sameClass]
      exact all

theorem space_readsOne : ReadsOne (eval call budget space) isSpace := by
  have sameClass : [Ascii.space, Ascii.tab, Ascii.lineFeed, Ascii.carriageReturn].contains =
      isSpace := by
    funext b
    simp only [List.contains_cons, List.contains_nil, isSpace, Bool.or_assoc, Bool.or_false]
  rw [← sameClass]
  exact firstOf_readsOne [Ascii.space, Ascii.tab, Ascii.lineFeed, Ascii.carriageReturn]
    (List.cons_ne_nil _ _) (by decide +kernel)

theorem numberChar_readsOne : ReadsOne (eval call budget numberChar) numberBytes.contains :=
  firstOf_readsOne numberBytes (by decide) (by decide +kernel)

/-- White space is read to its end. -/
theorem many_space {w rest : Bytes} (blank : Blank w) (clear : Clear isSpace rest)
    (before : Bytes) :
    eval call budget (.many space) (between before (w ++ rest)) =
      .success (w.map fun b => (b.toNat : Int)) (between (before ++ w) rest) :=
  space_readsOne.many (blank_iff.mp blank) clear before

section Token

variable {b : UInt8} (ascii : b < 0x80)

include ascii

/-- A token declines where another byte stands behind the white space. -/
theorem token_declines {w rest : Bytes} (blank : Blank w) (clear : Clear isSpace rest)
    (other : Clear (· == b) rest) (before : Bytes) :
    (eval call budget (token b)).Declines (between before (w ++ rest)) := by
  have reads : ReadsOne (eval call budget (byte b)) (· == b) := byte_readsOne ascii
  rcases reads.declined (before ++ w) rest other with ⟨e, failed, _⟩
  exact Parser.declines_attempt (Grammar.eval_skip_of_failure
    (Grammar.eval_andThen_of_failure_second (many_space blank clear before) failed))

variable (notSpace : isSpace b = false)

include notSpace

/-- A token takes the white space on both sides. -/
theorem token_taken {w₁ w₂ rest : Bytes} (blank₁ : Blank w₁) (blank₂ : Blank w₂)
    (clear : Clear isSpace rest) (before : Bytes) :
    eval call budget (token b) (between before (w₁ ++ b :: (w₂ ++ rest))) =
      .success b.toNat (between (before ++ (w₁ ++ b :: w₂)) rest) := by
  have reads : ReadsOne (eval call budget (byte b)) (· == b) := byte_readsOne ascii
  have here := reads.taken (before ++ w₁) b (w₂ ++ rest) (by simp)
  have spaces : eval call budget (.many space) (between (before ++ w₁ ++ [b]) (w₂ ++ rest)) =
      .success (w₂.map fun b => (b.toNat : Int)) (between (before ++ (w₁ ++ b :: w₂)) rest) := by
    rw [many_space blank₂ clear]
    simp
  apply Parser.attempt_eq_success_iff.mpr
  exact Grammar.eval_skip_eq_success_iff.mpr ⟨_, _, Grammar.eval_andThen_eq_success_iff.mpr
    ⟨_, _, many_space blank₁ (by simpa using notSpace) before, here⟩, spaces⟩

/-- What a token has taken. -/
theorem token_success_cases {before ahead : Bytes} {point : Int} {next : Cursor}
    (succeeded : eval call budget (token b) (between before ahead) = .success point next) :
    ∃ w₁ w₂ rest, Blank w₁ ∧ Blank w₂ ∧ ahead = w₁ ++ b :: (w₂ ++ rest) ∧
      next = between (before ++ (w₁ ++ b :: w₂)) rest := by
  obtain ⟨w₁, rest₁, rfl, blank₁, clear₁⟩ := exists_blank ahead
  by_cases here : Clear (· == b) rest₁
  · obtain ⟨e, failed, _⟩ := token_declines ascii blank₁ clear₁ here before
    rw [succeeded] at failed
    contradiction
  · obtain ⟨rest₂, rfl⟩ : ∃ rest₂, rest₁ = b :: rest₂ := by
      cases rest₁ with
      | nil => simp at here
      | cons b' rest₂ => exact ⟨rest₂, by simpa using here⟩
    obtain ⟨w₂, rest, rfl, blank₂, clear₂⟩ := exists_blank rest₂
    rw [token_taken ascii notSpace blank₁ blank₂ clear₂] at succeeded
    cases succeeded
    exact ⟨w₁, w₂, rest, blank₁, blank₂, rfl, rfl⟩

end Token

theorem quote_readsOne :
    ReadsOne (eval call budget (byte Ascii.quotationMark)) (· == Ascii.quotationMark) :=
  byte_readsOne (by decide)

/-- A string is taken to its second quotation mark. -/
theorem quoted_taken {raw : Bytes} (unquoted : Ascii.quotationMark ∉ raw) (rest before : Bytes) :
    eval call budget quoted (between before (stringText raw ++ rest)) =
      .success raw (between (before ++ stringText raw) rest) := by
  have textEq : stringText raw ++ rest =
      Ascii.quotationMark :: (raw ++ Ascii.quotationMark :: rest) := by
    simp [stringText]
  have nextEq : before ++ stringText raw =
      before ++ [Ascii.quotationMark] ++ raw ++ [Ascii.quotationMark] := by
    simp [stringText]
  have reads : ReadsOne (eval call budget (byte Ascii.quotationMark)) (· == Ascii.quotationMark) :=
    quote_readsOne
  have opened := reads.taken before Ascii.quotationMark (raw ++ Ascii.quotationMark :: rest) rfl
  have inside := Parser.upTo_singleton (before ++ [Ascii.quotationMark]) Ascii.quotationMark raw
    rest unquoted
  have closed := reads.taken (before ++ [Ascii.quotationMark] ++ raw) Ascii.quotationMark rest rfl
  rw [textEq, nextEq]
  exact Grammar.eval_skip_eq_success_iff.mpr ⟨_, _,
    Grammar.eval_andThen_eq_success_iff.mpr ⟨_, _, opened, inside⟩, closed⟩

theorem quoted_declines {ahead : Bytes} (other : Clear (· == Ascii.quotationMark) ahead)
    (before : Bytes) : (eval call budget quoted).Declines (between before ahead) :=
  Grammar.declines_skip (Grammar.declines_andThen (quote_readsOne.declined before ahead other) _) _

/-- What a string has taken. -/
theorem quoted_success_cases {before ahead raw : Bytes} {next : Cursor}
    (succeeded : eval call budget quoted (between before ahead) = .success raw next) :
    ∃ rest, Ascii.quotationMark ∉ raw ∧ ahead = stringText raw ++ rest ∧
      next = between (before ++ stringText raw) rest := by
  by_cases other : Clear (· == Ascii.quotationMark) ahead
  · obtain ⟨e, failed, _⟩ := quoted_declines other before
    rw [succeeded] at failed
    contradiction
  · obtain ⟨ahead', rfl⟩ : ∃ ahead', ahead = Ascii.quotationMark :: ahead' := by
      cases ahead with
      | nil => simp at other
      | cons b ahead' => exact ⟨ahead', by simpa using other⟩
    obtain ⟨middle, _, inside, closed⟩ := Grammar.eval_skip_eq_success_iff.mp succeeded
    obtain ⟨_, middle', opened, untilQuote⟩ := Grammar.eval_andThen_eq_success_iff.mp inside
    rw [quote_readsOne.taken before Ascii.quotationMark ahead' rfl] at opened
    cases opened
    rcases Parser.upTo_singleton_cases (before ++ [Ascii.quotationMark]) Ascii.quotationMark
      ahead' with ⟨passed, rest, rfl, unquoted, taken⟩ | ⟨cause, failed⟩
    · rw [eval, taken] at untilQuote
      cases untilQuote
      have textEq : Ascii.quotationMark :: (raw ++ Ascii.quotationMark :: rest) =
          stringText raw ++ rest := by
        simp [stringText]
      rw [textEq, quoted_taken unquoted rest before] at succeeded
      cases succeeded
      exact ⟨rest, unquoted, textEq, rfl⟩
    · rw [eval, failed] at untilQuote
      contradiction

/-! ## Numbers -/

/-- The characters of a run stand for its bytes. -/
private theorem flatMap_encodeInt {run : Bytes} (characters : ∀ b ∈ run, b ∈ numberBytes) :
    (run.map fun b => (b.toNat : Int)).flatMap Utf8.encodeInt = run := by
  have ascii : ∀ b ∈ numberBytes, b < 0x80 := by decide +kernel
  induction run with
  | nil => rfl
  | cons b run ih =>
      rw [List.map_cons, List.flatMap_cons,
        encodeInt_of_ascii (ascii b (characters b List.mem_cons_self)),
        ih fun b' member => characters b' (List.mem_cons_of_mem b member)]
      rfl

theorem many_numberChar {run rest : Bytes} (characters : ∀ b ∈ run, b ∈ numberBytes)
    (clear : Clear numberBytes.contains rest) (before : Bytes) :
    eval call budget (.many numberChar) (between before (run ++ rest)) =
      .success (run.map fun b => (b.toNat : Int)) (between (before ++ run) rest) :=
  numberChar_readsOne.many (by simpa using characters) clear before

/-- The run of number characters ahead decides what a number is. -/
theorem numberOf_map {run : Bytes} (some : run ≠ []) (characters : ∀ b ∈ run, b ∈ numberBytes) :
    numberOf (run.map fun b => (b.toNat : Int)) =
      (Decimal.read? run).elim (.fail (Bytes.ofString "invalid number " ++ Text.quoted run))
        fun x => .succeed (.number x) := by
  simp only [numberOf, List.isEmpty_map, List.isEmpty_iff, some, if_false,
    flatMap_encodeInt characters]
  cases Decimal.read? run <;> rfl

theorem numberValue_taken {run rest : Bytes} {x : Binary64} (some : run ≠ [])
    (characters : ∀ b ∈ run, b ∈ numberBytes) (denotes : Decimal.read? run = Option.some x)
    (clear : Clear numberBytes.contains rest) (before : Bytes) :
    eval call budget numberValue (between before (run ++ rest)) =
      .success (.number x) (between (before ++ run) rest) := by
  apply Parser.bind_eq_success_iff.mpr
  refine ⟨_, _, many_numberChar characters clear before, ?_⟩
  rw [numberOf_map some characters, denotes]
  rfl

theorem numberValue_declines {ahead : Bytes} (clear : Clear numberBytes.contains ahead)
    (before : Bytes) : (eval call budget numberValue).Declines (between before ahead) := by
  have noneRead : eval call budget (.many numberChar) (between before ([] ++ ahead)) = _ :=
    many_numberChar (List.forall_mem_nil _) clear before
  rw [List.nil_append, List.append_nil] at noneRead
  exact Parser.declines_bind noneRead rfl (Parser.declines_of_failAt rfl)

/-- What a number has taken. -/
theorem numberValue_success_cases {before ahead : Bytes} {v : Value} {next : Cursor}
    (succeeded : eval call budget numberValue (between before ahead) = .success v next) :
    ∃ run rest x, run ≠ [] ∧ (∀ b ∈ run, b ∈ numberBytes) ∧ Decimal.read? run = some x ∧
      v = .number x ∧ ahead = run ++ rest ∧ next = between (before ++ run) rest := by
  obtain ⟨run, rest, rfl, inClass, clear⟩ := Parser.exists_run numberBytes.contains ahead
  have characters : ∀ b ∈ run, b ∈ numberBytes := by simpa using inClass
  obtain ⟨_, _, taken, decided⟩ := Parser.bind_eq_success_iff.mp succeeded
  rw [many_numberChar characters clear before] at taken
  cases taken
  by_cases some : run = []
  · subst some
    obtain ⟨e, failed, _⟩ := numberValue_declines clear before
    rw [List.nil_append, failed] at succeeded
    cases succeeded
  · rw [numberOf_map some characters] at decided
    cases denotes : Decimal.read? run with
    | none =>
        rw [denotes] at decided
        contradiction
    | some x =>
        rw [denotes] at decided
        cases decided
        exact ⟨run, rest, x, some, characters, denotes, rfl, rfl, rfl⟩

end Rules

end JsonFit.Json
