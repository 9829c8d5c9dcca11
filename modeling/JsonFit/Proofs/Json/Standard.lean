import JsonFit.Proofs.Json.RoundTrip
import JsonFit.Proofs.Json.Strung
import JsonFit.Proofs.Number.Standard

/-!
# Standard texts

The grammar of RFC 8259, and which fitted texts belong to it.  The reader is more
liberal than the standard: it keeps whatever stands between two quotation marks, and
whatever is kept is written again.  So a value that has been read is written as a
standard text exactly if the insides of its strings and keys are those of standard
strings.  Brackets, constants, white space and numbers are always written as they
should be.

The grammar relates a text to a value only by its shape and its strings: that is
what decides whether it is well-formed.
-/

namespace JsonFit.Json

open Layout (Doc Elem)
open Value (stringText)

variable {Body : Bytes → Prop} {α : Type} {Item : Bytes → α → Prop}

/-- The text is well-formed, with strings of a kind, and has the shape and the
strings of the value. -/
inductive Shapes (Body : Bytes → Prop) : Bytes → Value → Prop where
  /-- An array. -/
  | array {t : Bytes} {vs : List Value}
      (elements : Bracketed Ascii.openBracket Ascii.closeBracket (Shapes Body) t vs) :
      Shapes Body t (.array vs)
  /-- An object. -/
  | object {t : Bytes} {ms : List (Bytes × Value)}
      (members : Bracketed Ascii.openBrace Ascii.closeBrace
        (MemberText (Verbatim Body) (Shapes Body)) t ms) :
      Shapes Body t (.object ms)
  /-- A string. -/
  | string {raw : Bytes} (body : Body raw) : Shapes Body (stringText raw) (.string raw)
  /-- The null constant. -/
  | null : Shapes Body Value.nullText .null
  /-- A truth value. -/
  | bool (b : Bool) : Shapes Body (Value.boolText b) (.bool b)
  /-- A number; which one does not matter. -/
  | number {t : Bytes} {x : Binary64} (standard : Decimal.IsStandard t) : Shapes Body t (.number x)

/-- A JSON text by the standard. -/
def IsStandardText (s : Bytes) : Prop :=
  ∃ v, Spaced (Shapes StringBody) s v

/-- Every spelling of the document of a value has its shape. -/
theorem shapes_of_spells {v : Value} (conforms : v.Conforms Body) {t : Bytes}
    (spelled : v.elem.Spells t) : Shapes Body t v := by
  induction v using Value.induction generalizing t with
  | object members ih =>
      rw [Value.conforms_object_iff] at conforms
      cases members with
      | nil =>
          cases spelled
          exact .object (.empty blank_nil)
      | cons m ms =>
          rw [elem_object_cons, Elem.Spells] at spelled
          refine .object (bracketed_of_spells ?_ spelled)
          intro m' inside t spelled
          obtain ⟨body, value⟩ := conforms m' inside
          exact memberText_of_spells ⟨body, rfl⟩ (fun t => ih m' inside value) spelled
  | array elements ih =>
      rw [Value.conforms_array_iff] at conforms
      cases elements with
      | nil =>
          cases spelled
          exact .array (.empty blank_nil)
      | cons v vs =>
          rw [elem_array_cons, Elem.Spells] at spelled
          refine .array (bracketed_of_spells ?_ spelled)
          intro v' inside t spelled
          exact ih v' inside (conforms v' inside) (Doc.spells_singleton.mp spelled)
  | string raw =>
      cases spelled
      exact .string (Value.conforms_string_iff.mp conforms)
  | number x =>
      cases spelled
      exact .number (Decimal.isStandard_write (Value.conforms_number_iff.mp conforms))
  | bool b =>
      cases spelled
      exact .bool b
  | null =>
      cases spelled
      exact .null
  | missing => exact absurd conforms Value.not_conforms_missing

theorem Blank.isGap {w : Bytes} (blank : Blank w) : IsGap w := by
  intro b inside
  rcases blank b inside with rfl | rfl | rfl | rfl <;> decide

/-- Numbers are made of digits, signs, points and marks of exponents. -/
theorem mem_numberBytes_of_isStandard {t : Bytes} (standard : Decimal.IsStandard t) :
    ∀ b ∈ t, b ∈ Rules.numberBytes := by
  have ofDigits {t : Bytes} (digits : Decimal.IsDigits t) : ∀ b ∈ t, b ∈ Rules.numberBytes := by
    intro b inside
    exact mem_numberBytes_of_isNumeralByte (.inl (digits.2 b inside))
  obtain ⟨negative, _, ⟨whole, fraction, exponent, isWhole, isFraction, isExponent, rfl⟩, rfl⟩ :=
    standard
  have inFraction : ∀ b ∈ fraction, b ∈ Rules.numberBytes := by
    rcases isFraction with rfl | ⟨digits, isDigits, rfl⟩
    · exact List.forall_mem_nil _
    · exact List.forall_mem_cons.mpr ⟨by decide, ofDigits isDigits⟩
  have inExponent : ∀ b ∈ exponent, b ∈ Rules.numberBytes := by
    rcases isExponent with rfl | ⟨mark, sign, digits, isMark, isSign, isDigits, rfl⟩
    · exact List.forall_mem_nil _
    · have inMark : mark ∈ Rules.numberBytes := by rcases isMark with rfl | rfl <;> decide
      have inSign : ∀ b ∈ sign, b ∈ Rules.numberBytes := by
        rcases isSign with rfl | rfl | rfl
        · exact List.forall_mem_nil _
        · exact List.forall_mem_singleton.mpr (by decide)
        · exact List.forall_mem_singleton.mpr (by decide)
      exact List.forall_mem_cons.mpr
        ⟨inMark, List.forall_mem_append.mpr ⟨inSign, ofDigits isDigits⟩⟩
  have inUnsigned := List.forall_mem_append.mpr
    ⟨ofDigits isWhole.1, List.forall_mem_append.mpr ⟨inFraction, inExponent⟩⟩
  cases negative with
  | false => exact inUnsigned
  | true => exact List.forall_mem_cons.mpr ⟨by decide, inUnsigned⟩

/-- None of these bytes is a quotation mark or a backslash. -/
theorem isGap_of_isStandard {t : Bytes} (standard : Decimal.IsStandard t) : IsGap t := by
  have gap : IsGap Rules.numberBytes := by decide
  exact fun b inside => gap b (mem_numberBytes_of_isStandard standard b inside)

section Items

variable {stringsOf : α → List Bytes}

theorem Listed.strung {body : Bytes} {as : List α} (listed : Listed Item body as)
    (each : ∀ a ∈ as, ∀ t, Item t a → Strung Body t (stringsOf a)) :
    Strung Body body (as.flatMap stringsOf) := by
  have comma : IsGap [Ascii.comma] := by decide
  induction listed with
  | last item => simpa using each _ List.mem_cons_self _ item
  | @cons t w₁ w₂ rest a as item before behind _ ih =>
      obtain ⟨here, each⟩ := List.forall_mem_cons.mp each
      have gap := (before.isGap.append comma).append behind.isGap
      have strung := (here t item).append ((ih each).before gap)
      simpa using strung

theorem Bracketed.strung {opening closing : UInt8} {t : Bytes} {as : List α}
    (opens : IsGap [opening]) (closes : IsGap [closing])
    (bracketed : Bracketed opening closing Item t as)
    (each : ∀ a ∈ as, ∀ t, Item t a → Strung Body t (stringsOf a)) :
    Strung Body t (as.flatMap stringsOf) := by
  cases bracketed with
  | empty inside => exact .last ((opens.append inside.isGap).append closes)
  | @items w₁ body w₂ _ before listed behind =>
      have strung := ((listed.strung each).before (opens.append before.isGap)).behind
        (behind.isGap.append closes)
      simpa using strung

end Items

/-- A well-formed text holds the strings of its value. -/
theorem Shapes.strung {t : Bytes} {v : Value} (shapes : Shapes Body t v) :
    Strung Body t v.strings := by
  induction v using Value.induction generalizing t with
  | object members ih =>
      cases shapes with
      | object bracketed =>
          have stringsEq : (Value.object members).strings = _ := Value.memberStrings_eq_flatMap _
          rw [stringsEq]
          apply bracketed.strung (by decide) (by decide)
          rintro _ inside _ ⟨⟨body, rfl⟩, before, behind, value⟩
          have colon : IsGap [Ascii.colon] := by decide
          have gap := (before.isGap.append colon).append behind.isGap
          have strung := (Strung.of_string body).append ((ih _ inside value).before gap)
          simpa using strung
  | array elements ih =>
      cases shapes with
      | array bracketed =>
          have stringsEq : (Value.array elements).strings = _ := Value.elementStrings_eq_flatMap _
          rw [stringsEq]
          exact bracketed.strung (by decide) (by decide) fun v inside t => ih v inside
  | string raw =>
      cases shapes with
      | string body => exact .of_string body
  | number x =>
      cases shapes with
      | number standard => exact .last (isGap_of_isStandard standard)
  | bool b =>
      cases shapes
      cases b <;> exact .last (by decide)
  | null =>
      cases shapes
      exact .last (by decide)
  | missing => cases shapes

/-- A value without quotation marks in its strings is written as a standard text
exactly if its strings are standard. -/
theorem isStandardText_format_iff {v : Value} (expressible : v.Expressible) (width : Int) :
    IsStandardText (v.format width) ↔ ∀ raw ∈ v.strings, StringBody raw := by
  have spelled : v.elem.Spells (v.format width) :=
    Doc.spells_singleton.mp (Layout.spells_render width v.doc)
  constructor
  · rintro ⟨v', w₁, t, w₂, blank₁, shapes, blank₂, textEq⟩
    have standard := (shapes.strung.before blank₁.isGap).behind blank₂.isGap
    rw [← textEq] at standard
    have strung := (shapes_of_spells (Value.expressible_iff_conforms.mp expressible) spelled).strung
    rw [strung.unique standard]
    exact standard.forall_body
  · intro bodies
    have conforms : v.Conforms StringBody := ⟨expressible.complete, bodies, expressible.finite⟩
    exact ⟨v, .of_item (shapes_of_spells conforms spelled)⟩

/-- Whatever is read can be fitted to any width, and the result is a standard text
exactly if the insides of all strings and keys are standard. -/
theorem read_format_standard_iff {s : Bytes} {v : Value} {next : Cursor}
    (read : parse s = .success v next) {width : Int} (nonneg : 0 ≤ width) :
    v.format? width = .ok (v.format width) ∧
      (IsStandardText (v.format width) ↔ ∀ raw ∈ v.strings, StringBody raw) := by
  obtain ⟨_, _, _, _, derives, _, _⟩ := spaced_of_parse read
  have expressible := derives.expressible
  exact ⟨Value.format?_eq_ok expressible.complete nonneg,
    isStandardText_format_iff expressible width⟩

/-- A string with an escape that the standard knows, in an array that does not fit. -/
theorem read_format_standard_iff_escape :
    let v : Value := .array [.string (Bytes.ofString "\\n")]
    ∃ next, parse (Bytes.ofString "[\"\\n\"]") = .success v next ∧ (0 : Int) ≤ 1 ∧
      v.format? 1 = .ok (v.format 1) ∧ IsStandardText (v.format 1) := by
  intro v
  have string : Derives (stringText (Bytes.ofString "\\n")) (.string (Bytes.ofString "\\n")) :=
    .string (by decide)
  have derives : Derives (Bytes.ofString "[\"\\n\"]") v :=
    .array (.items blank_nil (.last string) blank_nil)
  have read := parse_of_spaced (.of_item derives)
  have letterN : StringBody (Bytes.ofString "\\n") := .letter (by decide) .nil
  obtain ⟨written, standardIff⟩ := read_format_standard_iff read (by decide : (0 : Int) ≤ 1)
  exact ⟨_, read, by decide, written, standardIff.mpr (List.forall_mem_singleton.mpr letterN)⟩

/-- A tab between the marks of a string is kept, and written as it is. -/
theorem not_isStandardText_format_tab :
    let raw := Bytes.ofString "a\tb"
    let s := Bytes.ofString "\"a\tb\""
    let v : Value := .string raw
    (∃ next, parse s = .success v next) ∧ v.format? 1 = .ok s ∧ ¬ IsStandardText s := by
  intro raw s v
  have unquoted : Ascii.quotationMark ∉ raw := by decide
  have derives : Derives s v := .string unquoted
  refine ⟨⟨_, parse_of_spaced (.of_item derives)⟩, rfl, fun standard => ?_⟩
  have bodies := (isStandardText_format_iff derives.expressible 1).mp standard
  have controls := (List.forall_mem_singleton.mp bodies).space_le
  exact absurd (controls Ascii.tab (by decide)) (by decide)

end JsonFit.Json
