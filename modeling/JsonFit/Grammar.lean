import JsonFit.Parser.Basic

/-!
# Grammars

A grammar is a description of a parser.  It is built from atoms, sequences,
choices and repetitions, and may call the rules of a family by name, which is
how recursion enters.  `eval` gives a grammar its meaning when the meaning of
the rules is known, and `run` ties the knot: rules may call each other to a
depth of at most `budget`, and a list with delimiters may be at most that long.
A larger budget never changes an outcome other than `exhausted`.
-/

namespace JsonFit

/-- Descriptions of parsers over a family of rules; `Result r` is the type of
the value of rule `r`. -/
inductive Grammar {Rule : Type} (Result : Rule → Type) : Type → Type 1 where
  /-- Exactly this text. -/
  | literal (text : Bytes) : Grammar Result Bytes
  /-- Exactly this character. -/
  | char (point : Int) : Grammar Result Int
  /-- The input before the first occurrence of a delimiter. -/
  | upTo (delimiter : Bytes) : Grammar Result Bytes
  /-- The end of the input. -/
  | finish : Grammar Result Unit
  /-- Nothing, with a value. -/
  | succeed {α : Type} (value : α) : Grammar Result α
  /-- A failure with a message. -/
  | fail {α : Type} (message : Bytes) : Grammar Result α
  /-- A broken precondition. -/
  | abort {α : Type} (fault : Fault) : Grammar Result α
  /-- A call of a rule. -/
  | rule (r : Rule) : Grammar Result (Result r)
  /-- The same input with another value. -/
  | map {α β : Type} (f : α → β) (p : Grammar Result α) : Grammar Result β
  /-- A sequence whose second part depends on the value of the first. -/
  | bind {α β : Type} (p : Grammar Result α) (f : α → Grammar Result β) : Grammar Result β
  /-- A sequence. -/
  | both {α β : Type} (p : Grammar Result α) (q : Grammar Result β) : Grammar Result (α × β)
  /-- A choice, first alternative first. -/
  | orElse {α : Type} (p q : Grammar Result α) : Grammar Result α
  /-- A part that fails as a whole. -/
  | attempt {α : Type} (p : Grammar Result α) : Grammar Result α
  /-- A part that may be absent. -/
  | optional {α : Type} (p : Grammar Result α) : Grammar Result (Option α)
  /-- A repetition. -/
  | many {α : Type} (p : Grammar Result α) : Grammar Result (List α)
  /-- A list with delimiters between the elements. -/
  | sepBy {α β : Type} (p : Grammar Result α) (delimiter : Grammar Result β) :
      Grammar Result (List α)

namespace Grammar

variable {Rule : Type} {Result : Rule → Type} {α β : Type}

/-- A sequence that keeps the second value. -/
def andThen (p : Grammar Result α) (q : Grammar Result β) : Grammar Result β :=
  map Prod.snd (both p q)

/-- A sequence that keeps the first value. -/
def skip (p : Grammar Result α) (q : Grammar Result β) : Grammar Result α :=
  map Prod.fst (both p q)

/-- A part with any amount of `space` on both sides. -/
def surroundedBy (p : Grammar Result α) (space : Grammar Result β) : Grammar Result α :=
  attempt (skip (andThen (many space) p) (many space))

/-- A part with any number of ASCII spaces on both sides. -/
def surroundedBySpaces (p : Grammar Result α) : Grammar Result α :=
  surroundedBy p (char 32)

/-- The first of several alternatives that succeeds; each fails as a whole.
There must be at least one. -/
def firstOf : List (Grammar Result α) → Grammar Result α
  | [] => abort .noAlternatives
  | p :: ps => ps.foldl (fun choice q => orElse choice (attempt q)) (attempt p)

/-- As `firstOf`, with the precondition checked while the grammar is built. -/
def firstOf? (ps : List (Grammar Result α)) : Except Fault (Grammar Result α) :=
  if ps.isEmpty then .error .noAlternatives else .ok (firstOf ps)

/-- The parser that a grammar describes, given parsers for the rules. -/
def eval (call : (r : Rule) → Parser (Result r)) (budget : Nat) :
    {α : Type} → Grammar Result α → Parser α
  | _, literal text => Parser.literal text
  | _, char point => Parser.char point
  | _, upTo delimiter => Parser.upTo delimiter
  | _, finish => Parser.finish
  | _, succeed value => Parser.succeed value
  | _, fail message => Parser.fail message
  | _, abort fault => Parser.abort fault
  | _, rule r => call r
  | _, map f p => Parser.map f (eval call budget p)
  | _, bind p f => Parser.bind (eval call budget p) fun value => eval call budget (f value)
  | _, both p q => Parser.both (eval call budget p) (eval call budget q)
  | _, orElse p q => Parser.orElse (eval call budget p) (eval call budget q)
  | _, attempt p => Parser.attempt (eval call budget p)
  | _, optional p => Parser.optional (eval call budget p)
  | _, many p => Parser.many (eval call budget p)
  | _, sepBy p delimiter =>
      Parser.sepBy budget (eval call budget p) (eval call budget delimiter)

/-- The parser of a rule, which may call rules to a depth of `budget`. -/
def callRule (rules : (r : Rule) → Grammar Result (Result r)) :
    (budget : Nat) → (r : Rule) → Parser (Result r)
  | 0, _ => fun _ => .exhausted
  | budget + 1, r => eval (callRule rules budget) budget (rules r)

/-- The parser of a grammar whose rules are given by `rules`. -/
def run (rules : (r : Rule) → Grammar Result (Result r)) (budget : Nat)
    (p : Grammar Result α) : Parser α :=
  eval (callRule rules budget) budget p

end Grammar

end JsonFit
