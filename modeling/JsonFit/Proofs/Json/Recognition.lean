import JsonFit.Proofs.Json.Completeness
import JsonFit.Proofs.Json.Soundness

/-!
# Recognition of JSON texts

Reading accepts exactly the texts that have a derivation, and gives the tree of
the derivation.  A reader gives at most one tree, so no text has two of them.
-/

namespace JsonFit.Json

open Cursor (between)

/-- Whatever has a derivation is read, up to its end. -/
theorem parse_of_spaced {s : Bytes} {v : Value} (spaced : Spaced Derives s v) :
    parse s = .success v (between s []) :=
  Rules.document_of_spaced (Rules.callRule_complete _) spaced (Nat.lt_succ_self s.length)

/-- A text stands for one value at most. -/
theorem spaced_unique {s : Bytes} {v v' : Value} (spaced : Spaced Derives s v)
    (spaced' : Spaced Derives s v') : v = v' := by
  have read := parse_of_spaced spaced
  rw [parse_of_spaced spaced'] at read
  cases read
  rfl

/-- A text is read as a value exactly if the grammar derives it from that
value. -/
theorem parse_eq_success_iff (s : Bytes) (v : Value) :
    (∃ next, parse s = .success v next) ↔ Spaced Derives s v := by
  constructor
  · rintro ⟨next, read⟩
    exact spaced_of_parse read
  · intro spaced
    exact ⟨between s [], parse_of_spaced spaced⟩

end JsonFit.Json
