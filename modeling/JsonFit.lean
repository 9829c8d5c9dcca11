import JsonFit.Capture
import JsonFit.Json.Datum
import JsonFit.Layout.Draft
import JsonFit.Main
import JsonFit.Proofs.Command.Lines
import JsonFit.Proofs.Cursor.Moves
import JsonFit.Proofs.Grammar.Alternatives
import JsonFit.Proofs.Grammar.Laws
import JsonFit.Proofs.Grammar.Lists
import JsonFit.Proofs.Grammar.Lossless
import JsonFit.Proofs.Grammar.Repetition
import JsonFit.Proofs.Grammar.Shift
import JsonFit.Proofs.Grammar.Surrounded
import JsonFit.Proofs.Json.Blame
import JsonFit.Proofs.Json.Breaks
import JsonFit.Proofs.Json.Lines
import JsonFit.Proofs.Json.Listing
import JsonFit.Proofs.Json.Nesting
import JsonFit.Proofs.Json.Progress
import JsonFit.Proofs.Json.Truncation
import JsonFit.Proofs.Json.Widening
import JsonFit.Proofs.Layout.Fit
