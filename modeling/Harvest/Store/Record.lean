import Harvest.FileName
import Harvest.Json.Printer

/-!
# Records

The result of a document, with the document it is from and the name it goes by.
-/

namespace Harvest

/-- The result of a document. -/
structure Record where
  /-- The path of the document. -/
  source : String
  name : String
  result : Members
deriving Inhabited

namespace Record

def ofResult (source : String) (result : Members) (name : Option String) : Record :=
  ⟨source, FileName.resultName source name, result⟩

def toJson (r : Record) : Json :=
  .map [("source", .str r.source), ("name", .str r.name), ("result", .map r.result)]

def line (r : Record) : String := Json.render {} r.toJson

/-- Records, each on a line of its own. -/
def lines (rs : List Record) : String := String.join (rs.map fun r => r.line ++ "\n")

end Record

end Harvest
