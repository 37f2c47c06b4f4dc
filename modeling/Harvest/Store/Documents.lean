import Harvest.FileName
import Harvest.Json.Printer
import Harvest.Workplace

/-!
# One file for each document

Results in files of their own.  A name that another result has already is told apart by a digest of
the document's path.
-/

namespace Harvest

/-- A result that is in a file. -/
structure SavedDocument where
  source : String
  path : Path
  /-- The number of characters in the file. -/
  size : Nat
deriving DecidableEq, Repr

/-- A directory of result files. -/
structure DocumentStore where
  directory : Path
  /-- Spaces for each level; without a number a result stands on one line. -/
  indent : Option Int := some 2
  saved : List SavedDocument := []

namespace DocumentStore

def extension : String := ".json"

def style (s : DocumentStore) : Json.Style := { indent := s.indent.map Int.toNat }

def contentOf (s : DocumentStore) (result : Members) : String := Json.render s.style (.map result)

def usedPaths (s : DocumentStore) : List Path := s.saved.map (·.path)

/-- A path with a digest of a source behind its name. -/
def tagged (p : Path) (source : String) : Path :=
  p.withName (p.stem ++ "_" ++ FileName.tag source ++ p.suffix)

def pathFor (s : DocumentStore) (source : String) (name : Option String) : Path :=
  let p := FileName.outputPath s.directory (FileName.resultName source name) source extension
  -- The tagged path is not looked up again: two results of one source share it.
  if s.usedPaths.contains p then tagged p source else p

/-- Writes a result to a file of its own; gives the path, or nothing if writing fails. -/
def save (s : DocumentStore) (source : String) (result : Members) (name : Option String) :
    Work (Option Path × DocumentStore) := do
  let p := s.pathFor source name
  let content := s.contentOf result
  match ← Work.writeText p .fresh content with
  | .ok () => return (some p, { s with saved := s.saved ++ [⟨source, p, content.length⟩] })
  | .error e =>
    Work.note (.resultNotWritten source e.message)
    return (none, s)

def finish (s : DocumentStore) : Work Unit := Work.note (.documentsStored s.saved.length)

end DocumentStore

end Harvest
