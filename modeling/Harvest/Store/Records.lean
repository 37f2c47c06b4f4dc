import Harvest.Store.Record
import Harvest.Workplace

/-!
# One file for all records

Records are held back until there are enough of them and then written together, one line each.  The
first records that are written replace what the file held before.  Records that cannot be written
are lost, and only their sources are kept.
-/

namespace Harvest

structure LostRecords where
  path : Path
  error : FileError
  sources : List String
deriving DecidableEq, Repr

def LostRecords.message (l : LostRecords) : String :=
  "Failed to write " ++ l.path.toString ++ ": " ++ l.error.message

/-- A file of records. -/
structure RecordStore where
  path : Path
  /-- How many records are held back before they are written. -/
  capacity : Int := 100
  buffer : List Record := []
  /-- The records that were written together, batch by batch. -/
  batches : List (List Record) := []
  /-- The sources of the lost records. -/
  failed : List String := []

namespace RecordStore

/-- The name of the file of records. -/
def fileName : String := "results.jsonl"

/-- The number of characters that records take in the file. -/
def sizeOf (batch : List Record) : Nat := (batch.map (·.line.length + 1)).foldr (· + ·) 0

/-- How the file is opened for the next batch. -/
def opening (s : RecordStore) : FileSystem.Opening := if s.batches.isEmpty then .fresh else .behind

def flush (s : RecordStore) : Work (Except LostRecords Unit × RecordStore) := do
  if s.buffer.isEmpty then return (.ok (), s)
  match ← Work.writeText s.path s.opening (Record.lines s.buffer) with
  | .ok () =>
    Work.note (.recordsWritten s.buffer.length s.path.toString)
    return (.ok (), { s with buffer := [], batches := s.batches ++ [s.buffer] })
  | .error e =>
    Work.note (.recordsNotWritten s.buffer.length s.path.toString e.message)
    let sources := s.buffer.map (·.source)
    return (.error ⟨s.path, e, sources⟩, { s with buffer := [], failed := s.failed ++ sources })

/-- The store with one more record held back. -/
def push (s : RecordStore) (r : Record) : RecordStore := { s with buffer := s.buffer ++ [r] }

def isFull (s : RecordStore) : Bool := s.capacity ≤ s.buffer.length

/-- Holds a result back and writes, if it is time; gives the path of the file. -/
def save (s : RecordStore) (source : String) (result : Members) (name : Option String) :
    Work (Except LostRecords Path × RecordStore) := do
  -- A record counts as saved while it is only held back; a later write may still lose it.
  let s := s.push (Record.ofResult source result name)
  if s.isFull then
    let (r, s) ← s.flush
    return (r.map fun () => s.path, s)
  else return (.ok s.path, s)

def finish (s : RecordStore) : Work (Except LostRecords Unit × RecordStore) := do
  Work.note .lastFlush
  match ← s.flush with
  | (.ok (), s) =>
    Work.note (.batchesStored s.batches.length)
    return (.ok (), s)
  | (.error e, s) => return (.error e, s)

end RecordStore

end Harvest
