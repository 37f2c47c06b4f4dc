import Harvest.Batch.Basic

/-!
# Runs

A run reads the documents of items and saves what they hold.  Documents may be done in any order;
what is reported stands in the order of the items.  An item whose schema could not be loaded fails,
and so does one whose document gives an error that documents are known to give.  Any other error
breaks off the run.
-/

namespace Harvest.Batch

def extractor (b : Batch) (i : Item) : Extractor :=
  ⟨b.registry, i.scope.getD b.defaults.scope, b.defaults.language⟩

def extractDocument (b : Batch) (fs : FileSystem) (i : Item) (schema : Schema) :
    Except DocumentError Members :=
  match fs.readLossyText (Path.ofString i.path) with
  | .error e => .error (.file e)
  | .ok s => ((b.extractor i).extract schema (.text s)).mapError .extract

def saveResult (b : Batch) (i : Item) (result : Members) : Work (Option Finding × Batch) := do
  let (r, store) ← b.store.save i.path result (some i.outputName)
  let b := { b with store }
  match r with
  | .ok (some p) =>
    return (some ⟨⟨i.path, i.outputName, result⟩, p.toString⟩, b.countSaved i.path)
  | .ok none => return (none, b.countFailed)
  | .error lost => return (none, ← b.withdrawAll lost.sources)

/-- Reads the document of an item and saves what it holds. -/
def runItem (b : Batch) (i : Item) (schema : Schema) :
    Work (Except BatchError (Option Finding) × Batch) := do
  match b.extractDocument (← Work.files) i schema with
  | .ok [] =>
    Work.note (.nothingExtracted i.path)
    return (.ok none, b.countSkipped)
  | .ok result =>
    let (found, b) ← b.saveResult i result
    return (.ok found, b)
  | .error e =>
    if e.isExpected then
      Work.note (.documentLost i.path e.message)
      return (.ok none, b.countFailed)
    else return (.error (.document e), b)

/-- Counts the items whose schemas could not be loaded. -/
def failItems (b : Batch) : List Item → Work Batch
  | [] => return b
  | i :: is => do
    match b.schemaOf? i with
    | some (.error e) =>
      Work.note (.documentLost i.path e.message)
      failItems b.countFailed is
    | _ => failItems b is

/-- Runs the items at positions, in their order; gives what was found, by position. -/
def runItems (b : Batch) (items : List Item) :
    List Nat → Work (Except BatchError (List (Nat × Finding)) × Batch)
  | [] => return (.ok [], b)
  | n :: order => do
    -- Items whose schemas failed were counted before, and give nothing here.
    let item : Option Item := items[n]?
    match item.bind fun i => (b.schemaOf? i).map (i, ·) with
    | some (i, .ok schema) =>
      match ← b.runItem i schema with
      | (.error e, b) => return (.error e, b)
      | (.ok found, b) =>
        let (r, b) ← runItems b items order
        return (r.map fun rest => (found.map (n, ·)).toList ++ rest, b)
    | _ => runItems b items order

/-- What was found, in the order of the items. -/
def inItemOrder (items : List Item) (found : List (Nat × Finding)) : List Finding :=
  (List.range items.length).filterMap fun n => found.lookup n

/-- Runs items whose schemas are known.  The documents are done in the order of the given
positions. -/
def runLoaded (b : Batch) (items : List Item) (order : List Nat) :
    Work (Except BatchError (List Finding) × Batch) := do
  let b ← b.failItems items
  match ← b.runItems items order with
  | (.error e, b) => return (.error e, b)
  | (.ok found, b) =>
    -- A later write may have lost records whose findings were reported before it.
    let b := { b with findings := b.kept (inItemOrder items found) }
    Work.note (.finished b.stats.success b.stats.failed b.stats.skipped)
    return (.ok b.findings, b)

/-- Runs items.  The documents are done in the order of the given positions. -/
def run (b : Batch) (items : List Item) (order : List Nat) :
    Work (Except BatchError (List Finding) × Batch) := do
  if items.isEmpty then
    Work.note .nothingToDo
    return (.ok [], b)
  Work.note (.started items.length)
  let b := { b with stats.total := items.length }
  match ← b.loadSchemas items with
  | (.error e, b) => return (.error e, b)
  | (.ok (), b) => b.runLoaded items order

/-- The order in which documents are done one by one. -/
def oneByOne (items : List Item) : List Nat := List.range items.length

/-- Ends the work: writes what the store still holds back. -/
def finish (b : Batch) : Work (Except LostRecords Unit × Batch) := do
  let (r, store) ← b.store.finish
  let b := { b with store }
  match r with
  | .ok () => return (.ok (), b)
  | .error lost =>
    let b ← b.withdrawAll lost.sources
    return (.error lost, { b with findings := b.kept b.findings })

end Harvest.Batch
