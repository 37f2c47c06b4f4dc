import Harvest.Config
import Harvest.Schema.Load
import Harvest.Store.Basic

/-!
# Batches

A batch reads many documents and stores what it finds.  It counts what became of every document,
keeps every schema it has loaded, and knows which results are in the store or held back by it.
-/

namespace Harvest

/-- How many documents there are, and what became of them. -/
structure Stats where
  total : Int := 0
  success : Int := 0
  failed : Int := 0
  skipped : Int := 0
deriving DecidableEq, Repr

/-- Why a document gives no result. -/
inductive DocumentError
  | file (error : FileError)
  | extract (error : ExtractError)

namespace DocumentError

def message : DocumentError → String
  | file e => e.message
  | extract e => e.message

/-- Whether the error is one that documents are known to give. -/
def isExpected : DocumentError → Bool
  | file e => e.isTrouble
  | extract e => e.isExpected

end DocumentError

/-- Why a run breaks off. -/
inductive BatchError
  | schema (error : LoadError)
  | document (error : DocumentError)

def BatchError.message : BatchError → String
  | schema e => e.message
  | document e => e.message

/-- What was found in a document, and where it is stored. -/
structure Finding where
  record : Record
  path : String
deriving Inhabited

/-- A batch between runs. -/
structure Batch where
  defaults : Defaults
  store : Store
  registry : Registry := .standard
  findings : List Finding := []
  stats : Stats := {}
  /-- The schemas that were loaded, or why they could not be, by the keys of their sources. -/
  schemas : List (String × Except LoadError Schema) := []
  /-- The documents whose results the store has. -/
  saved : List String := []

namespace Batch

/-! ## Counting -/

def countFailed (b : Batch) : Batch := { b with stats.failed := b.stats.failed + 1 }

def countSkipped (b : Batch) : Batch := { b with stats.skipped := b.stats.skipped + 1 }

/-- The store has the result of a document. -/
def countSaved (b : Batch) (source : String) : Batch :=
  { b with
    stats.success := b.stats.success + 1
    saved := if b.saved.contains source then b.saved else b.saved ++ [source] }

/-- The store has lost the result of a document. -/
def withdraw (b : Batch) (source : String) : Batch :=
  if b.saved.contains source then
    { b with
      stats.success := b.stats.success - 1
      stats.failed := b.stats.failed + 1
      saved := b.saved.filter (· != source) }
  else b.countFailed

/-- The store has lost the results of documents. -/
def withdrawAll (b : Batch) (sources : List String) : Work Batch := do
  Work.noteAll (sources.map .resultLost)
  return sources.foldl withdraw b

/-- The findings that the store still has. -/
def kept (b : Batch) (found : List Finding) : List Finding :=
  found.filter fun f => b.saved.contains f.record.source

/-! ## Schemas -/

/-- The sources of items whose keys are not known yet, each once. -/
def newSources : List String → List Item → List (String × SchemaSource)
  | _, [] => []
  | known, i :: is =>
    let key := i.schema.key
    if known.contains key then newSources known is
    else (key, i.schema) :: newSources (key :: known) is

def loadAll : List (String × SchemaSource) → Work (List (String × Except LoadError Schema))
  | [] => return []
  | (key, source) :: rest => do
    let schema ← Schema.load source
    return (key, schema) :: (← loadAll rest)

def shortKey (key : String) : String := String.ofList (key.toList.take 80)

/-- Keeps loaded schemas, with the errors that are known to arise; breaks off at any other. -/
def keepSchemas (b : Batch) :
    List (String × Except LoadError Schema) → Work (Except BatchError Unit × Batch)
  | [] => return (.ok (), b)
  | (key, schema) :: rest => do
    let kept := { b with schemas := b.schemas ++ [(key, schema)] }
    match schema with
    | .ok _ => keepSchemas kept rest
    | .error e =>
      if e.isExpected then
        Work.note (.schemaLost (shortKey key) e.message)
        keepSchemas kept rest
      -- The schema of the error is not kept, so a later run loads it again.
      else return (.error (.schema e), b)

/-- Loads the schemas of items that are not known yet. -/
def loadSchemas (b : Batch) (items : List Item) : Work (Except BatchError Unit × Batch) := do
  let loaded ← loadAll (newSources (b.schemas.map (·.1)) items)
  b.keepSchemas loaded

def schemaOf? (b : Batch) (i : Item) : Option (Except LoadError Schema) :=
  b.schemas.lookup i.schema.key

end Batch

end Harvest
