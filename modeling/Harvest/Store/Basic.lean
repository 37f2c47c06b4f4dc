import Harvest.Store.Documents
import Harvest.Store.Records

/-!
# Stores

A store takes results, in one of two ways.
-/

namespace Harvest

inductive Store
  | documents (store : DocumentStore)
  | records (store : RecordStore)

structure StoreOptions where
  indent : Option Int := some 2
  capacity : Int := 100

/-- Why there is no store. -/
inductive StoreError
  | unknownStrategy (name : String)
  | directory (error : FileError)
deriving DecidableEq, Repr

def StoreError.message : StoreError → String
  | unknownStrategy name => "Unsupported persistence strategy: " ++ name
  | directory e => e.message

namespace Store

/-- The stores by the name of their strategy. -/
def named (directory : Path) (options : StoreOptions) : List (String × Store) :=
  [("file_per_document", .documents { directory, indent := options.indent }),
    ("json_lines", .records
      { path := directory.join (Path.ofString RecordStore.fileName)
        capacity := options.capacity })]

/-- Opens a store in a directory, which is made if it is not there. -/
def create (strategy : String) (directory : Path) (options : StoreOptions) :
    Work (Except StoreError Store) := do
  match (named directory options).lookup strategy with
  | none => return .error (.unknownStrategy strategy)
  | some store => match ← Work.ensureDirectories directory with
    | .ok () => return .ok store
    | .error e => return .error (.directory e)

/-- Saves a result.  Gives the path where it is or will be; nothing, if it could not be written. -/
def save (store : Store) (source : String) (result : Members) (name : Option String) :
    Work (Except LostRecords (Option Path) × Store) := do
  match store with
  | .documents s =>
    let (p, s) ← s.save source result name
    return (.ok p, .documents s)
  | .records s =>
    let (r, s) ← s.save source result name
    return (r.map some, .records s)

def finish (store : Store) : Work (Except LostRecords Unit × Store) := do
  match store with
  | .documents s =>
    s.finish
    return (.ok (), .documents s)
  | .records s =>
    let (r, s) ← s.finish
    return (r, .records s)

end Store

end Harvest
