import Harvest.Config
import Harvest.Schema.Compile
import Harvest.Workplace

/-!
# Loading schemas

A schema is given as it is, as a JSON file, or as a page that an address answers with.
-/

namespace Harvest

inductive LoadError
  | schema (error : SchemaError)
  | file (path : String) (error : JsonFileError)

namespace LoadError

def message : LoadError → String
  | schema e => e.message
  | file path .absent => "Schema file not found: " ++ path
  | file _ e => e.message

/-- Whether the error is one that loading a schema is known to give: a fault of the schema, or of
the system that holds its file. -/
def isExpected : LoadError → Bool
  | schema _ => true
  | file _ .absent => true
  | file _ (.unreadable e) => e.isTrouble
  | file _ _ => false

end LoadError

namespace Schema

/-- Whether the status of a page says that there is no page. -/
def isFailure (status : Int) : Bool := 400 ≤ status && status < 600

/-- The value on the page of an address. -/
def fetch (pages : List (String × Page)) (address : String) : Except SchemaError Json :=
  match pages.lookup address with
  | none => .error (.notFetched address)
  | some page =>
    if isFailure page.status then .error (.notFetched address)
    else match Json.read page.body with
      | .ok v => .ok v
      | .error _ => .error (.notFetched address)

/-- The value in the schema file of a path. -/
def readFile (fs : FileSystem) (p : Path) : Except LoadError Json :=
  match fs.readJson p with
  | .ok v => .ok v
  | .error .malformed => .error (.schema (.notJson p.toString))
  | .error e => .error (.file p.toString e)

/-- The value that describes the schema of a source. -/
def describe (w : Workplace) : SchemaSource → Except LoadError Json
  | .inline members => .ok (.map members)
  | .named name =>
    if SchemaSource.isAddress name then (fetch w.pages name).mapError .schema
    else readFile w.files (Path.ofString name)

/-- What is noted when a schema is loaded. -/
def loadEvents : SchemaSource → List Event
  | .inline _ => []
  | .named name => if SchemaSource.isAddress name then [.fetching name] else []

def ofSource (w : Workplace) (source : SchemaSource) : Except LoadError Schema :=
  match describe w source with
  | .error e => .error e
  | .ok v => (compile v).mapError .schema

def load (source : SchemaSource) : Work (Except LoadError Schema) := do
  Work.noteAll (loadEvents source)
  return ofSource (← get) source

end Schema

end Harvest
