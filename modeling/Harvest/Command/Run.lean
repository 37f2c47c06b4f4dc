import Harvest.Batch.Run
import Harvest.Command.Basic
import Harvest.Config.Documents

/-!
# Carrying out commands

A command ends with a status and prints a text.  Errors that documents and schemas are known to give
end it with a status of failure; the command for a batch ends so for every error.
-/

namespace Harvest

/-- How the program ends. -/
structure Ending where
  status : Nat
  printed : String := ""
deriving DecidableEq, Repr

/-- An error that the program does not expect. -/
inductive CommandError
  | schema (error : LoadError)
  | document (error : DocumentError)
  | output (error : FileError)

namespace CommandError

def message : CommandError → String
  | schema e => e.message
  | document e => e.message
  | output e => e.message

/-- Whether the error is one that schemas and documents are known to give. -/
def isExpected : CommandError → Bool
  | schema e => e.isExpected
  | document e => e.isExpected
  | output _ => false

end CommandError

namespace DocumentRequest

def markupOf (r : DocumentRequest) (input : String) (fs : FileSystem) : Except FileError String :=
  if r.document == "-" then .ok input else fs.readLossyText (Path.ofString r.document)

def extract (r : DocumentRequest) (input : String) : Work (Except CommandError Members) := do
  match ← Schema.load (.named r.schema) with
  | .error e => return .error (.schema e)
  | .ok schema => match r.markupOf input (← Work.files) with
    | .error e => return .error (.document (.file e))
    | .ok markup =>
      let x : Extractor := { scope := r.scope }
      return (x.extract schema (.text markup)).mapError fun e => .document (.extract e)

def textOf (r : DocumentRequest) (result : Members) : String :=
  Json.render { indent := if r.compact then none else some 2 } (.map result) ++ "\n"

/-- Prints a result or writes it to a file. -/
def put (r : DocumentRequest) (result : Members) : Work (Except CommandError Ending) := do
  let text := r.textOf result
  match r.output.filter (!·.isEmpty) with
  | none => return .ok ⟨0, text⟩
  | some output => match ← Work.writeText (Path.ofString output) .fresh text with
    | .error e => return .error (.output e)
    | .ok () =>
      Work.note (.fieldsSaved result.length output)
      return .ok ⟨0, ""⟩

def run (r : DocumentRequest) (input : String) : Work (Except CommandError Ending) := do
  match ← r.extract input with
  | .ok result => r.put result
  | .error e =>
    if e.isExpected then
      Work.note (.extractionFailed e.message)
      return .ok ⟨1, ""⟩
    else return .error e

end DocumentRequest

namespace BatchRequest

/-- Runs the items of a configuration, whose documents are done in the given order.  Gives the
reason if the run fails. -/
def runConfig (r : BatchRequest) (order : List Item → List Nat) (c : Config) :
    Work (Except String Unit) := do
  let directory := Path.ofString r.directory
  match ← Store.create c.strategy directory { indent := c.defaults.indent } with
  | .error e => return .error e.message
  | .ok store =>
    let b : Batch := { defaults := c.defaults, store }
    match ← b.run c.items (order c.items) with
    | (.error e, _) => return .error e.message
    | (.ok _, b) => match ← b.finish with
      | (.error e, _) => return .error e.message
      | (.ok (), b) =>
        Work.note (.summary b.stats.success b.stats.failed b.stats.skipped)
        return .ok ()

/-- Runs a batch, or only lists its documents.  Gives the reason if the run fails. -/
def attempt (r : BatchRequest) (homes : Homes) (order : List Item → List Nat) :
    Work (Except String Unit) := do
  match ← Config.load homes (Path.ofString r.config) with
  | .error e => return .error e.message
  | .ok c => match ← Work.ensureDirectories (Path.ofString r.directory) with
    | .error e => return .error e.message
    | .ok () =>
      if r.dryRun then
        Work.noteAll (c.items.map fun i => .planned i.path i.outputName)
        return .ok ()
      else r.runConfig order c

def run (r : BatchRequest) (homes : Homes) (order : List Item → List Nat) : Work Ending := do
  match ← r.attempt homes order with
  | .ok () => return ⟨0, ""⟩
  | .error reason =>
    Work.note (.runFailed reason)
    return ⟨1, ""⟩

end BatchRequest

namespace Command

/-- Carries out a command, where the documents of a batch are done in the given order and the
standard input holds a text. -/
def run (homes : Homes) (order : List Item → List Nat) (input : String) :
    Command → Work (Except CommandError Ending)
  | .document r => r.run input
  | .batch r => do return .ok (← r.run homes order)
  | .explain text => return .ok ⟨0, text⟩
  | .nothing => return .ok ⟨1, programHelp⟩
  | .misuse => return .ok ⟨2, ""⟩

end Command

end Harvest
