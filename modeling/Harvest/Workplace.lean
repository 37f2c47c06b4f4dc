import Harvest.Files.System
import Harvest.Journal
import Harvest.Json.Reader

/-!
# The workplace

Where work is done: files, pages that addresses answer with, and a journal of what happened.  Work
is a change of the workplace together with what comes out of it.
-/

namespace Harvest

/-- What an address answers with. -/
structure Page where
  status : Int := 200
  body : String
deriving DecidableEq, Repr

/-- Files, pages by address, and a journal. -/
structure Workplace where
  files : FileSystem
  pages : List (String × Page) := []
  journal : List Event := []

abbrev Work := StateM Workplace

namespace Work

def note (e : Event) : Work Unit := modify fun w => { w with journal := w.journal ++ [e] }

def noteAll (es : List Event) : Work Unit := modify fun w => { w with journal := w.journal ++ es }

def files : Work FileSystem := return (← get).files

def setFiles (fs : FileSystem) : Work Unit := modify fun w => { w with files := fs }

def writeText (p : Path) (opening : FileSystem.Opening) (s : String) :
    Work (Except FileError Unit) := do
  let (r, fs) := (← files).writeText p opening s
  setFiles fs
  return r

/-- Makes a directory with all that lead to it, if it is not there. -/
def ensureDirectories (p : Path) : Work (Except FileError Unit) := do
  match (← files).ensureDirectories p with
  | .ok fs =>
    setFiles fs
    return .ok ()
  | .error e => return .error e

end Work

/-! ## JSON files -/

/-- Why a file holds no JSON value. -/
inductive JsonFileError
  /-- There is nothing. -/
  | absent
  | unreadable (error : FileError)
  | undecodable
  | malformed
  | longInteger (digits : Nat)
deriving DecidableEq, Repr

namespace JsonFileError

/-- The error of a text that is no JSON value. -/
def ofReadError : Json.ReadError → JsonFileError
  | .malformed => malformed
  | .longInteger digits => longInteger digits

/-- An error in words, as far as it has any. -/
def message : JsonFileError → String
  | unreadable e => e.message
  | longInteger digits => "Exceeds the limit (" ++ toString Json.maxIntegerDigits ++
      " digits) for integer string conversion: value has " ++ toString digits ++
      " digits; use sys.set_int_max_str_digits() to increase the limit"
  | _ => ""

end JsonFileError

def FileSystem.readJson (fs : FileSystem) (p : Path) : Except JsonFileError Json :=
  match fs.readText p with
  | .error (.file e) => .error (if e.isAbsence then .absent else .unreadable e)
  | .error .undecodable => .error .undecodable
  | .ok s => (Json.read s).mapError JsonFileError.ofReadError

end Harvest
