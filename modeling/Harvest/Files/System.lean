import Harvest.Files.Error
import Harvest.Path
import Harvest.Text.Utf8

/-!
# File systems

Files and directories by place, where a place is the list of names that leads there from the root.
A path is walked from the working directory part by part: whatever a part is looked up in must be a
directory, and a double dot leaves it.

Writing may fail for reasons that no file system shows beforehand.  A file system therefore carries
what befalls the next files that are opened for writing.
-/

namespace Harvest

/-- The names that lead to a file or directory from the root. -/
abbrev Place := List String

/-- What is at a place. -/
inductive Stored
  | file (content : ByteArray)
  | directory
deriving Inhabited

namespace Stored

def isDirectory : Stored → Bool
  | directory => true
  | file _ => false

/-- Whether two are the same: two directories, or two files with the same bytes. -/
def same : Stored → Stored → Bool
  | file a, file b => a.toList == b.toList
  | directory, directory => true
  | _, _ => false

end Stored

/-- Files and directories, seen from a working directory. -/
structure FileSystem where
  here : Place
  entries : List (Place × Stored)
  /-- What befalls the next files that are opened for writing; nothing, once the list is used up. -/
  mishaps : List (Option FileTrouble) := []

namespace FileSystem

def maxNameBytes : Nat := 255

/-- A file system with nothing but a working directory and the ones above it. -/
def bare (here : Place) : FileSystem :=
  ⟨here, (List.range here.length).map fun n => (here.take (n + 1), .directory), []⟩

/-- What is at a place; the root is always there. -/
def at? (fs : FileSystem) (place : Place) : Option Stored :=
  if place = [] then some .directory else fs.entries.lookup place

def put (fs : FileSystem) (place : Place) (s : Stored) : FileSystem :=
  { fs with entries := (place, s) :: fs.entries.filter fun e => e.1 != place }

def erase (fs : FileSystem) (place : Place) : FileSystem :=
  { fs with entries := fs.entries.filter fun e => e.1 != place }

/-- Whether there is a directory at a place, and what is wrong if there is none. -/
def needDirectory (fs : FileSystem) (place : Place) : Except FileTrouble Unit :=
  match fs.at? place with
  | some .directory => .ok ()
  | some (.file _) => .error .notDirectory
  | none => .error .missing

/-- The place that parts lead to from another place.  Nothing needs to be there. -/
def walk (fs : FileSystem) (place : Place) : List String → Except FileTrouble Place
  | [] => .ok place
  | part :: parts =>
    match fs.needDirectory place with
    | .error t => .error t
    | .ok () =>
      if maxNameBytes < part.utf8ByteSize then .error .longName
      else walk fs (Path.walk place part) parts

/-- The place that a path leads to. -/
def locate (fs : FileSystem) (p : Path) : Except FileError Place :=
  if p.parts.any (·.contains '\x00') then .error .brokenPath
  else (fs.walk (if p.isAbsolute then [] else fs.here) p.parts).mapError (.trouble · p.toString)

def find (fs : FileSystem) (p : Path) : Except FileError Stored :=
  match fs.locate p with
  | .error e => .error e
  | .ok place => match fs.at? place with
    | some s => .ok s
    | none => .error (.trouble .missing p.toString)

def isFile (fs : FileSystem) (p : Path) : Bool :=
  match fs.find p with
  | .ok (.file _) => true
  | _ => false

def isDirectory (fs : FileSystem) (p : Path) : Bool :=
  match fs.find p with
  | .ok .directory => true
  | _ => false

def contains (fs : FileSystem) (p : Path) : Bool :=
  match fs.find p with
  | .ok _ => true
  | .error _ => false

def namesIn (fs : FileSystem) (place : Place) : List String :=
  fs.entries.filterMap fun e =>
    if e.1.dropLast = place then e.1.getLast? else none

/-- The names in the directory of a path; none if there is no directory. -/
def list (fs : FileSystem) (p : Path) : List String :=
  match fs.locate p with
  | .ok place => if (fs.at? place).any Stored.isDirectory then fs.namesIn place else []
  | .error _ => []

/-! ## Reading -/

def read (fs : FileSystem) (p : Path) : Except FileError ByteArray :=
  match fs.find p with
  | .ok (.file content) => .ok content
  | .ok .directory => .error (.trouble .isDirectory p.toString)
  | .error e => .error e

/-! ## Writing -/

/-- How a file is opened for writing. -/
inductive Opening
  /-- What the file held before is lost. -/
  | fresh
  /-- What is written stands behind what the file held before. -/
  | behind
deriving DecidableEq, Repr

def written (opening : Opening) (content : ByteArray) : Option Stored → ByteArray
  | some (.file before) => match opening with
    | .fresh => content
    | .behind => before ++ content
  | _ => content

/-- Writes a file, if nothing befalls it. -/
def place (fs : FileSystem) (p : Path) (opening : Opening) (content : ByteArray) :
    Except FileError FileSystem :=
  match fs.locate p with
  | .error e => .error e
  | .ok place => match fs.at? place with
    | some .directory => .error (.trouble .isDirectory p.toString)
    | s => .ok (fs.put place (.file (written opening content s)))

def write (fs : FileSystem) (p : Path) (opening : Opening) (content : ByteArray) :
    Except FileError Unit × FileSystem :=
  let rest := { fs with mishaps := fs.mishaps.tail }
  match fs.mishaps with
  | some t :: _ => (.error (.trouble t p.toString), rest)
  | _ => match rest.place p opening content with
    | .ok fs => (.ok (), fs)
    | .error e => (.error e, rest)

/-- Makes a directory in one that is there. -/
def makeDirectory (fs : FileSystem) (p : Path) : Except FileError FileSystem :=
  match fs.locate p with
  | .error e => .error e
  | .ok place => match fs.at? place with
    | some _ => .error (.trouble .taken p.toString)
    | none => match fs.needDirectory place.dropLast with
      | .ok () => .ok (fs.put place .directory)
      | .error t => .error (.trouble t p.toString)

/-- Makes a directory in one that is there, or leaves the one that is there already. -/
def ensureDirectory (fs : FileSystem) (p : Path) : Except FileError FileSystem :=
  match fs.makeDirectory p with
  | .ok fs => .ok fs
  | .error e => if fs.isDirectory p then .ok fs else .error e

/-- Makes a directory with all that lead to it, given the names from the last one on; those that
are there already stay. -/
def ensureFrom (fs : FileSystem) (anchor : Anchor) : List String → Except FileError FileSystem
  | [] => fs.ensureDirectory ⟨anchor, []⟩
  | name :: above =>
    let p : Path := ⟨anchor, (name :: above).reverse⟩
    match fs.makeDirectory p with
    | .ok fs => .ok fs
    | .error (.trouble .missing _) => match ensureFrom fs anchor above with
      | .ok fs => fs.ensureDirectory p
      | .error e => .error e
    | .error e => if fs.isDirectory p then .ok fs else .error e

/-- Makes a directory with all that lead to it, if it is not there. -/
def ensureDirectories (fs : FileSystem) (p : Path) : Except FileError FileSystem :=
  fs.ensureFrom p.anchor p.parts.reverse

/-- Makes a directory that is not there yet, with all that lead to it. -/
def makeDirectories (fs : FileSystem) (p : Path) : Except FileError FileSystem :=
  match fs.makeDirectory p with
  | .error (.trouble .missing _) => match fs.ensureDirectories p.parent with
    | .ok fs => fs.makeDirectory p
    | .error e => .error e
  | r => r

def removeDirectory (fs : FileSystem) (p : Path) : Except FileError FileSystem :=
  match fs.locate p with
  | .error e => .error e
  | .ok place => match fs.at? place with
    | none => .error (.trouble .missing p.toString)
    | some (.file _) => .error (.trouble .notDirectory p.toString)
    | some .directory =>
      if (fs.namesIn place).isEmpty then .ok (fs.erase place)
      else .error (.trouble .notEmpty p.toString)

end FileSystem

/-! ## Text files -/

namespace Text

/-- The characters of a text file, where every way to end a line is one line feed. -/
def oneLineEnd : List Char → List Char
  | '\r' :: '\n' :: r => '\n' :: oneLineEnd r
  | '\r' :: r => '\n' :: oneLineEnd r
  | c :: r => c :: oneLineEnd r
  | [] => []

/-- The text with one line feed for every end of a line. -/
def unifyLines (s : String) : String := String.ofList (oneLineEnd s.toList)

end Text

/-- Why a text file cannot be read. -/
inductive TextError
  | file (error : FileError)
  /-- Bytes that are no text. -/
  | undecodable
deriving DecidableEq, Repr

namespace FileSystem

def readText (fs : FileSystem) (p : Path) : Except TextError String :=
  match fs.read p with
  | .error e => .error (.file e)
  | .ok content => match Text.readUtf8? content with
    | some s => .ok (Text.unifyLines s)
    | none => .error .undecodable

/-- The text of a file, with the replacement character for bytes that are no text. -/
def readLossyText (fs : FileSystem) (p : Path) : Except FileError String :=
  (fs.read p).map fun content => Text.unifyLines (Text.readLossy content)

def writeText (fs : FileSystem) (p : Path) (opening : Opening) (s : String) :
    Except FileError Unit × FileSystem :=
  fs.write p opening s.toUTF8

end FileSystem

end Harvest
