import Harvest.Text.Quoted

/-!
# File errors

What goes wrong with a file, and the path it goes wrong with.
-/

namespace Harvest

/-- What the system reports about a path. -/
inductive FileTrouble
  | missing
  | denied
  /-- Something has that path already. -/
  | taken
  | notDirectory
  | isDirectory
  | full
  | longName
  | notEmpty
deriving DecidableEq, Repr

namespace FileTrouble

def number : FileTrouble → Nat
  | missing => 2
  | denied => 13
  | taken => 17
  | notDirectory => 20
  | isDirectory => 21
  | full => 28
  | longName => 36
  | notEmpty => 39

def words : FileTrouble → String
  | missing => "No such file or directory"
  | denied => "Permission denied"
  | taken => "File exists"
  | notDirectory => "Not a directory"
  | isDirectory => "Is a directory"
  | full => "No space left on device"
  | longName => "File name too long"
  | notEmpty => "Directory not empty"

end FileTrouble

/-- Why nothing can be done with a path. -/
inductive FileError
  | trouble (trouble : FileTrouble) (path : String)
  /-- A path with the character zero names nothing. -/
  | brokenPath
deriving DecidableEq, Repr

namespace FileError

/-- Whether the path leads nowhere, so that nothing is there. -/
def isAbsence : FileError → Bool
  | trouble .missing _ => true
  | trouble .notDirectory _ => true
  | trouble _ _ => false
  | brokenPath => true

/-- Whether the system reports the error, not the path itself. -/
def isTrouble : FileError → Bool
  | trouble _ _ => true
  | brokenPath => false

def message : FileError → String
  | trouble t path => "[Errno " ++ toString t.number ++ "] " ++ t.words ++ ": " ++ Text.quoted path
  | brokenPath => "embedded null byte"

end FileError

end Harvest
