import Harvest.Files.System
import Harvest.Files.Wildcard

/-!
# Path patterns

A path pattern names the files below a directory whose names fit wildcards, one for each level.  Two
asterisks alone stand for any number of levels.  Names that start with a dot are only found by
wildcards that start with one, and never by two asterisks.
-/

namespace Harvest

/-- One level of a path pattern. -/
inductive Level
  | named (name : String)
  | wild (hidden : Bool) (pattern : Wildcard)
  /-- The directory itself and everything below it. -/
  | anyDepth
deriving DecidableEq, Repr

/-- A path pattern: a directory and the levels below it. -/
structure Glob where
  base : String
  levels : List Level
deriving DecidableEq, Repr

namespace Glob

def isHidden (name : String) : Bool := name.toList.head? == some '.'

/-- The level that a text between slashes writes. -/
def levelOf (s : String) : Level :=
  if s == "**" then .anyDepth
  else if Wildcard.hasSigns s then .wild (isHidden s) (Wildcard.ofString s)
  else .named s

/-- A directory without the slashes at its end; slashes alone stay. -/
def dropSlashes (cs : List Char) : List Char :=
  let kept := (cs.reverse.dropWhile (· == '/')).reverse
  if kept.isEmpty then cs else kept

/-- The text up to the last slash in front of any wildcard, and the text behind it. -/
def splitBase (cs : List Char) : List Char × List Char :=
  let fixed := cs.takeWhile (!Wildcard.isSign ·)
  let name := (fixed.reverse.takeWhile (· != '/')).reverse
  (fixed.take (fixed.length - name.length), name ++ cs.drop fixed.length)

/-- The pieces between slashes without the empty ones.  An empty piece at the end stays: what is in
front of it must be a directory. -/
def dropEmpty : List (List Char) → List (List Char)
  | [] => []
  | [piece] => [piece]
  | piece :: pieces => if piece.isEmpty then dropEmpty pieces else piece :: dropEmpty pieces

def levelsOf (cs : List Char) : List Level :=
  (dropEmpty (Path.splitSlashes cs)).map fun piece => levelOf (String.ofList piece)

def ofString (s : String) : Glob :=
  let (base, rest) := splitBase s.toList
  ⟨String.ofList (dropSlashes base), levelsOf rest⟩

/-- The path of a name in a directory; no directory at all is the working directory. -/
def within (dir name : String) : String :=
  if dir.isEmpty then name
  else if name.isEmpty then dir
  else if dir.toList.getLast? == some '/' then dir ++ name
  else dir ++ "/" ++ name

/-- The names in a directory that start with no dot. -/
def visibleNames (fs : FileSystem) (dir : String) : List String :=
  (fs.list (Path.ofString dir)).filter (!isHidden ·)

/-- A directory and everything below it, down to a depth. -/
def below (fs : FileSystem) : Nat → String → List String
  | 0, dir => [dir]
  | depth + 1, dir =>
    dir :: (visibleNames fs dir).flatMap fun name => below fs depth (within dir name)

/-- The depth below which nothing can be. -/
def deepest (fs : FileSystem) : Nat := (fs.entries.map (·.1.length)).foldl max 0

/-- What a level finds in a directory. -/
def step (fs : FileSystem) (dir : String) : Level → List String
  | .named name =>
    let p := within dir name
    if fs.contains (Path.ofString p) then [p] else []
  | .wild hidden pattern =>
    ((fs.list (Path.ofString dir)).filter fun name =>
      (hidden || !isHidden name) && Wildcard.fits pattern name.toList).map (within dir)
  | .anyDepth => below fs (deepest fs) dir

/-- What levels find below a directory.  Only directories are looked into. -/
def search (fs : FileSystem) : List Level → String → List String
  | [], dir => [dir]
  | level :: levels, dir =>
    if fs.isDirectory (Path.ofString dir) then
      (step fs dir level).flatMap (search fs levels)
    else []

/-- The files that fit the pattern, in the order of their paths. -/
def files (fs : FileSystem) (g : Glob) : List String :=
  ((search fs g.levels g.base).filter fun p => fs.isFile (Path.ofString p)).mergeSort
    fun a b => decide (a ≤ b)

end Glob

end Harvest
