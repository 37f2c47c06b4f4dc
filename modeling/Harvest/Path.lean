/-!
# File paths

A path is an anchor and a list of named parts.  Empty parts and single dots vanish when a path is
read; double dots stay.  Exactly two slashes at the start are an anchor of their own.
-/

namespace Harvest

/-- Where a path starts. -/
inductive Anchor
  | relative
  | root
  | doubleRoot
deriving DecidableEq, Repr, Inhabited

def Anchor.text : Anchor → String
  | .relative => ""
  | .root => "/"
  | .doubleRoot => "//"

structure Path where
  anchor : Anchor
  parts : List String
deriving DecidableEq, Repr, Inhabited

namespace Path

/-- The anchor that a text starts with. -/
def anchorOf : List Char → Anchor
  | '/' :: '/' :: '/' :: _ => .root
  | '/' :: '/' :: _ => .doubleRoot
  | '/' :: _ => .root
  | _ => .relative

def splitSlashes : List Char → List (List Char)
  | [] => [[]]
  | '/' :: r => [] :: splitSlashes r
  | c :: r => match splitSlashes r with
    | p :: ps => (c :: p) :: ps
    | [] => [[c]]

/-- Whether a piece between slashes names something. -/
def isPart (piece : List Char) : Bool := piece != [] && piece != ['.']

def ofString (s : String) : Path :=
  ⟨anchorOf s.toList, ((splitSlashes s.toList).filter isPart).map String.ofList⟩

/-- The text of a path; the empty relative path is a dot. -/
def toString (p : Path) : String :=
  match p.anchor, p.parts with
  | .relative, [] => "."
  | anchor, parts => anchor.text ++ String.intercalate "/" parts

instance : ToString Path := ⟨toString⟩

def isAbsolute (p : Path) : Bool := p.anchor != .relative

/-- A path inside another one; an absolute path stays itself. -/
def join (base p : Path) : Path :=
  if p.isAbsolute then p else ⟨base.anchor, base.parts ++ p.parts⟩

def parent (p : Path) : Path := { p with parts := p.parts.dropLast }

/-- The last part, empty if there is none. -/
def name (p : Path) : String := p.parts.getLast?.getD ""

/-- The number of characters in front of the extension of a file name.  A dot at either end of the
name does not start one. -/
def stemLength? (name : List Char) : Option Nat :=
  let after := name.reverse.takeWhile (· != '.')
  let before := name.length - after.length - 1
  if after.length = name.length || after.length = 0 || before = 0 then none else some before

def stem (p : Path) : String :=
  let cs := p.name.toList
  match stemLength? cs with
  | some n => String.ofList (cs.take n)
  | none => p.name

/-- The extension of the last part with its dot, empty if there is none. -/
def suffix (p : Path) : String :=
  let cs := p.name.toList
  match stemLength? cs with
  | some n => String.ofList (cs.drop n)
  | none => ""

def withName (p : Path) (name : String) : Path := { p with parts := p.parts.dropLast ++ [name] }

/-- One step of walking a path: a double dot leaves the directory it stands in. -/
def walk (dir : List String) (part : String) : List String :=
  if part == ".." then dir.dropLast else dir ++ [part]

/-- The directory or file that a path names, seen from a working directory, without dots. -/
def resolveFrom (cwd : List String) (p : Path) : List String :=
  p.parts.foldl walk (if p.isAbsolute then [] else cwd)

end Path

end Harvest
