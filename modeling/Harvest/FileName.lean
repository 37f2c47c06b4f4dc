import Harvest.Digest
import Harvest.Path
import Harvest.Text.Blank
import Harvest.Text.Word

/-!
# File names

Names of result files: any text becomes a name of safe characters, and a name that would be too
long is cut and told apart from others by a digest of the document's source.
-/

namespace Harvest.FileName

def maxLength : Nat := 120

/-- Characters that a file name keeps: ASCII letters and digits, hyphen, low line and dot. -/
def isSafe (c : Char) : Bool :=
  Text.isAsciiAlphanumeric c || c == '-' || c == '_' || c == '.'

def replaceUnsafe (cs : List Char) : List Char := cs.map fun c => if isSafe c then c else '_'

def squeeze : List Char → List Char
  | '_' :: '_' :: r => squeeze ('_' :: r)
  | c :: r => c :: squeeze r
  | [] => []

/-- The first `n` characters, or all but the last `-n`. -/
def cut (n : Int) (cs : List Char) : List Char :=
  if 0 ≤ n then cs.take n.toNat else cs.take (cs.length - (-n).toNat)

/-- The safe form of a name before it is cut. -/
def cleanChars (cs : List Char) : List Char :=
  Text.stripBy (· == '_') (squeeze (replaceUnsafe cs))

/-- The safe form of a name with at most the given number of characters. -/
def sanitizeChars (limit : Int) (cs : List Char) : List Char :=
  let clean := cleanChars cs
  let short := if limit < clean.length then cut limit clean else clean
  if short.isEmpty then "unnamed".toList else short

def sanitize (name : String) (limit : Int) : String :=
  String.ofList (sanitizeChars limit name.toList)

/-- The name that the result of a document goes by: the given one, or the name of the document
without its extension. -/
def resultName (source : String) (name : Option String) : String :=
  match name with
  | some n => if n.isEmpty then (Path.ofString source).stem else n
  | none => (Path.ofString source).stem

/-- The part of a source's digest that file names use. -/
def tag (source : String) : String := String.ofList ((Digest.ofText source).toList.take 8)

/-- The name of the result file of a source. -/
def build (name source extension : String) : String :=
  let clean := sanitizeChars maxLength name.toList
  let room : Int := (maxLength : Int) - extension.length
  let stem :=
    if room < clean.length then
      let digest := (tag source).toList
      cut (room - digest.length - 1) clean ++ '_' :: digest
    else clean
  String.ofList stem ++ extension

def outputPath (dir : Path) (name source extension : String) : Path :=
  dir.join (Path.ofString (build name source extension))

end Harvest.FileName
