import Harvest.Decimal.Reader
import Harvest.Pattern.Match
import Harvest.Pattern.Reader

/-!
# Replacing matches

Templates of replacements: characters, escapes and references to the groups of a pattern.
-/

namespace Harvest.Pattern

inductive TemplateError
  | malformed
  /-- A group is named that the pattern does not have. -/
  | unknownName (name : String)
deriving DecidableEq, Repr

inductive Piece
  | char (c : Char)
  | group (n : Nat)
deriving DecidableEq, Repr

/-- The character of an escape of one letter in a template. -/
def templateEscape? : Char → Option Char
  | 'a' => some '\x07'
  | 'b' => some '\x08'
  | 'f' => some '\x0c'
  | 'n' => some '\n'
  | 'r' => some '\r'
  | 't' => some '\t'
  | 'v' => some '\x0b'
  | '\\' => some '\\'
  | _ => none

/-- A reference to a group that the pattern has. -/
def reference (p : Compiled) (n : Nat) : Except TemplateError Piece :=
  if n < p.groups then .ok (.group n) else .error .malformed

/-- The group that a name or a number stands for. -/
def groupNamed (p : Compiled) (name : List Char) : Except TemplateError Piece :=
  if isName name then
    match p.names.lookup (String.ofList name) with
    | some n => .ok (.group n)
    | none => .error (.unknownName (String.ofList name))
  else match Decimal.readInt? (String.ofList name) with
    | some (.ofNat n) => reference p n
    | _ => .error .malformed

/-- An escape in a template, behind its backslash, with the number of characters it takes. -/
def templateEscape (p : Compiled) (cs : List Char) : Except TemplateError (Piece × Nat) :=
  match cs with
  | [] => .error .malformed
  | 'g' :: '<' :: r =>
    let name := r.takeWhile (· != '>')
    if name.length = r.length || name.isEmpty then .error .malformed
    else (groupNamed p name).map (·, name.length + 3)
  | '0' :: r =>
    let ds := (r.take 2).takeWhile isOctal
    .ok (.char (Char.ofNat (numberIn 8 ds)), ds.length + 1)
  | c :: r =>
    if Text.isAsciiDigit c then
      let two := (r.take 1).takeWhile Text.isAsciiDigit
      let three := (r.take 2).takeWhile isOctal
      if isOctal c && three.length = 2 then
        let n := numberIn 8 (c :: three)
        if n ≤ 0o377 then .ok (.char (Char.ofNat n), 3) else .error .malformed
      else (reference p (numberIn 10 (c :: two))).map (·, two.length + 1)
    else match templateEscape? c with
      | some d => .ok (.char d, 1)
      | none => if isLetter c then .error .malformed else .ok (.char '\\', 0)

/-- The pieces of a template.  The bound is its length. -/
def readTemplate (p : Compiled) : Nat → List Char → Except TemplateError (List Piece)
  | bound + 1, '\\' :: r => do
    let (piece, n) ← templateEscape p r
    match n, r with
    | 0, c :: r => return piece :: .char c :: (← readTemplate p bound r)
    | n, r => return piece :: (← readTemplate p bound (r.drop n))
  | bound + 1, c :: r => do return .char c :: (← readTemplate p bound r)
  | _, _ => return []

/-- The text that a piece stands for at a match; a group that took no part is empty. -/
def Piece.text (text : Subject) (m : Found) : Piece → List Char
  | .char c => [c]
  | .group 0 => m.text text
  | .group n => (m.stop.group? text n).getD []

/-- The text with matches replaced, from a place on. -/
def substitute (text : Subject) (template : List Piece) : Nat → List Found → List Char
  | pos, [] => slice text pos text.size
  | pos, m :: ms =>
    slice text pos m.start ++ template.flatMap (Piece.text text m) ++
      substitute text template m.stop.pos ms

/-- A text with the first match, or all matches, of a pattern replaced. -/
def replace (p : Compiled) (text : String) (template : String) (all : Bool) :
    Except TemplateError String := do
  let subject := text.toList.toArray
  let pieces ← readTemplate p template.length template.toList
  let found := matchesOf p.pattern subject
  return String.ofList (substitute subject pieces 0 (if all then found else found.take 1))

/-- The texts of a match and of its groups; a group that took no part is empty. -/
def firstMatch (p : Compiled) (text : String) : List String :=
  let subject := text.toList.toArray
  match searchFrom p.pattern subject false (subject.size + 1) 0 with
  | none => []
  | some m => ((List.range p.groups).map fun n => String.ofList ((Piece.group n).text subject m))

/-- The text of every match, or of its groups together if the pattern has any. -/
def allMatches (p : Compiled) (text : String) : List String :=
  let subject := text.toList.toArray
  let groups := if p.groups = 1 then [0] else (List.range (p.groups - 1)).map (· + 1)
  (matchesOf p.pattern subject).map fun m =>
    String.ofList (groups.flatMap fun n => (Piece.group n).text subject m)

/-- Whether a pattern matches somewhere in a text. -/
def test (p : Compiled) (text : String) : Bool := (search? p.pattern text.toList).isSome

end Harvest.Pattern
