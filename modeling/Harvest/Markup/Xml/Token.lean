import Harvest.Json.Reader
import Harvest.Markup.Name

/-!
# Tokens of XML

Tags, comments, instructions, references and text.  What breaks the rules is skipped as far as it
has to be, and a mark stands in its place.
-/

namespace Harvest.Markup.Xml

open Harvest.Text (isAsciiDigit)

/-- A token.  The values of attributes are as they were written. -/
inductive Token
  | startTag (name : String) (attributes : List (String × List Char)) (closed : Bool)
  | endTag (name : String)
  | text (value : String)
  | reference (name : String)
  | comment (value : String)
  | instruction (target value : String)
  /-- A document type with the entities that it declares. -/
  | doctype (entities : List (String × List Char))
  /-- A place where the rules are broken. -/
  | flaw
deriving DecidableEq, Repr

/-! ## References -/

/-- What a reference stands for: a character, or an entity by name. -/
inductive Reference
  | character (c : Char)
  | entity (name : String)
deriving DecidableEq, Repr

/-- The character of a number, if a document may hold it. -/
def characterOf? (n : Nat) : Option Char :=
  if 0x10FFFF < n ∨ (0xD800 ≤ n ∧ n < 0xE000) then none
  else
    let c := Char.ofNat n
    if isDocumentChar c then some c else none

/-- The character of a number in a base up to a semicolon, and the rest. -/
def takeCode (base : Nat) (isDigit : Char → Bool) (cs : List Char) :
    Option Reference × List Char :=
  let ds := cs.takeWhile isDigit
  let n := ds.foldl (fun n c => min 0x110000 (base * n + (Json.hexValue? c).getD 0)) 0
  match cs.dropWhile isDigit with
  | ';' :: r => (if ds.isEmpty then none else (characterOf? n).map .character, r)
  | r => (none, r)

/-- A reference behind its ampersand, if it is complete, and the rest. -/
def takeReference (cs : List Char) : Option Reference × List Char :=
  match cs with
  | '#' :: 'x' :: r => takeCode 16 (fun c => (Json.hexValue? c).isSome) r
  | '#' :: r => takeCode 10 isAsciiDigit r
  | cs => match takeColonName? cs with
    | none => (none, cs)
    | some (name, ';' :: r) => (some (.entity (String.ofList name)), r)
    | some (_, r) => (none, r)

def referenceToken : Option Reference → Token
  | none => .flaw
  | some (.character c) => .text (String.singleton c)
  | some (.entity name) => .reference name

/-! ## Tags -/

def takeQuoted? (cs : List Char) : Option (List Char × List Char) :=
  match cs with
  | q :: r =>
    if q == '"' || q == '\x27' then
      match r.dropWhile (· != q) with
      | _ :: rest => some (r.takeWhile (· != q), rest)
      | [] => none
    else none
  | [] => none

/-- Attributes up to the end of a tag.  The second part tells whether the tag is closed, the third
one whether it is whole; a tag that is not whole ends where its attributes break off.  The bound is
the length. -/
def takeAttributes : Nat → List Char →
    List (String × List Char) × Bool × Bool × List Char
  | 0, cs => ([], true, false, cs)
  | n + 1, cs => match cs with
    | '>' :: r => ([], false, true, r)
    | '/' :: '>' :: r => ([], true, true, r)
    | cs => match takeColonName? cs with
      | none => ([], true, false, cs)
      | some (name, r) => match skipSpace r with
        | '=' :: r =>
          let r := skipSpace r
          match takeQuoted? r with
          | none => ([], true, false, r)
          | some (value, r) =>
            if value.contains '<' then ([], true, false, r)
            else
              let next := skipSpace r
              let goesOn :=
                next.length < r.length || next.head? == some '>' || next.head? == some '/'
              let (as, closed, whole, rest) :=
                if goesOn then takeAttributes n next else ([], true, false, r)
              ((String.ofList name, value) :: as, closed, whole, rest)
        | '>' :: r => ([], false, false, r)
        | r => ([], true, false, r)

def takeStartTag (name : List Char) (cs : List Char) : List Token × List Char :=
  let (as, closed, whole, rest) := takeAttributes (cs.length + 1) (skipSpace cs)
  ((if whole then [] else [.flaw]) ++ [.startTag (String.ofList name) as closed], rest)

def takeEndTag (cs : List Char) : List Token × List Char :=
  let (name, r) := (takeColonName? cs).getD ([], cs)
  match skipSpace r with
  | '>' :: rest => ([.endTag (String.ofList name)], rest)
  | rest => ([.flaw, .endTag (String.ofList name)], rest)

/-! ## Sections -/

/-- The text up to a mark, and the rest behind it; nothing if the mark does not come. -/
def takeUntil? (mark : List Char) : List Char → Option (List Char × List Char)
  | [] => none
  | c :: r =>
    if mark.isPrefixOf (c :: r) then some ([], (c :: r).drop mark.length)
    else (takeUntil? mark r).map fun (body, rest) => (c :: body, rest)

def takeInstruction (cs : List Char) : List Token × List Char :=
  match takeColonName? cs with
  | none => ([.flaw], cs)
  | some (target, r) =>
    let target := String.ofList target
    let marks : List Token := if target.map Char.toLower == "xml" then [.flaw] else []
    match takeUntil? ['?', '>'] r with
    | none => ([.flaw], [])
    | some (body, rest) => (marks ++ [.instruction target (String.ofList (skipSpace body))], rest)

def takeComment (cs : List Char) : List Token × List Char :=
  match takeUntil? ['-', '-', '>'] cs with
  | none => ([.flaw], [])
  | some (body, rest) => ([.comment (String.ofList body)], rest)

/-- A section of plain text behind its opening mark. -/
def takePlain (cs : List Char) : List Token × List Char :=
  match takeUntil? [']', ']', '>'] cs with
  | none => ([.flaw], [])
  | some (body, rest) => ([.text (String.ofList body)], rest)

/-! ## Document types -/

/-- The value of an entity with the numbers of characters replaced.  The bound is its length. -/
def entityValue : Nat → List Char → List Char
  | n + 1, '&' :: '#' :: r => match takeReference ('#' :: r) with
    | (some (.character c), rest) => c :: entityValue n rest
    | (_, rest) => entityValue n rest
  | n + 1, c :: r => c :: entityValue n r
  | _, _ => []

/-- The entity that a declaration declares, behind its keyword. -/
def declaredEntity? (cs : List Char) : Option (String × List Char) := do
  let (name, r) ← takeColonName? (skipSpace cs)
  let (value, _) ← takeQuoted? (skipSpace r)
  return (String.ofList name, entityValue value.length value)

/-- A declaration up to its closing bracket, outside of quotes.  The bound is the length. -/
def takeDeclaration : Nat → List Char → List Char × List Char
  | _, [] => ([], [])
  | 0, cs => ([], cs)
  | n + 1, c :: r =>
    if c == '>' then ([], r)
    else match takeQuoted? (c :: r) with
      | some (value, rest) =>
        let (body, rest) := takeDeclaration n rest
        (c :: value ++ c :: body, rest)
      | none => let (body, rest) := takeDeclaration n r; (c :: body, rest)

/-- The entities that the declarations inside a document type declare, and the rest behind them.
The bound is the length. -/
def takeDeclarations : Nat → List Char → List (String × List Char) × List Char
  | 0, cs => ([], cs)
  | n + 1, cs => match cs with
    | [] => ([], [])
    | ']' :: r => ([], r)
    | '<' :: '!' :: '-' :: '-' :: r =>
      takeDeclarations n (((takeUntil? ['-', '-', '>'] r).map (·.2)).getD [])
    | '<' :: '?' :: r => takeDeclarations n (((takeUntil? ['?', '>'] r).map (·.2)).getD [])
    | '<' :: '!' :: r =>
      let (body, rest) := takeDeclaration r.length r
      let (es, rest) := takeDeclarations n rest
      match "ENTITY".toList.isPrefixOf body, declaredEntity? (body.drop 6) with
      | true, some e => (e :: es, rest)
      | _, _ => (es, rest)
    | _ :: r => takeDeclarations n r

def takeDoctype (cs : List Char) : List Token × List Char :=
  let head := cs.takeWhile fun c => c != '[' && c != '>'
  match cs.drop head.length with
  | '[' :: r =>
    let (es, rest) := takeDeclarations (r.length + 1) r
    match skipSpace rest with
    | '>' :: rest => ([.doctype es], rest)
    | rest => ([.doctype es, .flaw], rest)
  | '>' :: r => ([.doctype []], r)
  | r => ([.flaw], r)

/-! ## Content -/

/-- The markup behind an opening bracket; `prolog` tells whether no element was opened yet. -/
def takeMarkup (prolog : Bool) (cs : List Char) : List Token × List Char :=
  match cs with
  | '?' :: r => takeInstruction r
  | '!' :: '-' :: '-' :: r => takeComment r
  | '/' :: r => takeEndTag r
  | '!' :: r =>
    if prolog && "DOCTYPE".toList.isPrefixOf r then takeDoctype (r.drop 7)
    else if "[CDATA[".toList.isPrefixOf r && !prolog then takePlain (r.drop 7)
    else ([.flaw], cs)
  | cs => match takeColonName? cs with
    | some (name, r) => takeStartTag name r
    | none => ([.flaw], cs)

def Token.opens : Token → Bool
  | startTag .. => true
  | _ => false

/-- The tokens of a text.  The bound is its length. -/
def tokenize : Nat → Bool → List Char → List Token
  | _, _, [] => []
  | 0, _, _ :: _ => []
  | n + 1, prolog, c :: r =>
    if c == '<' then
      let (ts, rest) := takeMarkup prolog r
      ts ++ tokenize n (prolog && !ts.any Token.opens) rest
    else if c == '&' then
      let (e, rest) := takeReference r
      referenceToken e :: tokenize n prolog rest
    else
      let isText (c : Char) : Bool := c != '<' && c != '&'
      .text (String.ofList (c :: r.takeWhile isText)) :: tokenize n prolog (r.dropWhile isText)

/-- A text with single line feeds at the ends of lines. -/
def unifyLines : List Char → List Char
  | [] => []
  | '\r' :: '\n' :: r => '\n' :: unifyLines r
  | '\r' :: r => '\n' :: unifyLines r
  | c :: r => c :: unifyLines r

/-- The text behind the declaration at the start of a document, if there is one. -/
def dropDeclaration (cs : List Char) : List Char :=
  match cs with
  | '<' :: '?' :: 'x' :: 'm' :: 'l' :: c :: r =>
    if isSpace c then ((takeUntil? ['?', '>'] r).map (·.2)).getD [] else cs
  | _ => cs

def tokens (cs : List Char) : List Token :=
  let cs := dropDeclaration (unifyLines cs)
  tokenize cs.length true cs

end Harvest.Markup.Xml
