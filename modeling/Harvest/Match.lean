import Harvest.XPath.Eval

/-!
# Matches

What a selector finds in a document: nodes, attributes and texts, which keep their place in the
document while it changes, and plain values.  A match has a text and can be detached.
-/

namespace Harvest

open Markup (Document Outline Label TextPlace Language Content)

inductive Match
  /-- An element, a comment or an instruction. -/
  | node (id : Nat)
  /-- An attribute of an element, by its expanded name, with its value. -/
  | attr (owner : Nat) (name : String) (value : String)
  /-- A text with its place. -/
  | text (place : TextPlace) (value : String)
  /-- A text that stands nowhere in the document. -/
  | string (value : String)
  | boolean (b : Bool)
  | number (x : Binary64)
  /-- A namespace, with the qualifier that stands for it. -/
  | space (qualifier : Option String) (address : String)
deriving DecidableEq, Inhabited

/-- Why a selector finds nothing that can be used. -/
inductive SelectError
  /-- The node that it is evaluated against is no element. -/
  | notElement (label : Label)
  | eval (error : XPath.EvalError)
deriving DecidableEq, Repr

namespace Match

/-- The match of a node of an outline; the document itself is none. -/
def ofNode? (o : Outline) : XPath.Node → Option Match
  | .document => none
  | .entry i => match o.item? i with
    | some (.node id _) => some (node id)
    | some (.text s (some place)) => some (text place s)
    | some (.text s none) => some (string s)
    | none => none
  | n@(.attr i _) => match o.item? i, n.attribute? o with
    | some (.node id _), some a => some (attr id a.name.expanded a.value)
    | _, _ => none
  | n => (n.space? o).map fun (qualifier, address) => space qualifier address

/-- The matches that the value of a selector stands for. -/
def ofValue (o : Outline) : XPath.Value → List Match
  | .nodes ns => ns.filterMap (ofNode? o)
  | .boolean b => [boolean b]
  | .number x => [number x]
  | .text s => [string s]

end Match

namespace Markup.Document

/-- The matches of a selector at an element, and the document with the trees of results that the
selector made. -/
def select (d : Document) (language : Language) (context : Nat) (query : XPath) :
    Except SelectError (List Match × Document) :=
  let scene := XPath.Scene.ofDocument d language
  match d.find? context with
  | some (.element .., _) =>
    let focus : XPath.Focus := ⟨((scene.outline.find? context).map .entry).getD .document, none⟩
    match (XPath.eval query focus).run scene with
    | .ok (v, scene) => .ok (Match.ofValue scene.outline v, scene.document)
    | .error e => .error (.eval e)
  | some (label, _) => .error (.notElement label)
  | none => .ok ([], d)

end Markup.Document

namespace Match

/-- The text of a node of a document: of an element that of its content, of anything else its
own. -/
def nodeText (d : Document) (id : Nat) : String :=
  match d.find? id with
  | some (.element .., inner) => inner.string
  | some (.comment value, _) => value
  | some (.instruction _ value, _) => value
  | some (.entity _ value, _) => value
  | none => ""

/-- The text of a match.  A node gives the text that it has now, the others the one that was
found. -/
def read (d : Document) : Match → String
  | node id => nodeText d id
  | attr _ _ value => value
  | text _ value => value
  | string value => value
  | boolean b => if b then "true" else "false"
  | number x => Decimal.plain x
  | space qualifier address =>
    "(" ++ (match qualifier with
      | some q => Text.quoted q
      | none => "None") ++ ", " ++ Text.quoted address ++ ")"

/-- Takes a match out of a document, and tells whether something was taken out.  The text behind a
node stays; a node that stands in no other one stays too. -/
def detach (d : Document) : Match → Document × Bool
  | node id => match d.detach? id with
    | some d => (d, true)
    | none => (d, false)
  | attr owner name _ => match d.find? owner with
    | some (label, _) =>
      if label.hasAttribute name then (d.dropAttribute owner name, true) else (d, false)
    | none => (d, false)
  | text (.inside id) _ => match d.find? id with
    | some (_, inner) => (d.clearText id, inner.leading != "")
    | none => (d, false)
  | text (.behind id) _ => (d.clearTail id, d.tailOf id != "")
  | _ => (d, false)

/-- Takes matches out of a document one after the other, and counts those that were taken out. -/
def detachAll (d : Document) : List Match → Document × Nat
  | [] => (d, 0)
  | m :: ms =>
    let (d, removed) := m.detach d
    let (d, n) := detachAll d ms
    (d, if removed then n + 1 else n)

end Match

end Harvest
