import Harvest.Markup.Builder
import Harvest.Markup.Xml.Token

/-!
# Trees of XML

The element tree that tokens make, with names in their namespaces.  An end tag ends the innermost
open element whatever its name is; what is open at the end ends there; nothing counts behind the
root but comments and instructions.  References to declared entities stay references.
-/

namespace Harvest.Markup.Xml

def namedCharacters : List (String × String) :=
  [("lt", "<"), ("gt", ">"), ("amp", "&"), ("quot", "\""), ("apos", "\x27")]

def xmlSpace : String := "http://www.w3.org/XML/1998/namespace"

/-- Entities with the values that were declared for them. -/
abbrev Entities := List (String × List Char)

/-- How deeply entities may stand inside entities. -/
def maxDepth : Nat := 40

/-- The text of tokens, where the text of an entity is given. -/
def textOf (entity : String → String) : List Token → String
  | [] => ""
  | .text s :: ts => s ++ textOf entity ts
  | .reference name :: ts => entity name ++ textOf entity ts
  | _ :: ts => textOf entity ts

/-- The text that an entity stands for. -/
def entityText (es : Entities) : Nat → String → String
  | 0, _ => ""
  | n + 1, name => match namedCharacters.lookup name with
    | some s => s
    | none => match es.lookup name with
      | some value => textOf (entityText es n) (tokenize value.length false value)
      | none => ""

/-- The value of an attribute as a text: references replaced, and spaces for other white space.  The
first bound is the depth of entities. -/
def attributeText (es : Entities) : Nat → Nat → List Char → List Char
  | depth, n + 1, '&' :: r => match takeReference r with
    | (some (.character c), rest) => c :: attributeText es depth n rest
    | (some (.entity name), rest) =>
      (match namedCharacters.lookup name, es.lookup name, depth with
        | some s, _, _ => s.toList
        | none, some value, depth + 1 => attributeText es depth value.length value
        | _, _, _ => []) ++ attributeText es depth n rest
    | (none, rest) => attributeText es depth n rest
  | depth, n + 1, c :: r => (if isSpace c then ' ' else c) :: attributeText es depth n r
  | _, _, _ => []
termination_by depth n => (depth, n)

/-- The parts of a name in front of and behind its first colon. -/
def splitName (name : String) : Option String × String :=
  let cs := name.toList
  let front := cs.takeWhile (· != ':')
  match cs.drop front.length with
  | _ :: c :: r =>
    if front.isEmpty then (none, name) else (some (String.ofList front), String.ofList (c :: r))
  | _ => (none, name)

abbrev Scope := List (Option String × String)

def spaceOf? (scope : Scope) (qualifier : Option String) : Option String :=
  if qualifier = some "xml" then some xmlSpace
  else match scope.lookup qualifier with
    | some "" => none
    | found => found

/-- A name in its namespace.  A qualifier without a namespace is part of the name. -/
def resolve (scope : Scope) (qualifier : Option String) (base : String) : QName :=
  match spaceOf? scope qualifier, qualifier with
  | some s, q => ⟨some s, q, base⟩
  | none, some q => .plain (q ++ ":" ++ base)
  | none, none => .plain base

def declaration? (a : String × String) : Option (Option String × String) :=
  match splitName a.1 with
  | (none, "xmlns") => some (none, a.2)
  | (some "xmlns", base) => some (some base, a.2)
  | _ => none

/-- An attribute in its namespace; one without a qualifier is in none. -/
def attributeOf (scope : Scope) (a : String × String) : Attribute :=
  match splitName a.1 with
  | (none, base) => ⟨.plain base, a.2⟩
  | (some q, base) => ⟨resolve scope (some q) base, a.2⟩

/-- Attributes of which each name counts once. -/
def dropRepeated : List Attribute → List Attribute
  | [] => []
  | a :: as => a :: (dropRepeated as).filter fun b => b.name.expanded != a.name.expanded

/-- The place in a document. -/
inductive Stage
  | prolog
  | content
  | epilog
  /-- Behind the root, after something that does not belong there. -/
  | over
deriving DecidableEq, Repr

structure Growth where
  builder : Builder := .fresh
  stage : Stage := .prolog
  entities : Entities := []
  /-- The namespaces inside the open elements, innermost element first. -/
  scopes : List Scope := []
  /-- The names of the open elements as they were written, innermost first. -/
  names : List String := []
  /-- Whether no rule was broken so far. -/
  sound : Bool := true

namespace Growth

def pop (g : Growth) : Growth :=
  { g with
    builder := g.builder.pop
    scopes := g.scopes.drop 1
    names := g.names.drop 1
    stage := if g.names.length ≤ 1 then .epilog else g.stage }

def startTag (g : Growth) (name : String) (attributes : List (String × List Char))
    (closed : Bool) : Growth :=
  let values := attributes.map fun (n, v) =>
    (n, String.ofList (attributeText g.entities maxDepth v.length v))
  -- The declarations of a tag hold for its own name and attributes too.
  let declarations := values.filterMap declaration?
  let scope := declarations.reverse ++ g.scopes.headD []
  let own := (values.filter fun a => (declaration? a).isNone).map (attributeOf scope)
  let (qualifier, base) := splitName name
  let g := { g with
    builder := g.builder.push
      (.element (resolve scope qualifier base) (dropRepeated own) declarations)
    scopes := scope :: g.scopes
    names := name :: g.names
    stage := .content
    sound := g.sound && (dropRepeated own).length == own.length }
  if closed then g.pop else g

/-- A reference to an entity.  After a broken rule a declared entity does not count. -/
def reference (g : Growth) (name : String) : Growth :=
  match namedCharacters.lookup name, g.entities.lookup name with
  | some s, _ => if g.sound then { g with builder := g.builder.addText s } else g
  | none, some _ =>
    if g.sound then
      { g with builder := g.builder.addLeaf (.entity name (entityText g.entities maxDepth name)) }
    else g
  | none, none => { g with builder := g.builder.addLeaf (.entity name ""), sound := false }

/-- The tree with a token of an element's content at its end. -/
def addContent (g : Growth) : Token → Growth
  | .startTag name attributes closed => g.startTag name attributes closed
  | .endTag name => { g.pop with sound := g.sound && g.names.head? == some name }
  | .text s => { g with builder := g.builder.addText s }
  | .reference name => g.reference name
  | .comment s => { g with builder := g.builder.addLeaf (.comment s) }
  | .instruction target s => { g with builder := g.builder.addLeaf (.instruction target s) }
  | .doctype _ => g
  | .flaw => { g with sound := false }

/-- The tree with a token in front of or behind the root at its end. -/
def addOutside (g : Growth) : Token → Growth
  | .comment s => { g with builder := g.builder.addLeaf (.comment s) }
  | .instruction target s => { g with builder := g.builder.addLeaf (.instruction target s) }
  | .text s => if s.toList.all isSpace then g else { g with stage := .over }
  | .doctype es =>
    if g.stage = .prolog then { g with entities := es } else { g with stage := .over }
  | .flaw => { g with sound := false }
  | .startTag name attributes closed =>
    if g.stage = .prolog then g.startTag name attributes closed else { g with stage := .over }
  | _ => { g with stage := .over }

def add (g : Growth) (t : Token) : Growth :=
  match g.stage with
  | .over => g
  | .content => g.addContent t
  | _ => g.addOutside t

end Growth

def parse (cs : List Char) : Document := ((tokens cs).foldl Growth.add {}).builder.finish

end Harvest.Markup.Xml
