import Harvest.Markup.Outline
import Harvest.XPath.Basic

/-!
# Nodes of a selection

What a selector can choose in an outline, the order of it, the axes that lead from one node to
others, and the tests that a step makes.
-/

namespace Harvest.XPath

open Markup (Outline Label Attribute)

/-- A node that a selector can choose: the document, an entry of the outline, or an attribute or a
namespace of an entry. -/
inductive Node
  | document
  | entry (place : Nat)
  | space (place : Nat) (index : Nat)
  | attr (place : Nat) (index : Nat)
deriving DecidableEq, Repr, Inhabited

namespace Node

/-- The numbers by which nodes are ordered: an entry, then its namespaces, then its attributes. -/
def key : Node → Nat × Nat × Nat
  | document => (0, 0, 0)
  | entry i => (i + 1, 0, 0)
  | space i k => (i + 1, 1, k)
  | attr i k => (i + 1, 2, k)

/-- Whether a node does not come behind another one in document order. -/
def le (a b : Node) : Bool :=
  let (i, c, k) := a.key
  let (j, d, l) := b.key
  Nat.blt i j || (i == j && (Nat.blt c d || (c == d && Nat.ble k l)))

/-- A list in which nothing comes twice in a row. -/
def dropRepeated : List Node → List Node
  | a :: b :: r => if a = b then dropRepeated (b :: r) else a :: dropRepeated (b :: r)
  | r => r

/-- Nodes in document order, each of them once. -/
def inOrder (ns : List Node) : List Node := dropRepeated (ns.mergeSort le)

/-- The entry that a node belongs to. -/
def owner? : Node → Option Nat
  | document => none
  | entry i => some i
  | space i _ => some i
  | attr i _ => some i

def commonSpace : Option String × String := (some "xml", "http://www.w3.org/XML/1998/namespace")

/-- The namespaces of an entry; only an element has some. -/
def spacesOf (o : Outline) (i : Nat) : List (Option String × String) :=
  match o.label? i with
  | some (.element ..) => commonSpace :: (o.declarations i).reverse
  | _ => []

def attributesOf (o : Outline) (i : Nat) : List Attribute :=
  ((o.label? i).map Label.attributes).getD []

def attribute? (o : Outline) : Node → Option Attribute
  | attr i k => (attributesOf o i)[k]?
  | _ => none

def space? (o : Outline) : Node → Option (Option String × String)
  | space i k => (spacesOf o i)[k]?
  | _ => none

def string (o : Outline) : Node → String
  | document => o.textOf (Outline.range o.main.1 o.main.2)
  | entry i => o.string i
  | attr i k => (((attributesOf o i)[k]?).map Attribute.value).getD ""
  | space i k => (((spacesOf o i)[k]?).map (·.2)).getD ""

/-! ## Names -/

/-- The name of a node without its qualifier. -/
def localName (o : Outline) (n : Node) : String :=
  match n with
  | document => ""
  | entry i => match o.label? i with
    | some (.element name ..) => name.base
    | some (.instruction target _) => target
    | _ => ""
  | attr .. => ((n.attribute? o).map fun a => a.name.base).getD ""
  | space .. => ((n.space? o).bind (·.1)).getD ""

/-- The name of a node as it is written. -/
def writtenName (o : Outline) (n : Node) : String :=
  match n with
  | entry i => match o.label? i with
    | some (.element name ..) => name.written
    | _ => n.localName o
  | attr .. => ((n.attribute? o).map fun a => a.name.written).getD ""
  | _ => n.localName o

/-- The namespace that the name of a node lies in. -/
def nameSpace (o : Outline) (n : Node) : String :=
  match n with
  | entry i => match o.label? i with
    | some (.element name ..) => name.space.getD ""
    | _ => ""
  | attr .. => ((n.attribute? o).bind fun a => a.name.space).getD ""
  | _ => ""

/-! ## Axes -/

/-- The document, where an entry stands directly in it. -/
def documentAbove (o : Outline) (i : Nat) : List Node :=
  if o.treeOf i = o.main then [document] else []

/-- What an entry stands in, from the inside to the outside.  What stands in no node stands in the
document, also where it was taken out of it. -/
def above (o : Outline) (i : Nat) : List Node :=
  match o.ancestors i with
  | [] => [document]
  | as => as.map entry ++ documentAbove o i

def directlyAbove (o : Outline) (i : Nat) : Node :=
  match o.parent? i with
  | some p => entry p
  | none => document

/-- The nodes on an axis of the document. -/
def fromDocument (o : Outline) : Axis → List Node
  | .child => (o.childrenIn none (Outline.range o.main.1 o.main.2)).map entry
  | .descendant => (Outline.range o.main.1 o.main.2).map entry
  | .descendantOrSelf => document :: (Outline.range o.main.1 o.main.2).map entry
  | .ancestorOrSelf => [document]
  | .self => [document]
  | _ => []

/-- The nodes on an axis of an entry, nearest first. -/
def fromEntry (o : Outline) (i : Nat) : Axis → List Node
  | .ancestor => above o i
  | .ancestorOrSelf => entry i :: above o i
  | .attributes => (List.range (attributesOf o i).length).map (attr i)
  | .child => (o.children i).map entry
  | .descendant => (o.inside i).map entry
  | .descendantOrSelf => entry i :: (o.inside i).map entry
  | .following => (o.following i).map entry
  | .followingSibling => (o.nextSiblings i).map entry
  | .namespaces => (List.range (spacesOf o i).length).map (space i)
  | .parent => [directlyAbove o i]
  | .preceding => (o.preceding i).map entry
  | .precedingSibling => (o.previousSiblings i).map entry
  | .self => [entry i]

/-- The nodes on an axis of an attribute or a namespace of an entry, nearest first. -/
def fromPart (o : Outline) (i : Nat) (n : Node) : Axis → List Node
  | .ancestor => entry i :: above o i
  | .ancestorOrSelf => n :: entry i :: above o i
  | .descendantOrSelf => [n]
  | .following => (o.following i).map entry
  | .parent => [entry i]
  | .preceding => (o.preceding i).map entry
  | .self => [n]
  | _ => []

/-- The nodes on an axis of a node, nearest first. -/
def along (o : Outline) (axis : Axis) (n : Node) : List Node :=
  match n with
  | document => fromDocument o axis
  | entry i => fromEntry o i axis
  | space i _ => fromPart o i n axis
  | attr i _ => fromPart o i n axis

/-! ## Tests -/

/-- Whether an entry is a node of the kinds that a selector knows; a reference to an entity is
not. -/
def isKnown (o : Outline) (i : Nat) : Bool :=
  match o.item? i with
  | some (.node _ (.entity ..)) => false
  | some _ => true
  | none => false

/-- The name of a node of the kind that an axis is about. -/
def principalName? (o : Outline) (axis : Axis) (n : Node) : Option Markup.QName :=
  match axis, n with
  | .attributes, n => (n.attribute? o).map Attribute.name
  | .namespaces, n => (n.space? o).map fun s => .plain (s.1.getD "")
  | _, entry i => match o.label? i with
    | some (.element name ..) => some name
    | _ => none
  | _, _ => none

/-- Whether a node passes a test, where the namespace of the test's qualifier is given. -/
def passes (o : Outline) (axis : Axis) (test : NodeTest) (space : Option String)
    (n : Node) : Bool :=
  match test with
  | .node => match n with
    | entry i => isKnown o i
    | _ => true
  | .text => match n with
    | entry i => match o.item? i with
      | some (.text ..) => true
      | _ => false
    | _ => false
  | .comment => match n with
    | entry i => match o.label? i with
      | some (.comment _) => true
      | _ => false
    | _ => false
  | .instruction target => match n with
    | entry i => match o.label? i with
      | some (.instruction t _) => target.all (· == t)
      | _ => false
    | _ => false
  | .any _ => match principalName? o axis n with
    | some name => axis == .namespaces || space.isNone || name.space == space
    | none => false
  | .name _ base => match principalName? o axis n with
    | some name => name.base == base &&
        (axis == .namespaces || name.space == space ||
          (axis == .attributes && space.isNone && name.qualifier.isNone))
    | none => false

end Node

def NodeTest.qualifier? : NodeTest → Option String
  | .any q => q
  | .name q _ => q
  | _ => none

/-- The namespaces of the qualifiers that selectors may use. -/
def qualifiers : List (String × String) :=
  [("xml", "http://www.w3.org/XML/1998/namespace"), ("re", "http://exslt.org/regular-expressions")]

end Harvest.XPath
