import Harvest.Markup.Document

/-!
# Outlines

The nodes and texts of a document in document order, each with the place of what it stands in and of
what comes behind all that stands in it.  The trees of nodes that were taken out follow the document
itself.
-/

namespace Harvest.Markup

/-- Where a text stands: in front of the first node inside a node, or behind a node. -/
inductive TextPlace
  | inside (id : Nat)
  | behind (id : Nat)
deriving DecidableEq, Repr, Inhabited

/-- What an entry of an outline is. -/
inductive Item
  | node (id : Nat) (label : Label)
  /-- A text; one outside of all nodes has no place. -/
  | text (value : String) (place : Option TextPlace)
deriving DecidableEq, Repr, Inhabited

structure Entry where
  item : Item
  /-- The place of the node that the entry stands in. -/
  parent : Option Nat
  /-- The place behind the last entry that stands in this one. -/
  stop : Nat
deriving DecidableEq, Repr, Inhabited

/-- The entry of a text, if it is one. -/
def textEntry (s : String) (place : Option TextPlace) (parent : Option Nat) (start : Nat) :
    List Entry :=
  if s.isEmpty then [] else [⟨.text s place, parent, start + 1⟩]

/-- The entries of a content that starts at a place, inside a node if one is given.  The text in
front of the first node has a place of its own. -/
def Content.entries (parent : Option Nat) (place : Option TextPlace) (start : Nat) :
    Content → List Entry
  | text s => textEntry s place parent start
  | node before id label inner rest =>
    let front := textEntry before place parent start
    let here := start + front.length
    let within := inner.entries (some here) (some (.inside id)) (here + 1)
    let stop := here + 1 + within.length
    front ++ ⟨.node id label, parent, stop⟩ ::
      (within ++ rest.entries parent (some (.behind id)) stop)

/-- A document as a row of entries, with the places where its trees start and end. -/
structure Outline where
  entries : Array Entry := #[]
  trees : List (Nat × Nat) := []
deriving Inhabited

namespace Outline

def addTree (o : Outline) (c : Content) : Outline :=
  let start := o.entries.size
  let es := c.entries none none start
  ⟨o.entries ++ es.toArray, o.trees ++ [(start, start + es.length)]⟩

def ofDocument (d : Document) : Outline := d.trees.foldl addTree {}

/-- The places from one up to another. -/
def range (start stop : Nat) : List Nat := List.range' start (stop - start)

def main (o : Outline) : Nat × Nat := o.trees.headD (0, 0)

/-- The places of the tree that an entry belongs to. -/
def treeOf (o : Outline) (i : Nat) : Nat × Nat :=
  (o.trees.find? fun (a, b) => Nat.ble a i && Nat.blt i b).getD (0, 0)

def parent? (o : Outline) (i : Nat) : Option Nat := o.entries[i]?.bind Entry.parent

/-- The place behind all that stands in an entry. -/
def stop (o : Outline) (i : Nat) : Nat := (o.entries[i]?.map Entry.stop).getD i

def item? (o : Outline) (i : Nat) : Option Item := o.entries[i]?.map Entry.item

def label? (o : Outline) (i : Nat) : Option Label :=
  match o.item? i with
  | some (.node _ l) => some l
  | _ => none

def find? (o : Outline) (id : Nat) : Option Nat :=
  (range 0 o.entries.size).find? fun i => match o.item? i with
    | some (.node j _) => j == id
    | _ => false

def inside (o : Outline) (i : Nat) : List Nat := range (i + 1) (o.stop i)

/-- The places in a row that stand directly in what an entry is, or outside of all nodes. -/
def childrenIn (o : Outline) (parent : Option Nat) (places : List Nat) : List Nat :=
  places.filter fun j => o.parent? j == parent

def children (o : Outline) (i : Nat) : List Nat := o.childrenIn (some i) (o.inside i)

/-- What an entry stands in, from the inside to the outside. -/
def ancestors (o : Outline) (i : Nat) : List Nat :=
  match o.parent? i with
  | none => []
  | some p => if _h : p < i then p :: o.ancestors p else []
termination_by i

/-- The places among which the neighbours of an entry stand. -/
def scope (o : Outline) (i : Nat) : Nat × Nat :=
  match o.parent? i with
  | some p => (p + 1, o.stop p)
  | none => o.treeOf i

def nextSiblings (o : Outline) (i : Nat) : List Nat :=
  o.childrenIn (o.parent? i) (range (o.stop i) (o.scope i).2)

/-- The neighbours in front of an entry, nearest first. -/
def previousSiblings (o : Outline) (i : Nat) : List Nat :=
  (o.childrenIn (o.parent? i) (range (o.scope i).1 i)).reverse

def following (o : Outline) (i : Nat) : List Nat := range (o.stop i) (o.treeOf i).2

/-- All that ends in front of an entry, last one first. -/
def preceding (o : Outline) (i : Nat) : List Nat :=
  ((range (o.treeOf i).1 i).filter fun j => Nat.ble (o.stop j) i).reverse

/-- The part of a text that an entry itself gives to what it stands in. -/
def ownText (o : Outline) (i : Nat) : String :=
  match o.item? i with
  | some (.text s _) => s
  | some (.node _ (.entity _ value)) => value
  | _ => ""

/-- The text of entries one behind the other. -/
def textOf (o : Outline) (places : List Nat) : String :=
  places.foldl (fun s i => s ++ o.ownText i) ""

/-- The text of an entry: of an element the text inside it, of anything else its own. -/
def string (o : Outline) (i : Nat) : String :=
  match o.label? i with
  | some (.element ..) => o.textOf (o.inside i)
  | some (.comment value) => value
  | some (.instruction _ value) => value
  | _ => o.ownText i

/-- The namespaces that are declared for an element: the nearest declaration of each qualifier. -/
def declarations (o : Outline) (i : Nat) : List (Option String × String) :=
  (i :: o.ancestors i).foldl (fun found j => match o.label? j with
    | some (.element _ _ ds) => found ++ ds.filter fun d => (found.lookup d.1).isNone
    | _ => found) []

end Outline

end Harvest.Markup
