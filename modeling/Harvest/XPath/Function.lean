import Harvest.XPath.Value

/-!
# Functions of selectors

The functions that every selector may call.  Each takes its arguments as values and converts them
to what it is about; where one asks for nodes, nothing else will do.
-/

namespace Harvest.XPath

open Markup (Outline Label)

/-- What a selector is evaluated against: a node, and its position among how many nodes if it was
chosen among some. -/
structure Focus where
  node : Node
  among : Option (Nat × Nat) := none

/-- A text with single spaces between its words and none at its ends. -/
def normalizeSpace (s : String) : String :=
  let words := (s.toList.splitBy fun c d => Markup.isSpace c == Markup.isSpace d).filter fun w =>
    !w.all Markup.isSpace
  " ".intercalate (words.map String.ofList)

/-- The text in front of the first place at which another one stands, and the text from there. -/
def findText? (needle : List Char) : List Char → Option (List Char × List Char)
  | [] => if needle.isEmpty then some ([], []) else none
  | c :: r =>
    if needle.isPrefixOf (c :: r) then some ([], c :: r)
    else (findText? needle r).map fun (front, rest) => (c :: front, rest)

/-- A text in which characters of a row are replaced by those at the same place of another one;
those without a counterpart are left out. -/
def translateText (source target : List Char) (cs : List Char) : List Char :=
  cs.filterMap fun c => match source.idxOf? c with
    | some k => target[k]?
    | none => some c

/-- The number rounded to the nearest integer, a half upwards.  What rounds to zero keeps its
sign. -/
def roundNumber (x : Binary64) : Binary64 :=
  let half := Binary64.ofRatio false 1 2
  if half.neg.le x && x.lt half then x.mul (Binary64.zero false)
  else
    let low := x.floor
    if half.le (x.sub low) then low.add (Binary64.ofNat 1) else low

def noPosition : Nat := 2147483647

/-- A number as a position, cut to those that can be counted; an undefined one is above all. -/
def positionOf (x : Binary64) : Nat :=
  if x.lt (Binary64.ofNat noPosition) then ((x.truncate?).getD 0).toNat else noPosition

/-- The part of a text from a position on and up to another one. -/
def sliceText (cs : List Char) (start : Nat) (stop : Nat) : List Char :=
  (cs.drop (start - 1)).take (stop - max start 1)

/-- A number rounded to the nearest integer, a half upwards. -/
def roundUp (x : Binary64) : Binary64 :=
  let low := x.floor
  if (Binary64.ofRatio false 1 2).le (x.sub low) then low.add (Binary64.ofNat 1) else low

/-- The part of a text from a position on, of a given length if there is one. -/
def substring (s : String) (start : Binary64) (length : Option Binary64) : String :=
  let first := positionOf (roundUp start)
  let last := match length with
    | none => noPosition
    | some l =>
      let stop := (roundUp start).add (roundUp l)
      if (Binary64.ofNat 1).le stop then positionOf stop else 1
  String.ofList (sliceText s.toList (max first 1) last)

/-- The language that is declared nearest around a node. -/
def languageOf? (o : Outline) (n : Node) : Option String :=
  match n.owner? with
  | none => none
  | some i => (i :: o.ancestors i).findSome? fun j =>
      ((Node.attributesOf o j).find? fun a =>
        a.name.space == some Node.commonSpace.2 && a.name.base == "lang").map (·.value)

/-- Whether a declared language is a given one or a part of it; letter case does not count. -/
def speaks (language : String) (declared : Option String) : Bool :=
  match declared with
  | none => false
  | some d =>
    let given := (language.map Char.toUpper).toList
    let ds := (d.map Char.toUpper).toList
    given.isPrefixOf ds && match ds[given.length]? with
      | none => true
      | some c => c == '-'

def wordsOf (s : String) : List (List Char) :=
  (s.toList.splitBy fun c d => Markup.isSpace c == Markup.isSpace d).filter fun w =>
    !w.all Markup.isSpace

/-- Whether an entry has an identifier by one of its attributes. -/
def hasIdentifier (o : Outline) (html : Bool) (identifier : String) (i : Nat) : Bool :=
  (Node.attributesOf o i).any fun a => a.value == identifier &&
    if html then
      a.name.base == "id" ||
        (a.name.base == "name" && (Node.entry i).localName o == "a")
    else a.name.space == some Node.commonSpace.2 && a.name.base == "id"

/-- The first element of the document that has an identifier. -/
def identified? (o : Outline) (html : Bool) (identifier : String) : Option Node :=
  ((Outline.range o.main.1 o.main.2).find? (hasIdentifier o html identifier)).map .entry

/-- The elements that have one of the identifiers in a value. -/
def identifiedBy (o : Outline) (html : Bool) (v : Value) : List Node :=
  let texts : List String := match v with
    | .nodes ns => ns.map fun n => n.string o
    | v => [v.string o]
  Node.inOrder ((texts.flatMap wordsOf).filterMap fun w => identified? o html (String.ofList w))

/-- The nodes whose name a function asks for: those of its argument, or the focus. -/
def nodesOrFocus (focus : Focus) : List Value → Option (List Node)
  | [] => some [focus.node]
  | [.nodes ns] => some ns
  | _ => none

/-- The value that a function asks for: its argument, or the focus. -/
def valueOrFocus (focus : Focus) : List Value → Option Value
  | [] => some (.nodes [focus.node])
  | [v] => some v
  | _ => none

/-- The result of a function; nothing for an unknown function or for arguments that do not fit. -/
def callFunction (o : Outline) (html : Bool) (focus : Focus) (name : String) (args : List Value) :
    Option Value :=
  let named (f : Node → String) : Option Value :=
    (nodesOrFocus focus args).map fun ns => .text ((ns.head?.map f).getD "")
  match name, args with
  | "boolean", [v] => some (.boolean v.truth)
  | "ceiling", [v] => some (.number (v.toNumber o).ceiling)
  | "concat", v :: w :: vs => some (.text (String.join ((v :: w :: vs).map (·.string o))))
  | "contains", [v, w] =>
    some (.boolean (findText? (w.string o).toList (v.string o).toList).isSome)
  | "count", [.nodes ns] => some (.number (Binary64.ofNat ns.length))
  | "false", [] => some (.boolean false)
  | "floor", [v] => some (.number (v.toNumber o).floor)
  | "id", [v] => some (.nodes (identifiedBy o html v))
  | "lang", [v] => some (.boolean (speaks (v.string o) (languageOf? o focus.node)))
  | "last", [] => focus.among.map fun (_, size) => .number (Binary64.ofNat size)
  | "local-name", _ => named (·.localName o)
  | "name", _ => named (·.writtenName o)
  | "namespace-uri", _ => named (·.nameSpace o)
  | "normalize-space", args =>
    (valueOrFocus focus args).map fun v => .text (normalizeSpace (v.string o))
  | "not", [v] => some (.boolean !v.truth)
  | "number", args => (valueOrFocus focus args).map fun v => .number (v.toNumber o)
  | "position", [] => focus.among.map fun (position, _) => .number (Binary64.ofNat position)
  | "round", [v] => some (.number (roundNumber (v.toNumber o)))
  | "starts-with", [v, w] =>
    some (.boolean ((w.string o).toList.isPrefixOf (v.string o).toList))
  | "string", args => (valueOrFocus focus args).map fun v => .text (v.string o)
  | "string-length", args =>
    (valueOrFocus focus args).map fun v => .number (Binary64.ofNat (v.string o).length)
  | "substring", [v, w] => some (.text (substring (v.string o) (w.toNumber o) none))
  | "substring", [v, w, x] =>
    some (.text (substring (v.string o) (w.toNumber o) (some (x.toNumber o))))
  | "substring-after", [v, w] =>
    some (.text (((findText? (w.string o).toList (v.string o).toList).map fun (_, rest) =>
      String.ofList (rest.drop (w.string o).length)).getD ""))
  | "substring-before", [v, w] =>
    some (.text (((findText? (w.string o).toList (v.string o).toList).map fun (front, _) =>
      String.ofList front).getD ""))
  | "sum", [.nodes ns] => some (.number
      (ns.foldl (fun x n => x.add (numberOfText (n.string o))) (Binary64.zero false)))
  | "translate", [v, w, x] => some (.text (String.ofList
      (translateText (w.string o).toList (x.string o).toList (v.string o).toList)))
  | "true", [] => some (.boolean true)
  | _, _ => none

end Harvest.XPath
