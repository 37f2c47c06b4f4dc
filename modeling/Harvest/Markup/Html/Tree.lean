import Harvest.Markup.Builder
import Harvest.Markup.Html.Token

/-!
# Trees of hypertext

The element tree that tags and texts make.  The elements for the whole, its head and its body are
there even if no tag opens them; some elements end where another one starts; an end tag ends the
innermost open element of its name with all that is open inside it, unless something stronger is
open in between.
-/

namespace Harvest.Markup.Html

/-- Names that start an element of a given name's end: the first element ends where any of the
others starts. -/
def endedBy : List (String × List String) :=
  let heading := ["fieldset", "form", "li", "p", "table"]
  let block := ["dd", "dl", "dt", "fieldset", "form", "li", "table", "ul"]
  [("a", ["a", "fieldset", "table", "td", "th"]),
    ("address", ["dd", "dl", "dt", "form", "li", "ul"]),
    ("b", ["center", "p", "td", "th"]),
    ("big", ["p"]),
    ("caption", ["col", "colgroup", "tbody", "tfoot", "thead", "tr"]),
    ("col", ["col", "colgroup", "tbody", "tfoot", "thead", "tr"]),
    ("colgroup", ["colgroup", "tbody", "tfoot", "thead", "tr"]),
    ("dd", ["dt"]),
    ("dir", ["dd", "dl", "dt", "form", "ul"]),
    ("dl", ["form", "li"]),
    ("dt", ["dd", "dl"]),
    ("font", ["center", "td", "th"]),
    ("form", ["form"]),
    ("h1", heading), ("h2", heading), ("h3", heading), ("h4", heading), ("h5", heading),
    ("h6", heading),
    ("head", ["a", "abbr", "acronym", "address", "b", "bdo", "big", "blockquote", "body", "br",
      "center", "cite", "code", "dd", "dfn", "dir", "div", "dl", "dt", "em", "fieldset", "font",
      "form", "frameset", "h1", "h2", "h3", "h4", "h5", "h6", "hr", "i", "iframe", "img", "kbd",
      "li", "listing", "map", "menu", "ol", "p", "pre", "q", "s", "samp", "small", "span",
      "strike", "strong", "sub", "sup", "table", "tt", "u", "ul", "var", "xmp"]),
    ("hr", ["form"]),
    ("i", ["center"]),
    ("legend", ["fieldset"]),
    ("li", ["li"]),
    ("link", ["body", "frameset"]),
    ("listing", block),
    ("menu", ["dd", "dl", "dt", "form", "ul"]),
    ("ol", ["form"]),
    ("option", ["optgroup", "option"]),
    ("p", ["address", "blockquote", "body", "caption", "center", "col", "colgroup", "dd", "dir",
      "div", "dl", "dt", "frameset", "h1", "h2", "h3", "h4", "h5", "h6", "head", "hr", "li",
      "listing", "menu", "ol", "p", "pre", "table", "tbody", "td", "tfoot", "th", "title", "tr",
      "ul", "xmp"]),
    ("pre", block),
    ("s", ["p"]),
    ("script", ["noscript"]),
    ("small", ["p"]),
    ("span", ["td", "th"]),
    ("strike", ["p"]),
    ("style", ["body", "frameset"]),
    ("tbody", ["tbody", "tfoot"]),
    ("td", ["tbody", "td", "tfoot", "th", "tr"]),
    ("tfoot", ["tbody"]),
    ("th", ["tbody", "td", "tfoot", "th", "tr"]),
    ("thead", ["tbody", "tfoot"]),
    ("title", ["body", "frameset"]),
    ("tr", ["tbody", "tfoot", "tr"]),
    ("tt", ["p"]),
    ("u", ["p", "td", "th"]),
    ("ul", ["address", "form", "menu", "ol", "pre"]),
    ("xmp", block)]

/-- Whether an element of the first name ends where one of the second name starts. -/
def isEndedBy (old new : String) : Bool := ((endedBy.lookup old).getD []).contains new

def voidElements : List String :=
  ["area", "base", "basefont", "br", "col", "frame", "hr", "img", "input", "isindex", "link",
    "meta", "param"]

/-- Elements that belong into the head where nothing is open but the whole. -/
def headElements : List String := ["script", "style", "meta", "link", "title", "base"]

/-- Elements that stand outside of a body. -/
def frameElements : List String := ["noframes", "frame", "frameset"]

/-- How strongly an open element stands against end tags around it. -/
def strength (name : String) : Nat :=
  ([("div", 150), ("td", 160), ("th", 160), ("tr", 170), ("thead", 180), ("tbody", 180),
    ("tfoot", 180), ("table", 190), ("head", 200), ("body", 200), ("html", 220)].lookup name).getD
    100

/-- Attributes that stand for themselves where they have no value. -/
def flagAttributes : List String :=
  ["checked", "compact", "declare", "defer", "disabled", "ismap", "multiple", "nohref", "noresize",
    "noshade", "nowrap", "readonly", "selected"]

def attributeOf (a : String × Option String) : Attribute :=
  ⟨.plain a.1, a.2.getD (if flagAttributes.contains a.1 then a.1 else "")⟩

/-- A tree under construction. -/
structure Growth where
  builder : Builder := .fresh
  /-- Whether a head was opened. -/
  headSeen : Bool := false
  /-- Whether a body was opened. -/
  bodySeen : Bool := false
  /-- The number of tags that were ignored because their element was open, and whose end tags are
  to be ignored too. -/
  ignored : Nat := 0

namespace Growth

def frameName (f : Label × Draft) : String :=
  match f.1 with
  | .element n .. => n.base
  | _ => ""

/-- The names of the open elements, innermost first. -/
def names (g : Growth) : List String := g.builder.frames.map frameName

def push (g : Growth) (name : String) (attributes : List Attribute) : Growth :=
  { g with
    builder := g.builder.push (.element (.plain name) attributes [])
    headSeen := g.headSeen || name == "head" || name == "body"
    bodySeen := g.bodySeen || name == "body" }

/-- Closes the innermost open elements, at most a number of them. -/
def popTimes (g : Growth) (n : Nat) : Growth := { g with builder := g.builder.popTimes n }

/-- Closes the elements that end where one of a name starts. -/
def autoClose (g : Growth) (new : String) : Growth :=
  g.popTimes (g.names.takeWhile (isEndedBy · new)).length

/-- Opens the element for the whole if nothing is open. -/
def implyWhole (g : Growth) : Growth := if g.names.isEmpty then g.push "html" [] else g

/-- Opens the elements that one of a name stands in. -/
def imply (g : Growth) (new : String) : Growth :=
  if new == "html" then g
  else
    let g := g.implyWhole
    if new == "body" || new == "head" then g
    else if g.names.length ≤ 1 && headElements.contains new then
      if g.headSeen then g else g.push "head" []
    else if frameElements.contains new || g.bodySeen || g.names.contains "body" ||
        g.names.contains "head" then g
    else g.push "body" []

/-- Whether a start tag is ignored: the whole and the body are opened once, the head only where
nothing but the whole is open. -/
def ignores (g : Growth) (name : String) : Bool :=
  (name == "html" && !g.names.isEmpty) || (name == "head" && g.names.length != 1) ||
    (name == "body" && g.names.contains "body")

def startTag (g : Growth) (name : String) (attributes : List (String × Option String))
    (closed : Bool) : Growth :=
  let g := (g.autoClose name).imply name
  if g.ignores name then { g with ignored := g.ignored + 1 }
  else
    let g := g.push name (attributes.map attributeOf)
    if closed || voidElements.contains name then g.popTimes 1 else g

/-- The number of elements that an end tag closes: those up to the innermost one of its name, none
if a stronger one is open in between. -/
def closing (name : String) : List String → Nat
  | [] => 0
  | n :: ns =>
    if n == name then 1
    else if strength name < strength n then 0
    else match closing name ns with
      | 0 => 0
      | k + 1 => k + 2

def endTag (g : Growth) (name : String) : Growth :=
  if 0 < g.ignored && (name == "html" || name == "body" || name == "head") then
    { g with ignored := g.ignored - 1 }
  else g.popTimes (closing name g.names)

/-- Whether a text that is not blank opens a body. -/
def outsideBody (g : Growth) : Bool :=
  match g.names with
  | [] => true
  | n :: _ => n == "html" || n == "head"

/-- A text.  Outside of the body its blanks at the start stay where they are, and what follows
belongs into the body. -/
def text (g : Growth) (s : String) : Growth :=
  if g.outsideBody then
    let cs := s.toList
    let g := { g with builder := g.builder.addText (String.ofList (cs.takeWhile isGap)) }
    match cs.dropWhile isGap with
    | [] => g
    | rest =>
      -- The text is taken as if a paragraph started, but no paragraph is opened for it.
      let g := if g.names.head? == some "head" then g.autoClose "p" else g
      let g := g.imply "p"
      { g with builder := g.builder.addText (String.ofList rest) }
  else { g with builder := g.builder.addText s }

/-- The tree with a token at its end. -/
def add (g : Growth) : Token → Growth
  | .startTag name attributes closed => g.startTag name attributes closed
  | .endTag name => g.endTag name
  | .text s => g.text s
  | .rawText s => { g with builder := g.builder.addText s }
  | .comment s => { g with builder := g.builder.addLeaf (.comment s) }

end Growth

def parse (cs : List Char) : Document :=
  ((tokens cs).foldl Growth.add {}).builder.finish

end Harvest.Markup.Html
