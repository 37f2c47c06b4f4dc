/-!
# Wildcards

Patterns for a single name: an asterisk stands for any characters, a question mark for one, and
brackets for one of the characters inside.  Brackets that are never closed stand for themselves.

Inside brackets a hyphen between two characters makes a range.  Hyphens cut the inside into chunks;
a range whose ends are in the wrong order holds nothing and is taken out before the rest is read.
-/

namespace Harvest

inductive Glyph
  | exactly (c : Char)
  | anyOne
  | anyText
  /-- One of the characters in the ranges, or one that is in none of them. -/
  | oneOf (negated : Bool) (ranges : List (Char × Char))
deriving DecidableEq, Repr

namespace Glyph

def allows (c : Char) : Glyph → Bool
  | exactly d => c == d
  | anyOne => true
  | anyText => false
  | oneOf negated ranges => (ranges.any fun r => r.1 ≤ c && c ≤ r.2) != negated

end Glyph

abbrev Wildcard := List Glyph

namespace Wildcard

/-! ## Brackets -/

/-- The text in front of the closing bracket and the text behind it.  A bracket that comes first,
after a mark of negation perhaps, closes nothing. -/
def insideOf? (cs : List Char) : Option (List Char × List Char) :=
  let mark := if cs.head? == some '!' then ['!'] else []
  let afterMark := cs.drop mark.length
  let first := if afterMark.head? == some ']' then [']'] else []
  let rest := afterMark.drop first.length
  match rest.dropWhile (· != ']') with
  | _ :: after => some (mark ++ first ++ rest.takeWhile (· != ']'), after)
  | [] => none

/-- The chunks between hyphens that make ranges, where a chunk has at least the given number of
characters and the chunks after it at least two.  The bound is the number of characters. -/
def chunksFrom : Nat → Nat → List Char → List (List Char)
  | 0, _, cs => [cs]
  | bound + 1, least, cs =>
    let rest := cs.drop least
    match rest.dropWhile (· != '-') with
    | _ :: after => (cs.take least ++ rest.takeWhile (· != '-')) :: chunksFrom bound 2 after
    | [] => [cs]

/-- A hyphen at the end stands for itself. -/
def closeLast : List (List Char) → List (List Char)
  | [c, []] => [c ++ ['-']]
  | c :: cs => c :: closeLast cs
  | [] => []

def chunks (inside : List Char) : List (List Char) :=
  closeLast (chunksFrom inside.length (if inside.head? == some '!' then 2 else 1) inside)

/-- The chunks without the ranges whose ends are in the wrong order. -/
def dropBackward : List (List Char) → List (List Char)
  | [] => []
  | c :: cs => match dropBackward cs with
    | [] => [c]
    | d :: ds => match c.getLast?, d.head? with
      | some a, some b => if b < a then (c.dropLast ++ d.tail) :: ds else c :: d :: ds
      | _, _ => c :: d :: ds

/-- The characters of chunks, with nothing for every hyphen between them. -/
def joinChunks : List (List Char) → List (Option Char)
  | [] => []
  | [c] => c.map some
  | c :: cs => c.map some ++ none :: joinChunks cs

/-- The ranges that characters and hyphens between chunks make. -/
def rangesOf : List (Option Char) → List (Char × Char)
  | some a :: none :: some b :: r => (a, b) :: rangesOf r
  | some a :: r => (a, a) :: rangesOf r
  | none :: r => ('-', '-') :: rangesOf r
  | [] => []

def bracket (inside : List Char) : Glyph :=
  match joinChunks (dropBackward (chunks inside)) with
  | [some '!'] => .anyOne
  | some '!' :: r => .oneOf true (rangesOf r)
  | r => .oneOf false (rangesOf r)

/-! ## Patterns -/

/-- The pattern that characters write.  The bound is their number. -/
def ofCharsBounded : Nat → List Char → Wildcard
  | bound + 1, c :: cs =>
    if c == '*' then .anyText :: ofCharsBounded bound cs
    else if c == '?' then .anyOne :: ofCharsBounded bound cs
    else if c == '[' then match insideOf? cs with
      | some (inside, after) => bracket inside :: ofCharsBounded bound after
      | none => .exactly '[' :: ofCharsBounded bound cs
    else .exactly c :: ofCharsBounded bound cs
  | _, _ => []

def ofString (s : String) : Wildcard := ofCharsBounded s.length s.toList

/-- Whether the rest of a name fits what comes after any text. -/
def someSuffix (fits : List Char → Bool) : List Char → Bool
  | [] => fits []
  | c :: cs => fits (c :: cs) || someSuffix fits cs

def fits : Wildcard → List Char → Bool
  | [], cs => cs.isEmpty
  | .anyText :: ps, cs => someSuffix (fits ps) cs
  | _ :: _, [] => false
  | p :: ps, c :: cs => p.allows c && fits ps cs

def isSign (c : Char) : Bool := c == '*' || c == '?' || c == '['

def hasSigns (s : String) : Bool := s.toList.any isSign

end Wildcard

end Harvest
