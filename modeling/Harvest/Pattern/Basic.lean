import Harvest.Text.Blank
import Harvest.Text.Case
import Harvest.Text.Digit
import Harvest.Text.Word

/-!
# Patterns

Regular expressions with captures, repetitions in three tempers, look-around, conditions on captures
and atomic groups.  Characters are code points, so that a pattern may name ones that no text holds.
-/

namespace Harvest

namespace Pattern

structure Mode where
  ignoreCase : Bool := false
  asciiOnly : Bool := false
deriving DecidableEq, Repr, Inhabited

/-- Classes of characters with a letter of their own. -/
inductive Category
  | digit
  | space
  | word
deriving DecidableEq, Repr

inductive Item
  | code (n : Nat)
  | range (low high : Nat)
  | category (c : Category) (negated : Bool)
deriving DecidableEq, Repr

structure CharSet where
  items : List Item
  negated : Bool
deriving DecidableEq, Repr

inductive Boundary
  | textStart
  | lineStart
  | textEnd
  /-- The end of the text or the place before a line feed that ends it. -/
  | lastLineEnd
  | lineEnd
  | wordEdge (asciiOnly : Bool)
  | notWordEdge (asciiOnly : Bool)
deriving DecidableEq, Repr

/-- How many repetitions are preferred. -/
inductive Temper
  | greedy
  | lazy
  | possessive
deriving DecidableEq, Repr

/-- A number of repetitions: at least `least` and, if there is a bound, at most `most`. -/
structure Bounds where
  least : Nat
  most : Option Nat
deriving DecidableEq, Repr

/-- Whether one more repetition is allowed after `count` of them. -/
def Bounds.allow (b : Bounds) (count : Nat) : Bool :=
  match b.most with
  | none => true
  | some most => count < most

end Pattern

open Pattern in
inductive Pattern
  | empty
  | one (set : CharSet) (mode : Mode)
  /-- Any character; without `lineFeeds` any but a line feed. -/
  | any (lineFeeds : Bool)
  | place (p : Boundary)
  | seq (first second : Pattern)
  | either (first second : Pattern)
  | repeated (body : Pattern) (bounds : Bounds) (temper : Temper)
  | capture (group : Nat) (body : Pattern)
  | again (group : Nat) (mode : Mode)
  | ahead (body : Pattern) (negated : Bool)
  | behind (width : Nat) (body : Pattern) (negated : Bool)
  | atomic (body : Pattern)
  | ifCaptured (group : Nat) (yes no : Pattern)
deriving DecidableEq, Repr, Inhabited

namespace Pattern

def Category.holds (c : Category) (asciiOnly : Bool) (x : Char) : Bool :=
  (!asciiOnly || x.toNat < 0x80) &&
    match c with
    | .digit => Text.isDecimal x
    | .space => Text.isBlank x && !(asciiOnly && 0x1C ≤ x.toNat && x.toNat ≤ 0x1F)
    | .word => Text.isWord x

/-- The characters that equal a character where case is ignored. -/
def fellows (x : Char) : List Char :=
  let low := Text.caseClass (Text.lowerChar x)
  low ++ low.flatMap Text.capitals

/-- Whether an element of a set holds a character, case taken into account. -/
def Item.holds (i : Item) (asciiOnly : Bool) (x : Char) : Bool :=
  match i with
  | .code n => x.toNat == n
  | .range low high => Nat.ble low x.toNat && Nat.ble x.toNat high
  | .category c negated => c.holds asciiOnly x != negated

/-- Whether an element of a set holds a character or, where case is ignored, one that equals it.
Where only ASCII counts, characters outside of it have no case. -/
def Item.matches (i : Item) (mode : Mode) (x : Char) : Bool :=
  i.holds mode.asciiOnly x ||
    match i with
    | .category .. => false
    | _ => mode.ignoreCase && (!mode.asciiOnly || x.toNat < 0x80) && (fellows x).any fun y =>
        (!mode.asciiOnly || y.toNat < 0x80) && i.holds mode.asciiOnly y

def CharSet.matches (s : CharSet) (mode : Mode) (x : Char) : Bool :=
  s.items.any (·.matches mode x) != s.negated

def literal (mode : Mode) (cs : List Char) : Pattern :=
  cs.foldr (fun c p => .seq (.one ⟨[.code c.toNat], false⟩ mode) p) .empty

def concat (ps : List Pattern) : Pattern := ps.foldr .seq .empty

def choice : List Pattern → Pattern
  | [] => .empty
  | [p] => p
  | p :: ps => .either p (choice ps)

end Pattern

end Harvest
