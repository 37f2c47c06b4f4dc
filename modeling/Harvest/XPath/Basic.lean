import Harvest.Decimal.Arithmetic

/-!
# Selectors

The expressions of the selector language: paths through a document, operators and function calls.
-/

namespace Harvest.XPath

inductive Axis
  | ancestor
  | ancestorOrSelf
  | attributes
  | child
  | descendant
  | descendantOrSelf
  | following
  | followingSibling
  | namespaces
  | parent
  | preceding
  | precedingSibling
  | self
deriving DecidableEq, Repr

namespace Axis

def named : List (String × Axis) :=
  [("ancestor", ancestor), ("ancestor-or-self", ancestorOrSelf), ("attribute", attributes),
    ("child", child), ("descendant", descendant), ("descendant-or-self", descendantOrSelf),
    ("following", following), ("following-sibling", followingSibling), ("namespace", namespaces),
    ("parent", parent), ("preceding", preceding), ("preceding-sibling", precedingSibling),
    ("self", self)]

end Axis

/-- What the nodes of a step must be. -/
inductive NodeTest
  /-- Any node. -/
  | node
  | text
  | comment
  /-- A processing instruction, of a given target if one is named. -/
  | instruction (target : Option String)
  /-- A node of the axis's kind, in the namespace of a prefix if one is named. -/
  | any (qualifier : Option String)
  /-- A node of the axis's kind with a name. -/
  | name (qualifier : Option String) (name : String)
deriving DecidableEq, Repr

/-- Operators between two operands. -/
inductive Operator
  | or
  | and
  | equal
  | unequal
  | less
  | lessEqual
  | greater
  | greaterEqual
  | add
  | subtract
  | multiply
  | divide
  | remainder
  | union
deriving DecidableEq, Repr

end XPath

open XPath in
inductive XPath
  | text (value : String)
  | number (value : Binary64)
  | variableValue (qualifier : Option String) (name : String)
  | call (qualifier : Option String) (name : String) (arguments : List XPath)
  | binary (op : Operator) (left right : XPath)
  | negate (operand : XPath)
  /-- The document. -/
  | root
  /-- The node that the selector is evaluated against. -/
  | context
  /-- The nodes on an axis of every node of the input; the predicates choose among the nodes of one
  input node. -/
  | step (input : XPath) (axis : Axis) (test : NodeTest) (predicates : List XPath)
  /-- The nodes of the input that a predicate chooses. -/
  | filter (input predicate : XPath)
deriving Inhabited

end Harvest
