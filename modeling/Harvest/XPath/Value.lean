import Harvest.XPath.Node
import Harvest.XPath.Number

/-!
# Values of selectors

A selector gives nodes in document order, a truth value, a number or a text.  Each of them counts as
any of the others but nodes.
-/

namespace Harvest.XPath

open Markup (Outline)

inductive Value
  /-- Nodes in document order, each of them once. -/
  | nodes (ns : List Node)
  | boolean (b : Bool)
  | number (x : Binary64)
  | text (s : String)
deriving Inhabited

namespace Value

/-- The text of a value; of nodes that of the first one. -/
def string (o : Outline) : Value → String
  | nodes ns => (ns.head?.map (·.string o)).getD ""
  | boolean b => if b then "true" else "false"
  | number x => textOfNumber x
  | text s => s

def toNumber (o : Outline) : Value → Binary64
  | nodes ns => numberOfText ((nodes ns).string o)
  | boolean b => if b then Binary64.ofNat 1 else Binary64.zero false
  | number x => x
  | text s => numberOfText s

def truth : Value → Bool
  | nodes ns => !ns.isEmpty
  | boolean b => b
  | number x => !x.isUndefined && !x.eq (Binary64.zero false)
  | text s => !s.isEmpty

/-! ## Comparison -/

/-- Whether two values without nodes are equal: as truth values if one is such, else as numbers if
one is such, else as texts. -/
def sameScalar (o : Outline) (a b : Value) : Bool :=
  match a, b with
  | boolean x, _ => x == b.truth
  | _, boolean y => a.truth == y
  | number x, _ => x.eq (b.toNumber o)
  | _, number y => (a.toNumber o).eq y
  | _, _ => a.string o == b.string o

/-- Whether some of the nodes stand in a relation of equality or of inequality to a value. -/
def someSame (o : Outline) (ns : List Node) (equal : Bool) : Value → Bool
  | nodes ms => ns.any fun n => ms.any fun m => (n.string o == m.string o) == equal
  | boolean b => (!ns.isEmpty == b) == equal
  | number x => ns.any fun n => (numberOfText (n.string o)).eq x == equal
  | text s => ns.any fun n => (n.string o == s) == equal

/-- Whether two values are equal, or unequal.  Nodes are if one of them is. -/
def same (o : Outline) (equal : Bool) (a b : Value) : Bool :=
  match a, b with
  | nodes ns, _ => someSame o ns equal b
  | _, nodes ns => someSame o ns equal a
  | _, _ => sameScalar o a b == equal

def ordered (op : Operator) (x y : Binary64) : Bool :=
  match op with
  | .less => x.lt y
  | .lessEqual => x.le y
  | .greater => y.lt x
  | _ => y.le x

/-- Whether two values stand in a relation of order, as numbers.  Nodes do if one of them does,
except against a truth value. -/
def compare (o : Outline) (op : Operator) (a b : Value) : Bool :=
  match a, b with
  | nodes ns, nodes ms => ns.any fun n => ms.any fun m =>
      ordered op (numberOfText (n.string o)) (numberOfText (m.string o))
  | nodes ns, boolean _ => ordered op ((boolean (nodes ns).truth).toNumber o) (b.toNumber o)
  | boolean _, nodes ns => ordered op (a.toNumber o) ((boolean (nodes ns).truth).toNumber o)
  | nodes ns, _ => ns.any fun n => ordered op (numberOfText (n.string o)) (b.toNumber o)
  | _, nodes ns => ns.any fun n => ordered op (a.toNumber o) (numberOfText (n.string o))
  | _, _ => ordered op (a.toNumber o) (b.toNumber o)

def calculate (op : Operator) (x y : Binary64) : Binary64 :=
  match op with
  | .add => x.add y
  | .subtract => x.sub y
  | .multiply => x.mul y
  | .divide => x.div y
  | _ => x.rem y

end Value

end Harvest.XPath
