import Harvest.Decimal.Layout
import Harvest.Text.Quoted

/-!
# JSON values

Values with ordered members.  Integers have any size and differ from floating-point numbers of the
same value.  A member list keeps the order in which its keys first appeared.
-/

namespace Harvest

inductive Json
  | null
  | bool (value : Bool)
  | int (value : Int)
  | float (value : Binary64)
  | str (value : String)
  | list (items : List Json)
  | map (members : List (String × Json))
deriving Inhabited

abbrev Members := List (String × Json)

namespace Members

def get? (ms : Members) (key : String) : Option Json := List.lookup key ms

def has (ms : Members) (key : String) : Bool := (ms.get? key).isSome

/-- Sets the value of a key: in its place if it is there, else at the end. -/
def put (key : String) (value : Json) : Members → Members
  | [] => [(key, value)]
  | (k, v) :: rest => if k == key then (k, value) :: rest else (k, v) :: put key value rest

/-- Members given in order, where a repeated key keeps its first place and its last value. -/
def ofPairs (pairs : List (String × Json)) : Members :=
  pairs.foldl (fun ms p => ms.put p.1 p.2) []

def keys (ms : Members) : List String := ms.map (·.1)

end Members

namespace Json

/-- Whether keys are in code point order. -/
def keyLe (a b : String × Json) : Bool := decide (a.1 ≤ b.1)

mutual

/-- The value with the members of every mapping in the order of their keys. -/
def sortKeys : Json → Json
  | .list xs => .list (sortItems xs)
  | .map ms => .map ((sortMembers ms).mergeSort keyLe)
  | v => v

def sortItems : List Json → List Json
  | [] => []
  | x :: xs => sortKeys x :: sortItems xs

def sortMembers : List (String × Json) → List (String × Json)
  | [] => []
  | (k, v) :: ms => (k, sortKeys v) :: sortMembers ms

end

mutual

/-- The text of a value inside a list or mapping, with strings quoted. -/
def inner : Json → String
  | .null => "None"
  | .bool true => "True"
  | .bool false => "False"
  | .int i => toString i
  | .float x => Decimal.general x
  | .str s => Text.quoted s
  | .list xs => "[" ++ String.intercalate ", " (innerItems xs) ++ "]"
  | .map ms => "\x7b" ++ String.intercalate ", " (innerMembers ms) ++ "\x7d"

def innerItems : List Json → List String
  | [] => []
  | x :: xs => inner x :: innerItems xs

def innerMembers : List (String × Json) → List String
  | [] => []
  | (k, v) :: ms => (Text.quoted k ++ ": " ++ inner v) :: innerMembers ms

end

/-- The text of a value: a string is its own text. -/
def display : Json → String
  | .str s => s
  | v => inner v

end Json

end Harvest
