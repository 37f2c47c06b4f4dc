import Harvest.Json.Value
import Harvest.XPath.Reader

/-!
# Rules

A rule says which nodes a field is read from, what is taken away before, and whether a node gives
its text or further fields.  A schema is a list of named rules.
-/

namespace Harvest

/-- A selector with the text that writes it. -/
structure Selector where
  text : String
  query : XPath
  read_text : XPath.read? text = some query

inductive Pipeline
  | nothing
  | single (name : String)
  | chain (names : List String)
deriving DecidableEq, Repr

def Pipeline.names : Pipeline → List String
  | nothing => []
  | single name => [name]
  | chain names => names

/-- What a rule says about its own nodes. -/
structure RuleHead where
  selector : Selector
  forceArray : Bool := false
  removeSelector : Option Selector := none
  transform : Pipeline := .nothing
  options : Members := []

/-- A rule: a leaf gives the text of its nodes, a nested rule gives fields of each of them. -/
inductive Rule
  | leaf (head : RuleHead)
  | nested (head : RuleHead) (fields : List (String × Rule))

abbrev Schema := List (String × Rule)

namespace Rule

/-- What the rule says about its own nodes. -/
def head : Rule → RuleHead
  | leaf h => h
  | nested h _ => h

/-- The fields of the nodes; a leaf has none. -/
def fields? : Rule → Option Schema
  | leaf _ => none
  | nested _ fs => some fs

mutual

/-- A rule and all rules below it, each in front of those below. -/
def all : Rule → List Rule
  | leaf h => [leaf h]
  | nested h fs => nested h fs :: allOf fs

def allOf : List (String × Rule) → List Rule
  | [] => []
  | (_, r) :: rest => all r ++ allOf rest

end

end Rule

/-- All rules of a schema, each in front of those below it. -/
def Schema.rules (s : Schema) : List Rule := Rule.allOf s

end Harvest
