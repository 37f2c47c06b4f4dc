import Harvest.Match
import Harvest.Schema.Compile

/-!
# Extraction

A schema read against a document: every rule selects its matches, takes away what it is told to, and
turns each match into a text, a transformed value or a record of fields.  One value stands for
itself, several stand in a list; a rule without a value leaves no field.
-/

namespace Harvest

open Markup (Document Label Language Source MarkupError)

/-- Where a rule's selector of what is taken away is evaluated. -/
inductive PruneScope
  /-- Against the context of the rule, before its own selector. -/
  | context
  /-- Against each match. -/
  | eachMatch
deriving DecidableEq, Repr, Inhabited

namespace PruneScope

def named : List (String × PruneScope) := [("context", context), ("match", eachMatch)]

def name : PruneScope → String
  | context => "context"
  | eachMatch => "match"

end PruneScope

/-- Why an extraction gives nothing. -/
inductive ExtractError
  | transform (error : TransformError)
  /-- A selector is to be evaluated against a node, of a document in a language, that is no
  element. -/
  | notElement (language : Language) (label : Label)
  /-- A regular expression in a selector cannot be used. -/
  | pattern (error : XPath.EvalError)
  | markup (error : MarkupError)
  | unsupportedScope (name : String)

namespace ExtractError

/-- A failure that the schema is to blame for. -/
def schema (e : SchemaError) : ExtractError := .transform (.schema e)

/-- The kind of a node that is no element, in the words of its language. -/
def kindOf : Language → Label → String
  | .html, .comment _ => "HtmlComment"
  | .html, .instruction .. => "HtmlProcessingInstruction"
  | .html, .entity .. => "HtmlEntity"
  | .xml, .comment _ => "lxml.etree._Comment"
  | .xml, .instruction .. => "lxml.etree._ProcessingInstruction"
  | .xml, .entity .. => "lxml.etree._Entity"
  | .html, .element .. => "HtmlElement"
  | .xml, .element .. => "lxml.etree._Element"

/-- What is wrong with a regular expression in a selector, in words. -/
def patternMessage : XPath.EvalError → String
  | .flagConflict => "ASCII and UNICODE flags are incompatible"
  | .argumentCount expected name given =>
    name ++ "() takes " ++ expected ++ " positional arguments (" ++ toString given ++ " given)"
  | _ => ""

/-- An error in words; those of transformations that are no fault of the schema have none here. -/
def message : ExtractError → String
  | .transform (.schema e) => e.message
  | .transform _ => ""
  | .notElement language label => "Input object is not an XML element: " ++ kindOf language label
  | .pattern e => patternMessage e
  | .markup e => e.message
  | .unsupportedScope name => "Unsupported prune scope: " ++ name

/-- Whether the error is one that reading a document is known to give: a fault of the schema or of
the markup. -/
def isExpected : ExtractError → Bool
  | .transform (.schema _) => true
  | .markup _ => true
  | _ => false

end ExtractError

/-- How documents are read and pruned, and what the names of transformations stand for. -/
structure Extractor where
  registry : Registry := .standard
  scope : PruneScope := .context
  language : Language := .html

def PruneScope.ofName (name : String) : Except ExtractError PruneScope :=
  match PruneScope.named.lookup name with
  | some scope => .ok scope
  | none => .error (.unsupportedScope name)

/-- A step of an extraction.  What was taken out of the document stays so when a later step
fails. -/
abbrev Extraction := ExceptT ExtractError (StateM Document)

namespace Extractor

def select (x : Extractor) (context : Nat) (selector : Selector) : Extraction (List Match) := do
  match (← get).select x.language context selector.query with
  | .ok (found, d) =>
    set d
    return found
  | .error (.notElement label) => throw (.notElement x.language label)
  | .error (.eval .unfit) => throw (.schema (.unusableSelector selector.text))
  | .error (.eval e) => throw (.pattern e)

/-- Takes out what a selector finds, and counts what was taken out. -/
def prune (x : Extractor) (context : Nat) (selector : Selector) : Extraction Nat := do
  let found ← x.select context selector
  let (d, n) := Match.detachAll (← get) found
  set d
  return n

/-- Takes out what a rule names, where the scope is a given one. -/
def pruneFor (x : Extractor) (scope : PruneScope) (context : Nat) (head : RuleHead) :
    Extraction Unit := do
  match head.removeSelector with
  | some selector => if x.scope = scope then discard (x.prune context selector)
  | none => return ()

/-- What a list of values stands for. -/
def shape (forceArray : Bool) : List Json → Option Json
  | [] => if forceArray then some (.list []) else none
  | [v] => some (if forceArray then .list [v] else v)
  | vs => some (.list vs)

def leafValue (x : Extractor) (head : RuleHead) (m : Match) : Extraction (Option Json) := do
  let text := Json.str (m.read (← get))
  match x.registry.applyChain head.transform.names text head.options with
  | .ok .null => return none
  | .ok v => return some v
  | .error e => throw (.transform e)

/-- The values of matches, each of them pruned first where the scope asks for it. -/
def gather (x : Extractor) (head : RuleHead) (value : Match → Extraction (Option Json)) :
    List Match → Extraction (List Json)
  | [] => return []
  | m :: ms => do
    -- A match may stand inside a later one, which is then read without what is taken out here.
    if let .node id := m then x.pruneFor .eachMatch id head
    let v ← value m
    let vs ← gather x head value ms
    return v.toList ++ vs

/-- The value of a rule, where the value of a match is given. -/
def ruleValue (x : Extractor) (context : Nat) (head : RuleHead)
    (value : Match → Extraction (Option Json)) : Extraction (Option Json) := do
  x.pruneFor .context context head
  let found ← x.select context head.selector
  return shape head.forceArray (← x.gather head value found)

mutual

/-- The fields of a schema that have a value. -/
def walk (x : Extractor) (context : Nat) : List (String × Rule) → Extraction Members
  | [] => return []
  | (name, rule) :: rest => do
    let v ← evaluate x context rule
    let more ← walk x context rest
    return match v with
      | some v => (name, v) :: more
      | none => more

/-- The value of a rule; fields are only read from nodes. -/
def evaluate (x : Extractor) (context : Nat) : Rule → Extraction (Option Json)
  | .leaf head => x.ruleValue context head (x.leafValue head)
  | .nested head fields => x.ruleValue context head fun m => match m with
    | .node id => do return some (.map (← walk x id fields))
    | _ => return none

end

/-- The fields of a document for a schema whose transformations are known. -/
def extractFrom (x : Extractor) (schema : Schema) (d : Document) :
    Except ExtractError Members × Document :=
  match d.root? with
  | some root => (walk x root schema).run d
  | none => (.error (.markup .empty), d)

/-- The fields of a node of a document that is there already. -/
def extractAt (x : Extractor) (schema : Schema) (context : Nat) : Extraction Members :=
  match schema.checkTransformations x.registry with
  | .ok _ => walk x context schema
  | .error e => throw (.schema e)

/-- The fields of markup for a schema. -/
def extract (x : Extractor) (schema : Schema) (source : Source) : Except ExtractError Members := do
  match schema.checkTransformations x.registry with
  | .ok _ => pure ()
  | .error e => throw (.schema e)
  match source.parse x.language with
  | .ok d => (x.extractFrom schema d).1
  | .error e => throw (.markup e)

end Extractor

end Harvest
