import Harvest.Markup.Source
import Harvest.Pattern.Replace
import Harvest.XPath.Function

/-!
# Evaluating selectors

The value of a selector on a document.  The functions on regular expressions may add trees of their
results to the document; nothing else changes it.
-/

namespace Harvest.XPath

open Markup (Outline Document Label Content Language)

inductive EvalError
  /-- Something is asked of a value that it cannot give. -/
  | unfit
  /-- A regular expression that is none. -/
  | badPattern
  | tooManyRepetitions
  | flagConflict
  /-- A replacement names a group that the pattern does not have. -/
  | unknownGroup
  /-- A function on regular expressions gets a wrong number of arguments. -/
  | argumentCount (expected : String) (name : String) (given : Nat)
deriving DecidableEq, Repr

/-- A document with its outline. -/
structure Scene where
  document : Document
  outline : Outline
  language : Language

def Scene.ofDocument (d : Document) (language : Language) : Scene :=
  ⟨d, .ofDocument d, language⟩

def Scene.addTree (s : Scene) (c : Content) (hp : c.Proper) (hw : c.Whole) : Scene :=
  let d := s.document.addTree c hp hw
  ⟨d, .ofDocument d, s.language⟩

/-- An evaluation, which may add to the scene or fail. -/
abbrev Eval := StateT Scene (Except EvalError)

def getOutline : Eval Outline := do return (← get).outline

/-- What is there, or the error that it is not. -/
def orUnfit {α : Type} : Option α → Eval α
  | some v => return v
  | none => throw .unfit

/-- The namespace of a qualifier, which has to have one. -/
def resolve : Option String → Eval (Option String)
  | none => return none
  | some q => do return some (← orUnfit (qualifiers.lookup q))

/-! ## Functions on regular expressions -/

/-- The text of an argument; nodes of no kind that has text give an empty one. -/
def patternText (o : Outline) : Value → String
  | .nodes ns => match ns.filter (· != .document) with
    | [] => ""
    | n :: _ => n.string o
  | .boolean b => if b then "True" else "False"
  | .number x => Decimal.general x
  | .text s => s

def readPattern (text : String) (flags : String) : Eval Pattern.Compiled :=
  match Pattern.read text (flags.toList.contains 'i') with
  | .ok p => return p
  | .error .malformed => throw .badPattern
  | .error .tooManyRepetitions => throw .tooManyRepetitions
  | .error .flagConflict => throw .flagConflict

/-- The content of an element for every text. -/
def matchContent : List String → Content
  | [] => .empty
  | s :: ss => .node "" 0 (.element (.plain "match") [] []) (.text s) (matchContent ss)

theorem proper_matchContent (texts : List String) : (matchContent texts).Proper := by
  induction texts with
  | nil => trivial
  | cons s ss ih => exact ⟨by simp [Label.isElement], trivial, ih⟩

/-- An element with elements for texts in it. -/
def matchTree (texts : List String) : Content :=
  .single 0 (.element (.plain "matches") [] []) (matchContent texts)

theorem proper_matchTree (texts : List String) : (matchTree texts).Proper :=
  ⟨by simp [Label.isElement], proper_matchContent texts, trivial⟩

/-- The elements for texts, which stand in one of their own. -/
def matchNodes (texts : List String) : Eval Value := do
  if texts.isEmpty then return .nodes []
  -- The new tree stands behind all that is there, so its entries have the next positions.
  let s ← get
  let start := s.outline.entries.size
  let s := s.addTree (matchTree texts) (proper_matchTree texts) (.single ..)
  set s
  return .nodes ((s.outline.children start).map .entry)

/-- The result of a function on regular expressions. -/
def callPattern (name : String) (args : List Value) : Eval Value := do
  let o ← getOutline
  match name, args.map (patternText o) with
  | "test", s :: rexp :: rest =>
    if 1 < rest.length then throw (.argumentCount "at most 4" name (args.length + 1))
    let p ← readPattern rexp (rest.headD "")
    return .boolean (Pattern.test p s)
  | "match", s :: rexp :: rest =>
    if 1 < rest.length then throw (.argumentCount "at most 4" name (args.length + 1))
    let flags := rest.headD ""
    let p ← readPattern rexp flags
    matchNodes
      (if flags.toList.contains 'g' then Pattern.allMatches p s else Pattern.firstMatch p s)
  | "replace", [s, rexp, flags, template] =>
    let p ← readPattern rexp flags
    match Pattern.replace p s template (flags.toList.contains 'g') with
    | .ok s => return .text s
    | .error .malformed => throw .badPattern
    | .error (.unknownName _) => throw .unknownGroup
  | "replace", _ => throw (.argumentCount "exactly 5" name (args.length + 1))
  | "test", _ => throw (.argumentCount "at least 3" name (args.length + 1))
  | "match", _ => throw (.argumentCount "at least 3" name (args.length + 1))
  | _, _ => throw .unfit

/-- The result of a function by its qualified name. -/
def callNamed (focus : Focus) (qualifier : Option String) (name : String) (args : List Value) :
    Eval Value := do
  match ← resolve qualifier with
  | none =>
    let s ← get
    orUnfit (callFunction s.outline (s.language == .html) focus name args)
  | some _ => if qualifier = some "re" then callPattern name args else throw .unfit

/-! ## Expressions -/

def nodesOf : Value → Eval (List Node)
  | .nodes ns => return ns
  | _ => throw .unfit

/-- Whether an operator is one of order. -/
def isOrder : Operator → Bool
  | .less => true
  | .lessEqual => true
  | .greater => true
  | .greaterEqual => true
  | _ => false

def operate (o : Outline) (op : Operator) (a b : Value) : Value :=
  if op = .equal then .boolean (Value.same o true a b)
  else if op = .unequal then .boolean (Value.same o false a b)
  else if isOrder op then .boolean (Value.compare o op a b)
  else .number (Value.calculate op (a.toNumber o) (b.toNumber o))

/-- Whether the value of a predicate chooses the node at a position. -/
def chooses (position : Nat) : Value → Bool
  | .number x => x.eq (Binary64.ofNat position)
  | v => v.truth

/-- The nodes that a predicate chooses, where its value is given for each focus. -/
def chosenBy (predicate : Focus → Eval Value) (size : Nat) : Nat → List Node → Eval (List Node)
  | _, [] => return []
  | position, n :: ns => do
    let v ← predicate ⟨n, some (position, size)⟩
    let rest ← chosenBy predicate size (position + 1) ns
    return if chooses position v then n :: rest else rest

/-- The nodes to which a step leads from each node of its input, one list behind the other. -/
def fromEach (step : Node → Eval (List Node)) : List Node → Eval (List Node)
  | [] => return []
  | n :: ns => do
    let here ← step n
    return here ++ (← fromEach step ns)

mutual

/-- The value of an expression at a focus. -/
def eval : XPath → Focus → Eval Value
  | .text s, _ => return .text s
  | .number x, _ => return .number x
  | .variableValue .., _ => throw .unfit
  | .call qualifier name args, focus => do callNamed focus qualifier name (← evalAll args focus)
  | .binary op left right, focus => do
    let a ← eval left focus
    match op with
    | .or => if a.truth then return .boolean true else return .boolean (← eval right focus).truth
    | .and => if a.truth then return .boolean (← eval right focus).truth else return .boolean false
    | .union =>
      let ns ← nodesOf a
      let ms ← nodesOf (← eval right focus)
      return .nodes (Node.inOrder (ns ++ ms))
    | op =>
      let b ← eval right focus
      return operate (← getOutline) op a b
  | .negate e, focus => do
    let v ← eval e focus
    return .number (v.toNumber (← getOutline)).neg
  | .root, _ => return .nodes [.document]
  | .context, focus => return .nodes [focus.node]
  | .step input axis test predicates, focus => do
    let ns ← nodesOf (← eval input focus)
    let space ← resolve test.qualifier?
    let found ← fromEach (fun n => do
      let o ← getOutline
      choose predicates ((Node.along o axis n).filter (Node.passes o axis test space))) ns
    return .nodes (Node.inOrder found)
  | .filter input predicate, focus => do
    let ns ← nodesOf (← eval input focus)
    return .nodes (← chosenBy (eval predicate) ns.length 1 ns)

def evalAll : List XPath → Focus → Eval (List Value)
  | [], _ => return []
  | e :: es, focus => do
    let v ← eval e focus
    return v :: (← evalAll es focus)

/-- The nodes that predicates choose one after the other. -/
def choose : List XPath → List Node → Eval (List Node)
  | [], ns => return ns
  | p :: ps, ns => do choose ps (← chosenBy (eval p) ns.length 1 ns)

end

end Harvest.XPath
