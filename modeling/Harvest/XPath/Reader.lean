import Harvest.Markup.Name
import Harvest.Text.Digit
import Harvest.XPath.Basic

/-!
# Reading selectors

The grammar of selectors.  Operators bind in seven levels, from `or` to `|`; an operator of letters
is one wherever an operand may end.  A call whose argument list breaks off before an argument is
complete as it is.
-/

namespace Harvest.XPath

open Harvest.Markup (skipSpace isSpace takeName? takeColonName?)
open Harvest.Text (isAsciiDigit)

def dropText? : List Char → List Char → Option (List Char)
  | [], cs => some cs
  | w :: ws, c :: cs => if w == c then dropText? ws cs else none
  | _ :: _, [] => none

/-! ## Numbers -/

def digitValue (c : Char) : Nat := c.toNat - 0x30

/-- Digits appended to a number, rounding after every one. -/
def appendDigits (x : Binary64) (ds : List Char) : Binary64 :=
  ds.foldl (fun x d => (x.mul (Binary64.ofNat 10)).add (Binary64.ofNat (digitValue d))) x

/-- The number nearest to a power of ten. -/
def powerOfTen (n : Int) : Binary64 := Binary64.ofDecimal false 1 n

/-- The most digits that count behind the zeros after a point. -/
def maxFraction : Nat := 20

/-- The fraction that digits behind a point write. -/
def fractionValue (ds : List Char) : Binary64 :=
  let zeros := (ds.takeWhile (· == '0')).length
  let counted := (ds.drop zeros).take maxFraction
  (appendDigits (Binary64.zero false) counted).div (powerOfTen (zeros + counted.length))

/-- A power of ten at the start of a text. -/
def takePower (cs : List Char) : Binary64 × List Char :=
  match cs with
  | c :: r =>
    if c == 'e' || c == 'E' then
      let (negative, r) : Bool × List Char := match r with
        | '-' :: r => (true, r)
        | '+' :: r => (false, r)
        | r => (false, r)
      let n := ((r.takeWhile isAsciiDigit).foldl
        (fun n d => if n < 1000000 then 10 * n + digitValue d else n) 0 : Nat)
      (powerOfTen (Binary64.signedInt negative n), r.dropWhile isAsciiDigit)
    else (Binary64.ofNat 1, cs)
  | [] => (Binary64.ofNat 1, [])

/-- An unsigned number at the start of a text: digits, a point and a power of ten. -/
def takeNumber? (cs : List Char) : Option (Binary64 × List Char) :=
  let whole := cs.takeWhile isAsciiDigit
  let value := appendDigits (Binary64.zero false) whole
  let finish (value : Binary64) (r : List Char) : Option (Binary64 × List Char) :=
    match r with
    | c :: _ =>
      if c == 'e' || c == 'E' then let (p, r) := takePower r; some (value.mul p, r)
      else some (value, r)
    | [] => some (value, [])
  match cs.dropWhile isAsciiDigit with
  | '.' :: r =>
    let ds := r.takeWhile isAsciiDigit
    if ds.isEmpty && whole.isEmpty then none
    else finish (value.add (fractionValue ds)) (r.dropWhile isAsciiDigit)
  | r => finish value r

/-! ## Tokens -/

/-- A quoted text at the start of a text. -/
def takeLiteral? : List Char → Option (String × List Char)
  | [] => none
  | q :: r =>
    if q == '"' || q == '\x27' then
      match r.dropWhile (· != q) with
      | _ :: rest => some (String.ofList (r.takeWhile (· != q)), rest)
      | [] => none
    else none

def takeQualified? (cs : List Char) : Option ((Option String × String) × List Char) := do
  let (first, r) ← takeName? cs
  match r with
  | ':' :: r =>
    let (second, r) ← takeName? r
    return ((some (String.ofList first), String.ofList second), r)
  | r => return ((none, String.ofList first), r)

/-- The operators of a level, weakest level first. -/
def operatorsAt : Nat → List (String × Operator)
  | 0 => [("or", .or)]
  | 1 => [("and", .and)]
  | 2 => [("=", .equal), ("!=", .unequal)]
  | 3 => [("<=", .lessEqual), (">=", .greaterEqual), ("<", .less), (">", .greater)]
  | 4 => [("+", .add), ("-", .subtract)]
  | 5 => [("*", .multiply), ("div", .divide), ("mod", .remainder)]
  | _ => []

/-- The first of some operators that a text starts with. -/
def takeOperator? (ops : List (String × Operator)) (cs : List Char) :
    Option (Operator × List Char) :=
  ops.findSome? fun (word, op) => (dropText? word.toList cs).map (op, ·)

/-- The number of minus signs at the start of a text, and the rest. -/
def takeMinus : List Char → Nat × List Char
  | [] => (0, [])
  | c :: r =>
    if isSpace c then takeMinus r
    else if c == '-' then let (n, rest) := takeMinus r; (n + 1, rest)
    else (0, c :: r)

/-- An operand with minus signs in front. -/
def negateTimes : Nat → XPath → XPath
  | 0, e => e
  | n + 1, e => .negate (negateTimes n e)

/-! ## Paths -/

/-- The names that stand for kinds of nodes where an opening bracket follows. -/
def nodeTypes : List String := ["comment", "node", "processing-instruction", "text"]

/-- Whether a text holds two colons next to each other. -/
def hasDoubleColon : List Char → Bool
  | ':' :: ':' :: _ => true
  | _ :: r => hasDoubleColon r
  | [] => false

/-- Whether an operand is a path, as opposed to a bracket, a variable, a literal or a call. -/
def startsPath? (cs : List Char) : Option Bool :=
  match cs with
  | [] => none
  | c :: r =>
    if c == '$' || c == '(' || c == '\x27' || c == '"' || isAsciiDigit c then some false
    else if c == '*' || c == '/' || c == '@' then some true
    else if c == '.' then
      some (match r with
        | d :: _ => !isAsciiDigit d
        | [] => true)
    else match takeColonName? cs with
      | none => none
      | some (name, rest) =>
        if hasDoubleColon name then some true
        else match skipSpace rest with
          | '(' :: _ => some (nodeTypes.contains (String.ofList name))
          | _ => some true

/-- All nodes below the nodes of an input, and those themselves. -/
def deep (input : XPath) : XPath := .step input .descendantOrSelf .node []

/-- The node test behind a name and an opening bracket. -/
def takeTypeTest? (name : List Char) (cs : List Char) : Option (NodeTest × List Char) := do
  let close (t : NodeTest) (r : List Char) : Option (NodeTest × List Char) :=
    match skipSpace r with
    | ')' :: r => some (t, r)
    | _ => none
  match String.ofList name with
  | "comment" => close .comment cs
  | "node" => close .node cs
  | "text" => close .text cs
  | "processing-instruction" => match skipSpace cs with
    | ')' :: r => return (.instruction none, r)
    | cs =>
      let (target, r) ← takeLiteral? cs
      close (.instruction (some target)) r
  | _ => none

/-- The node test that starts with a name. -/
def takeNameTest? (name : List Char) (r : List Char) : Option (NodeTest × List Char) := do
  match skipSpace r with
  | '(' :: r => takeTypeTest? name r
  | _ => match r with
    | ':' :: '*' :: r => return (.any (some (String.ofList name)), r)
    | ':' :: r =>
      let (second, r) ← takeName? r
      return (.name (some (String.ofList name)) (String.ofList second), r)
    | r => return (.name none (String.ofList name), skipSpace r)

def takeNodeTest? (cs : List Char) : Option (NodeTest × List Char) := do
  match skipSpace cs with
  | '*' :: r => return (.any none, r)
  | cs =>
    let (name, r) ← takeName? cs
    takeNameTest? name r

def takeAxisTest? (cs : List Char) : Option ((Axis × NodeTest) × List Char) := do
  match cs with
  | '*' :: r => return ((.child, .any none), r)
  | '@' :: r =>
    let (test, r) ← takeNodeTest? r
    return ((.attributes, test), r)
  | cs =>
    let (name, r) ← takeName? cs
    match Axis.named.lookup (String.ofList name), skipSpace r with
    | some axis, ':' :: ':' :: r =>
      let (test, r) ← takeNodeTest? r
      return ((axis, test), r)
    | some _, r =>
      let (test, r) ← takeNameTest? name r
      return ((.child, test), r)
    | none, _ =>
      let (test, r) ← takeNameTest? name r
      return ((.child, test), r)

/-- Whether a path that is only a slash may go on with a text. -/
def continuesRoot : List Char → Bool
  | c :: _ => c.isAlpha || c == '_' || c == '.' || c == '@' || c == '*'
  | [] => false

mutual

/-- An expression of the operators of a level and all stronger ones.  Every call takes one unit of
the bound. -/
def readLevel : Nat → Nat → List Char → Option (XPath × List Char)
  | 0, _, _ => none
  | n + 1, level, cs =>
    if level < 6 then do
      let (left, r) ← readLevel n (level + 1) cs
      readOperands n level left (skipSpace r)
    else do
      let (minus, r) := takeMinus cs
      let (e, r) ← readUnion n r
      return (negateTimes minus e, r)

def readOperands : Nat → Nat → XPath → List Char → Option (XPath × List Char)
  | 0, _, _, _ => none
  | n + 1, level, left, cs =>
    match takeOperator? (operatorsAt level) cs with
    | none => some (left, cs)
    | some (op, r) => do
      let (right, r) ← readLevel n (level + 1) (skipSpace r)
      readOperands n level (.binary op left right) (skipSpace r)

def readUnion : Nat → List Char → Option (XPath × List Char)
  | 0, _ => none
  | n + 1, cs => do
    let (e, r) ← readOperand n cs
    readAlternatives n e (skipSpace r)

def readAlternatives : Nat → XPath → List Char → Option (XPath × List Char)
  | n + 1, left, '|' :: r => do
    let (right, r) ← readOperand n (skipSpace r)
    readAlternatives n (.binary .union left right) (skipSpace r)
  | 0, _, _ => none
  | _, left, cs => some (left, cs)

/-- A path, or a primary expression with predicates and steps behind it. -/
def readOperand : Nat → List Char → Option (XPath × List Char)
  | 0, _ => none
  | n + 1, cs => do
    let cs := skipSpace cs
    if ← startsPath? cs then
      match cs with
      | '/' :: _ => readAbsolute n .root cs
      | _ => readRelative n .context cs
    else
      let (e, r) ← readPrimary n cs
      let (e, r) ← readFilters n e (skipSpace r)
      match r with
      | '/' :: '/' :: r => readRelative n (deep e) (skipSpace r)
      | '/' :: _ => readRelative n e r
      | r => return (e, r)

/-- A bracket, a variable, a number, a literal or a call. -/
def readPrimary : Nat → List Char → Option (XPath × List Char)
  | 0, _ => none
  | n + 1, cs => do
    match cs with
    | '$' :: r =>
      let ((qualifier, name), r) ← takeQualified? r
      return (.variableValue qualifier name, r)
    | '(' :: r =>
      let (e, r) ← readLevel n 0 (skipSpace r)
      match r with
      | ')' :: r => return (e, r)
      | _ => none
    | c :: _ =>
      if isAsciiDigit c || c == '.' then
        let (x, r) ← takeNumber? cs
        return (.number x, r)
      else if c == '\x27' || c == '"' then
        let (s, r) ← takeLiteral? cs
        return (.text s, r)
      else
        let ((qualifier, name), r) ← takeQualified? cs
        match skipSpace r with
        | '(' :: r =>
          let (arguments, r) ← match skipSpace r with
            | ')' :: r => some ([], r)
            | r => readArguments n r
          return (.call qualifier name arguments, r)
        | _ => none
    | [] => none

/-- The arguments of a call up to the closing bracket. -/
def readArguments : Nat → List Char → Option (List XPath × List Char)
  | 0, _ => none
  | _ + 1, [] => some ([], [])
  | n + 1, cs => do
    let (e, r) ← readLevel n 0 cs
    match r with
    | ')' :: r => return ([e], r)
    | ',' :: r =>
      let (es, r) ← readArguments n (skipSpace r)
      return (e :: es, r)
    | _ => none

def readFilters : Nat → XPath → List Char → Option (XPath × List Char)
  | n + 1, e, '[' :: r => do
    let (predicate, r) ← readPredicate n r
    readFilters n (.filter e predicate) r
  | 0, _, _ => none
  | _, e, cs => some (e, cs)

def readPredicate : Nat → List Char → Option (XPath × List Char)
  | 0, _ => none
  | n + 1, cs => do
    let (e, r) ← readLevel n 0 (skipSpace cs)
    match r with
    | ']' :: r => return (e, skipSpace r)
    | _ => none

def readPredicates : Nat → List Char → Option (List XPath × List Char)
  | n + 1, '[' :: r => do
    let (e, r) ← readPredicate n r
    let (es, r) ← readPredicates n r
    return (e :: es, r)
  | 0, _ => none
  | _, cs => some ([], cs)

def readAbsolute : Nat → XPath → List Char → Option (XPath × List Char)
  | n + 1, input, '/' :: '/' :: r => do
    let (e, r) ← readRelative n (deep input) (skipSpace r)
    readAbsolute n e r
  | n + 1, input, '/' :: r => do
    let r := skipSpace r
    if continuesRoot r then
      let (e, r) ← readRelative n input r
      readAbsolute n e r
    else readAbsolute n input r
  | 0, _, _ => none
  | _, input, cs => some (input, cs)

/-- A path from the nodes of an input on. -/
def readRelative : Nat → XPath → List Char → Option (XPath × List Char)
  | 0, _, _ => none
  | n + 1, input, cs => do
    let (input, cs) := match skipSpace cs with
      | '/' :: '/' :: r => (deep input, skipSpace r)
      | '/' :: r => (input, skipSpace r)
      | r => (input, r)
    let (e, r) ← readStep n input cs
    readSteps n e (skipSpace r)

def readSteps : Nat → XPath → List Char → Option (XPath × List Char)
  | n + 1, input, '/' :: '/' :: r => do
    let (e, r) ← readStep n (deep input) (skipSpace r)
    readSteps n e (skipSpace r)
  | n + 1, input, '/' :: r => do
    let (e, r) ← readStep n input (skipSpace r)
    readSteps n e (skipSpace r)
  | 0, _, _ => none
  | _, input, cs => some (input, cs)

def readStep : Nat → XPath → List Char → Option (XPath × List Char)
  | 0, _, _ => none
  | n + 1, input, cs => do
    match skipSpace cs with
    | '.' :: '.' :: r => return (.step input .parent .node [], r)
    | '.' :: r => return (input, r)
    | cs =>
      let ((axis, test), r) ← takeAxisTest? cs
      let (predicates, r) ← readPredicates n (skipSpace r)
      return (.step input axis test predicates, r)

end

/-- The selector that a whole text writes in the grammar. -/
def readExpression? (cs : List Char) : Option XPath :=
  match readLevel (16 * (cs.length + 2)) 0 cs with
  | some (e, []) => some e
  | _ => none

/-! ## Unions that end in a bar -/

/-- Whether a selector is a path of names, downwards only. -/
def isNamePath : XPath → Bool
  | .root => true
  | .context => true
  | .step input .child (.name none _) [] => isNamePath input
  | .step input .child (.any none) [] => isNamePath input
  | .step input .descendantOrSelf .node [] => isNamePath input
  | _ => false

/-- Whether a selector is a union of paths of names. -/
def isNameUnion : XPath → Bool
  | .binary .union left right => isNameUnion left && isNamePath right
  | e => isNamePath e

/-- The selector that a text writes.  A bar behind a union of plain paths is allowed. -/
def read? (s : String) : Option XPath :=
  let cs := s.toList
  match readExpression? cs with
  | some e => some e
  | none => match cs.reverse with
    | '|' :: r => (readExpression? r.reverse).filter isNameUnion
    | _ => none

end Harvest.XPath
