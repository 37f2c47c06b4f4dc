import Harvest.Text.Digit

/-!
# Command lines

Arguments are options, which start with a hyphen, and operands.  A long option may be cut short as
long as only one fits, short options may stand together behind one hyphen, and a value may follow
its option as the next argument or within the same one.  Behind two hyphens alone everything is an
operand.

Options and operands are read from left to right.  Operands that stand together are taken as far as
they are asked for; what nobody asks for is left over.
-/

namespace Harvest

/-- What an option does. -/
inductive OptionKind
  | help
  | flag
  /-- Takes a value, one of the choices if there are any. -/
  | value (choices : Option (List String))
deriving DecidableEq, Repr

structure OptionForm where
  names : List String
  key : String
  kind : OptionKind
deriving DecidableEq, Repr

inductive Operand
  | one (key : String)
  /-- All arguments from here on, options included; at least one that is no option. -/
  | rest
deriving DecidableEq, Repr

structure LineForm where
  options : List OptionForm
  operands : List Operand
deriving Repr

/-- Why reading a command line ends early. -/
inductive LineEnd
  | help
  | misuse
deriving DecidableEq, Repr

/-- What a command line says. -/
structure Line where
  /-- The values by key; the last one counts. -/
  values : List (String × String) := []
  /-- The arguments of an operand that takes all. -/
  rest : List String := []
  /-- The arguments that nobody asks for. -/
  extras : List String := []
deriving Repr

/-- How an argument is taken. -/
inductive Sign
  | operand
  /-- Two hyphens alone. -/
  | dashes
  /-- An option by a name, with the text that stands behind it in the same argument and whether an
  equals sign stands between. -/
  | option (form : OptionForm) (name : String) (attached : Option (Bool × String))
  | unknownOption
deriving DecidableEq, Repr

namespace Sign

/-- Whether the argument looks like an option. -/
def isOption : Sign → Bool
  | option _ _ _ => true
  | unknownOption => true
  | _ => false

end Sign

namespace LineForm

def optionOf? (form : LineForm) (name : String) : Option OptionForm :=
  form.options.find? fun o => o.names.contains name

def named (form : LineForm) : List (OptionForm × String) :=
  form.options.flatMap fun o => o.names.map (o, ·)

/-- The text up to the first equals sign and the text behind it. -/
def splitEquals (cs : List Char) : String × Option String :=
  (String.ofList (cs.takeWhile (· != '=')),
    match cs.dropWhile (· != '=') with
    | _ :: value => some (String.ofList value)
    | [] => none)

/-- The options that a long option cut short may mean. -/
def longCandidates (form : LineForm) (cs : List Char) : List Sign :=
  let (start, value) := splitEquals cs
  form.named.filterMap fun (o, name) =>
    if start.toList.isPrefixOf name.toList then
      some (.option o name (value.map (true, ·)))
    else none

/-- The options that a short option with more behind it may mean. -/
def shortCandidates (form : LineForm) (cs : List Char) : List Sign :=
  form.named.filterMap fun (o, name) =>
    if name.toList == cs.take 2 then some (.option o name (some (false, String.ofList (cs.drop 2))))
    else if cs.isPrefixOf name.toList then some (.option o name none)
    else none

/-- Whether a text is a negative number: a hyphen, then digits with perhaps a point. -/
def isNegativeNumber (cs : List Char) : Bool :=
  match cs with
  | '-' :: r =>
    let r := if r.getLast? == some '\n' then r.dropLast else r
    match r.dropWhile Text.isDecimal with
    | [] => !r.isEmpty
    | '.' :: fraction => !fraction.isEmpty && fraction.all Text.isDecimal
    | _ => false
  | _ => false

/-- How an argument in front of two hyphens is taken. -/
def signOf (form : LineForm) (arg : String) : Except LineEnd Sign :=
  let cs := arg.toList
  if cs.head? != some '-' then .ok .operand
  else match form.optionOf? arg with
    | some o => .ok (.option o arg none)
    | none =>
      if cs.length = 1 then .ok .operand
      else
        let (start, value) := splitEquals cs
        match value, form.optionOf? start with
        | some v, some o => .ok (.option o start (some (true, v)))
        | _, _ =>
          let long := cs.tail.head? == some '-'
          match if long then form.longCandidates cs else form.shortCandidates cs with
          | [sign] => .ok sign
          | _ :: _ => .error .misuse
          | [] => .ok (if isNegativeNumber cs || cs.contains ' ' then .operand else .unknownOption)

def signs (form : LineForm) : List String → Except LineEnd (List (String × Sign))
  | [] => .ok []
  | "--" :: args => .ok (("--", .dashes) :: args.map (·, .operand))
  | arg :: args => match form.signOf arg, signs form args with
    | .ok s, .ok ss => .ok ((arg, s) :: ss)
    | .error e, _ => .error e
    | _, .error e => .error e

/-! ## Operands -/

/-- Two hyphens at the start, and what follows. -/
def splitDashes (args : List (String × Sign)) : List (String × Sign) × List (String × Sign) :=
  (args.takeWhile (·.2 == .dashes), args.dropWhile (·.2 == .dashes))

/-- The argument of an operand, with two hyphens around it, and what follows. -/
def takeOne? (args : List (String × Sign)) : Option (List String × List (String × Sign)) :=
  match splitDashes args with
  | (before, (arg, .operand) :: more) =>
    let (after, rest) := splitDashes more
    some (before.map (·.1) ++ arg :: after.map (·.1), rest)
  | _ => none

def single? (args : List String) : Option String :=
  -- Only the first pair of hyphens is dropped; a second one is an argument too many.
  match args.erase "--" with
  | [arg] => some arg
  | _ => none

/-- Takes operands as far as arguments that stand together reach. -/
def takeOperands : List Operand → List (String × Sign) → Line →
    Except LineEnd (List Operand × List (String × Sign) × Line)
  | [], args, line => .ok ([], args, line)
  | .one key :: operands, args, line =>
    match takeOne? args with
    | none => .ok (.one key :: operands, args, line)
    | some (taken, rest) => match single? taken with
      | some v => takeOperands operands rest { line with values := (key, v) :: line.values }
      | none => .error .misuse
  | .rest :: operands, args, line =>
    match takeOne? args with
    | none => .ok (.rest :: operands, args, line)
    | some _ => .ok (operands, [], { line with rest := args.map (·.1) })

/-! ## Options -/

/-- The options in one argument: the ones that are taken in order, each with its value, and what is
left over. -/
structure Cluster where
  taken : List (OptionForm × Option String) := []
  extras : List String := []
  /-- Whether the value of the last option is the next argument. -/
  needsNext : Bool := false

/-- An option with text behind it in the same argument: the value of the option, or more short
options.  The bound is the length of the text. -/
def clusterOf (form : LineForm) :
    Nat → OptionForm → String → Option (Bool × String) → Except LineEnd Cluster
  | bound, o, name, attached =>
    match o.kind, attached with
    | .value _, some (_, v) => .ok { taken := [(o, some v)] }
    | .value _, none => .ok { taken := [(o, none)], needsNext := true }
    | _, none => .ok { taken := [(o, none)] }
    | _, some (equals, v) =>
      match bound, v.toList with
      | bound + 1, c :: cs =>
        if name.toList.tail.head? == some '-' || equals || c == '-' then .error .misuse
        else
          let next := String.ofList ['-', c]
          match form.optionOf? next with
          | none => .ok { taken := [(o, none)], extras := ["-" ++ v] }
          | some p =>
            let attached := match cs with
              | [] => none
              | '=' :: more => some (true, String.ofList more)
              | more => some (false, String.ofList more)
            match clusterOf form bound p next attached with
            | .ok k => .ok { k with taken := (o, none) :: k.taken }
            | .error e => .error e
      | _, _ => .error .misuse

def takeOptions : List (OptionForm × Option String) → Line → Except LineEnd Line
  | [], line => .ok line
  | (o, v) :: more, line =>
    match o.kind, v with
    | .help, _ => .error .help
    | .flag, _ => takeOptions more { line with values := (o.key, "") :: line.values }
    | .value (some choices), some v =>
      if choices.contains v then takeOptions more { line with values := (o.key, v) :: line.values }
      else .error .misuse
    | .value none, some v => takeOptions more { line with values := (o.key, v) :: line.values }
    | .value _, none => .error .misuse

def giveLast (v : String) : List (OptionForm × Option String) → List (OptionForm × Option String)
  | [] => []
  | [(o, _)] => [(o, some v)]
  | t :: ts => t :: giveLast v ts

def takeOption (form : LineForm) (o : OptionForm) (name : String)
    (attached : Option (Bool × String)) (args : List (String × Sign)) (line : Line) :
    Except LineEnd (List (String × Sign) × Line) :=
  let bound := match attached with
    | some (_, v) => v.length
    | none => 0
  match clusterOf form bound o name attached with
  | .error e => .error e
  | .ok k =>
    let line := { line with extras := line.extras ++ k.extras }
    if k.needsNext then match args with
      | (v, .operand) :: rest => (takeOptions (giveLast v k.taken) line).map (rest, ·)
      | _ => .error .misuse
    else (takeOptions k.taken line).map (args, ·)

/-- Leaves the arguments up to the next option over. -/
def leaveOver (args : List (String × Sign)) (line : Line) : List (String × Sign) × Line :=
  (args.dropWhile fun a => !a.2.isOption,
    { line with extras := line.extras ++ (args.takeWhile fun a => !a.2.isOption).map (·.1) })

/-- Reads arguments, as long as there are options among them.  The bound is their number. -/
def readWhileOptions (form : LineForm) :
    Nat → List Operand → List (String × Sign) → Line →
    Except LineEnd (List Operand × List (String × Sign) × Line)
  | 0, operands, args, line => .ok (operands, args, line)
  | bound + 1, operands, args, line =>
    match args with
    | (_, .option o name attached) :: rest =>
      match takeOption form o name attached rest line with
      | .ok (rest, line) => readWhileOptions form bound operands rest line
      | .error e => .error e
    | (arg, .unknownOption) :: rest =>
      readWhileOptions form bound operands rest { line with extras := line.extras ++ [arg] }
    | _ =>
      if args.any (·.2.isOption) then
        match takeOperands operands args line with
        | .error e => .error e
        | .ok (left, rest, line) =>
          if rest.length < args.length then readWhileOptions form bound left rest line
          -- No operand takes what stands here, so it must not hold up the options behind it.
          else
            let (rest, line) := leaveOver args line
            readWhileOptions form bound left rest line
      else .ok (operands, args, line)

def isOptional : Operand → Bool
  | .rest => true
  | .one _ => false

def read (form : LineForm) (args : List String) : Except LineEnd Line :=
  match form.signs args with
  | .error e => .error e
  | .ok signed => match readWhileOptions form args.length form.operands signed {} with
    | .error e => .error e
    | .ok (operands, rest, line) => match takeOperands operands rest line with
      | .error e => .error e
      | .ok (left, rest, line) =>
        if left.all isOptional then .ok { line with extras := line.extras ++ rest.map (·.1) }
        else .error .misuse

end LineForm

namespace Line

def get? (l : Line) (key : String) : Option String := l.values.lookup key

def has (l : Line) (key : String) : Bool := (l.get? key).isSome

end Line

end Harvest
