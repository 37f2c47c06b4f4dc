import Harvest.Json.Reader
import Harvest.Pattern.Basic

/-!
# Reading patterns

The written form of patterns: characters and escapes, sets in brackets, groups with their many
kinds, repetitions, and flags for the whole pattern or for a group.
-/

namespace Harvest.Pattern

inductive ReadError
  | malformed
  /-- A number of repetitions is beyond what can be counted. -/
  | tooManyRepetitions
  /-- The whole pattern is to know ASCII only, against the setting it is read under. -/
  | flagConflict
deriving DecidableEq, Repr

structure Flags where
  ignoreCase : Bool := false
  multiline : Bool := false
  dotAll : Bool := false
  verbose : Bool := false
  asciiOnly : Bool := false
  wide : Bool := false
  template : Bool := false
deriving DecidableEq, Inhabited

namespace Flags

/-- Flags with one more, named by its letter. -/
def add? (f : Flags) (letter : Char) : Option Flags :=
  match letter with
  | 'i' => some { f with ignoreCase := true }
  | 'm' => some { f with multiline := true }
  | 's' => some { f with dotAll := true }
  | 'x' => some { f with verbose := true }
  | 'a' => if f.wide then none else some { f with asciiOnly := true }
  | 'u' => if f.asciiOnly then none else some { f with wide := true }
  | 't' => some { f with template := true }
  | _ => none

/-- The flags of an outer part with some switched on and some off. -/
def combine (f on off : Flags) : Flags :=
  { ignoreCase := (f.ignoreCase || on.ignoreCase) && !off.ignoreCase
    multiline := (f.multiline || on.multiline) && !off.multiline
    dotAll := (f.dotAll || on.dotAll) && !off.dotAll
    verbose := (f.verbose || on.verbose) && !off.verbose
    asciiOnly := if on.wide then false else f.asciiOnly || on.asciiOnly }

/-- Whether flags share one that is switched on in both. -/
def overlap (f g : Flags) : Bool :=
  f.ignoreCase && g.ignoreCase || f.multiline && g.multiline || f.dotAll && g.dotAll ||
    f.verbose && g.verbose

def mode (f : Flags) : Mode := ⟨f.ignoreCase, f.asciiOnly⟩

end Flags

/-- The least and, if there is one, the greatest number of characters a pattern takes. -/
structure Width where
  least : Nat
  most : Option Nat

def addMost (a b : Option Nat) : Option Nat := do return (← a) + (← b)

/-- The widths of a pattern, given those of its groups. -/
def width (groups : List (Nat × Width)) : Pattern → Width
  | .empty | .place _ | .ahead .. | .behind .. => ⟨0, some 0⟩
  | .one .. | .any _ => ⟨1, some 1⟩
  | .seq p q =>
    let a := width groups p
    let b := width groups q
    ⟨a.least + b.least, addMost a.most b.most⟩
  | .either p q =>
    let a := width groups p
    let b := width groups q
    ⟨min a.least b.least, do return max (← a.most) (← b.most)⟩
  | .repeated p bounds _ =>
    let a := width groups p
    ⟨a.least * bounds.least,
      if a.most = some 0 ∨ bounds.most = some 0 then some 0
      else do return (← a.most) * (← bounds.most)⟩
  | .capture _ p | .atomic p => width groups p
  | .again group _ => (groups.lookup group).getD ⟨0, some 0⟩
  | .ifCaptured _ p q =>
    let a := width groups p
    let b := width groups q
    ⟨min a.least b.least, do return max (← a.most) (← b.most)⟩

/-- What has been read so far. -/
structure State where
  rest : List Char
  global : Flags := {}
  /-- The number of groups opened, the whole pattern among them. -/
  groups : Nat := 1
  names : List (String × Nat) := []
  closed : List (Nat × Width) := []
  /-- Inside a look behind, the number of groups opened before it. -/
  behind : Option Nat := none
  /-- The groups that conditions refer to. -/
  conditions : List Nat := []
  /-- Whether a look behind has no fixed width; what is said of flags comes first. -/
  unsteady : Bool := false

abbrev Reader := StateT State (Except ReadError)

def fail {α : Type} : Reader α := throw .malformed

def peek : Reader (Option Char) := do return (← get).rest.head?

def next : Reader Char := do
  match (← get).rest with
  | c :: r => modify fun s => { s with rest := r }; return c
  | [] => fail

def accept (c : Char) : Reader Bool := do
  match (← get).rest with
  | d :: r => if c == d then modify fun s => { s with rest := r }; return true else return false
  | [] => return false

/-- Takes up to `n` characters of a kind. -/
def takeUpTo (n : Nat) (p : Char → Bool) : Reader (List Char) := do
  let cs := ((← get).rest.take n).takeWhile p
  modify fun s => { s with rest := s.rest.drop cs.length }
  return cs

def takeAll (p : Char → Bool) : Reader (List Char) := do takeUpTo (← get).rest.length p

/-- Takes what stands before a closing character, and the character. -/
def takeName (stop : Char) : Reader (List Char) := do
  let cs ← takeAll (· != stop)
  if cs.isEmpty || !(← accept stop) then fail else return cs

def isOctal (c : Char) : Bool := Nat.ble 0x30 c.toNat && Nat.ble c.toNat 0x37

def isLetter (c : Char) : Bool := Text.isAsciiAlphanumeric c && !Text.isAsciiDigit c

/-- The number that digits write in a base up to sixteen. -/
def numberIn (base : Nat) (cs : List Char) : Nat :=
  cs.foldl (fun n c => base * n + (Json.hexValue? c).getD 0) 0

/-- The code point of exactly `n` hexadecimal digits. -/
def hexCode (n : Nat) : Reader Nat := do
  let cs ← takeUpTo n fun c => (Json.hexValue? c).isSome
  if cs.length = n then return numberIn 16 cs else fail

/-- The code point of an escape that means the same inside and outside sets, if it is one. -/
def commonEscape? (c : Char) : Reader (Option Nat) := do
  match c with
  | 'a' => return some 7
  | 'f' => return some 12
  | 'n' => return some 10
  | 'r' => return some 13
  | 't' => return some 9
  | 'v' => return some 11
  | '\\' => return some 92
  | 'x' => return some (← hexCode 2)
  | 'u' => return some (← hexCode 4)
  | 'U' => do
    let n ← hexCode 8
    if n < 0x110000 then return some n else fail
  | _ => return none

/-- The category of a letter; a capital letter is its opposite. -/
def category? : Char → Option Item
  | 'd' => some (.category .digit false)
  | 'D' => some (.category .digit true)
  | 's' => some (.category .space false)
  | 'S' => some (.category .space true)
  | 'w' => some (.category .word false)
  | 'W' => some (.category .word true)
  | _ => none

/-- The item of an escape inside a set, behind its backslash. -/
def setEscape : Reader Item := do
  let c ← next
  if c == 'b' then return .code 8
  match category? c with
  | some i => return i
  | none => match ← commonEscape? c with
    | some n => return .code n
    | none =>
      if isOctal c then
        let n := numberIn 8 (c :: (← takeUpTo 2 isOctal))
        if n ≤ 0o377 then return .code n else fail
      else if Text.isAsciiAlphanumeric c then fail
      else return .code c.toNat

/-- The code point of an item that is one. -/
def Item.code? : Item → Option Nat
  | .code n => some n
  | _ => none

def setItem (c : Char) : Reader Item := if c == '\\' then setEscape else return .code c.toNat

/-- The items of a set up to its closing bracket. -/
def setItems : Nat → List Item → Reader (List Item)
  | 0, _ => fail
  | bound + 1, items => do
    let c ← next
    if c == ']' && !items.isEmpty then return items
    let low ← setItem c
    if ← accept '-' then
      let d ← next
      if d == ']' then return items ++ [low, .code '-'.toNat]
      let high ← setItem d
      match low.code?, high.code? with
      | some a, some b => if b < a then fail else setItems bound (items ++ [.range a b])
      | _, _ => fail
    else setItems bound (items ++ [low])

/-- The greatest number of repetitions that can be asked for, and one more. -/
def repetitionLimit : Nat := 4294967295

/-- The bounds in braces, if that is what follows the opening one. -/
def braces? : Reader (Option Bounds) := do
  let start := (← get).rest
  let low ← takeAll Text.isAsciiDigit
  let high ← if ← accept ',' then takeAll Text.isAsciiDigit else pure low
  let comma := start.drop low.length |>.head?
  if comma == some '}' && low.isEmpty || !(← accept '}') then
    modify fun s => { s with rest := start }
    return none
  let least := numberIn 10 low
  let most := if high.isEmpty then none else some (numberIn 10 high)
  if repetitionLimit ≤ least || repetitionLimit ≤ most.getD 0 then throw .tooManyRepetitions
  if most.any (· < least) then fail
  return some ⟨least, most⟩

/-- A part of a sequence: what may be said about repeating it. -/
inductive Role
  | plain
  | place
  | repetition
deriving DecidableEq

/-- Whether a group may be referred to. -/
def checkGroup (group : Nat) : Reader Unit := do
  let s ← get
  if (s.closed.lookup group).isNone then fail
  if s.behind.any (· ≤ group) then fail

/-- An escape outside sets, behind its backslash. -/
def escape (flags : Flags) : Reader (Role × Pattern) := do
  let char (n : Nat) : Role × Pattern := (.plain, .one ⟨[.code n], false⟩ flags.mode)
  let c ← next
  match c with
  | 'A' => return (.place, .place .textStart)
  | 'Z' => return (.place, .place .textEnd)
  | 'b' => return (.place, .place (.wordEdge flags.asciiOnly))
  | 'B' => return (.place, .place (.notWordEdge flags.asciiOnly))
  | '0' => return char (numberIn 8 (← takeUpTo 2 isOctal))
  | _ => match category? c with
    | some i => return (.plain, .one ⟨[i], false⟩ flags.mode)
    | none => match ← commonEscape? c with
      | some n => return char n
      | none =>
        if Text.isAsciiDigit c then
          let more ← takeUpTo 1 Text.isAsciiDigit
          let octal := (c :: more).all isOctal && !more.isEmpty && (← peek).any isOctal
          if octal then
            let n := numberIn 8 (c :: more ++ [← next])
            if n ≤ 0o377 then return char n else fail
          else
            let group := numberIn 10 (c :: more)
            checkGroup group
            return (.plain, .again group flags.mode)
        else if isLetter c then fail
        else return char c.toNat

/-- The letters of flags up to one of the given characters, which is taken too. -/
def takeFlags (stops : List Char) : Nat → Flags → Char → Reader (Flags × Char)
  | 0, _, _ => fail
  | bound + 1, flags, letter => do
    match flags.add? letter with
    | none => fail
    | some flags =>
      let c ← next
      if stops.contains c then return (flags, c) else takeFlags stops bound flags c

/-- The flags of a group that starts with the given letter; `none` if they are for the whole
pattern. -/
def groupFlags (letter : Char) : Reader (Option (Flags × Flags)) := do
  let bound := (← get).rest.length + 1
  let (on, stop) ←
    if letter == '-' then pure ({}, '-') else takeFlags [')', '-', ':'] bound {} letter
  if stop == ')' then
    modify fun s => { s with global :=
      { s.global.combine on {} with template := s.global.template || on.template } }
    return none
  if on.template then fail
  let off ← if stop == '-' then do
      let (off, _) ← takeFlags [':'] bound {} (← next)
      if off.asciiOnly || off.wide || off.template then fail
      pure off
    else pure {}
  if on.overlap off then fail
  return some (on, off)

/-- The start of a name or a low line. -/
def isNameStart (c : Char) : Bool := Text.isWord c && !Text.isDigitLike c

def isName (cs : List Char) : Bool :=
  match cs with
  | [] => false
  | c :: r => isNameStart c && r.all Text.isWord

def openGroup (name : Option (List Char)) : Reader Nat := do
  let s ← get
  let group := s.groups
  let names ← match name with
    | none => pure s.names
    | some cs =>
      let name := String.ofList cs
      if (s.names.lookup name).isSome then fail else pure ((name, group) :: s.names)
  set { s with groups := group + 1, names }
  return group

/-- The group that a name between parentheses refers to. -/
def namedGroup (cs : List Char) : Reader Nat := do
  if !isName cs then fail
  match (← get).names.lookup (String.ofList cs) with
  | some group => return group
  | none => fail

/-- What the kind of a group asks for. -/
inductive Opening
  | capturing (name : Option (List Char))
  | grouping (on off : Flags)
  | atomic
  | ahead (negated : Bool)
  | behind (negated : Bool)
  | condition (group : Nat)
  | reference (group : Nat)
  /-- A comment, or flags for the whole pattern. -/
  | nothing (global : Bool)

/-- The kind of a group, behind its opening parenthesis. -/
def opening : Reader Opening := do
  if !(← accept '?') then return .capturing none
  let c ← next
  match c with
  | 'P' => match ← next with
    | '<' => do
      let name ← takeName '>'
      if isName name then return .capturing (some name) else fail
    | '=' => do
      let group ← namedGroup (← takeName ')')
      checkGroup group
      return .reference group
    | _ => fail
  | ':' => return .grouping {} {}
  | '>' => return .atomic
  | '=' => return .ahead false
  | '!' => return .ahead true
  | '<' => match ← next with
    | '=' => return .behind false
    | '!' => return .behind true
    | _ => fail
  | '#' => do
    let _ ← takeAll (· != ')')
    if ← accept ')' then return .nothing false else fail
  | '(' => do
    let name ← takeName ')'
    let group ← if isName name then namedGroup name
      else if name.all Text.isAsciiDigit && numberIn 10 name != 0 then do
        let group := numberIn 10 name
        modify fun s => { s with conditions := group :: s.conditions }
        pure group
      else fail
    let s ← get
    if s.behind.isSome then checkGroup group
    return .condition group
  | c => match ← groupFlags c with
    | none => return .nothing true
    | some (on, off) => return .grouping on off

/-- The bounds of a repetition mark, if the character is one. -/
def quantifier? (c : Char) : Reader (Option Bounds) := do
  match c with
  | '?' => return some ⟨0, some 1⟩
  | '*' => return some ⟨0, none⟩
  | '+' => return some ⟨1, none⟩
  | '\x7b' => braces?
  | _ => return none

/-- The temper that follows a repetition mark. -/
def temper : Reader Temper := do
  if ← accept '?' then return .lazy
  if ← accept '+' then return .possessive
  return .greedy

/-- Skips white space or a comment of a verbose pattern that starts with the character. -/
def skipVerbose (flags : Flags) (c : Char) : Reader Bool := do
  if !flags.verbose then return false
  if [' ', '\t', '\n', '\r', '\x0b', '\x0c'].contains c then return true
  if c == '#' then
    let _ ← takeAll (· != '\n')
    let _ ← accept '\n'
    return true
  return false

/-- The parts read so far as one pattern; the last part comes first. -/
def joined (parts : List (Role × Pattern)) : Pattern := concat (parts.reverse.map (·.2))

mutual

/-- Alternatives up to a closing parenthesis or the end. -/
def alternatives : Nat → Flags → Bool → Bool → Reader Pattern
  | 0, _, _, _ => fail
  | bound + 1, flags, nested, first => do
    let p ← sequence bound flags nested first []
    if ← accept '|' then
      let global := (← get).global
      let q ← alternatives bound (if nested then flags else global) nested false
      return .either p q
    else return p

/-- The parts of a sequence behind those read. -/
def sequence : Nat → Flags → Bool → Bool → List (Role × Pattern) → Reader Pattern
  | 0, _, _, _, _ => fail
  | bound + 1, flags, nested, first, parts => do
    match ← peek with
    | none => return joined parts
    | some '|' => return joined parts
    | some ')' => return joined parts
    | some c =>
      let _ ← next
      let add (part : Role × Pattern) := sequence bound flags nested first (part :: parts)
      if ← skipVerbose flags c then sequence bound flags nested first parts
      else match c with
        | '\\' => add (← escape flags)
        | '.' => add (.plain, .any flags.dotAll)
        | '^' => add (.place, .place (if flags.multiline then .lineStart else .textStart))
        | '$' => add (.place, .place (if flags.multiline then .lineEnd else .lastLineEnd))
        | '[' => do
          let negated ← accept '^'
          let items ← setItems ((← get).rest.length + 1) []
          add (.plain, .one ⟨items, negated⟩ flags.mode)
        | '(' => do
          match ← opening with
          | .nothing true => do
            if nested || !first || !parts.isEmpty then fail
            else sequence bound (← get).global nested first parts
          | .nothing false => sequence bound flags nested first parts
          | .reference group => add (.plain, .again group flags.mode)
          | .condition group => do
            let yes ← sequence bound flags true false []
            let no ← if ← accept '|' then sequence bound flags true false [] else pure .empty
            if ← accept ')' then add (.plain, .ifCaptured group yes no) else fail
          | .capturing name => do
            let group ← openGroup name
            let p ← alternatives bound flags true false
            if !(← accept ')') then fail
            modify fun s => { s with closed := (group, width s.closed p) :: s.closed }
            add (.plain, .capture group p)
          | .grouping on off =>
            let p ← alternatives bound (flags.combine on off) true false
            if ← accept ')' then add (.plain, p) else fail
          | .atomic =>
            let p ← alternatives bound flags true false
            if ← accept ')' then add (.plain, .atomic p) else fail
          | .ahead negated =>
            let p ← alternatives bound flags true false
            if ← accept ')' then add (.plain, .ahead p negated) else fail
          | .behind negated =>
            let outer := (← get).behind
            modify fun s => { s with behind := some (outer.getD s.groups) }
            let p ← alternatives bound flags true false
            modify fun s => { s with behind := outer }
            if !(← accept ')') then fail
            let w := width (← get).closed p
            if w.most != some w.least || repetitionLimit ≤ w.least then
              modify fun s => { s with unsteady := true }
            add (.plain, .behind w.least p negated)
        | c => do
          match ← quantifier? c with
          | none => add (.plain, .one ⟨[.code c.toNat], false⟩ flags.mode)
          | some bounds => match parts with
            | (.plain, p) :: parts => do
              let t ← temper
              sequence bound flags nested first ((.repetition, .repeated p bounds t) :: parts)
            | _ => fail

end

/-- A pattern with the names of its groups. -/
structure Compiled where
  pattern : Pattern
  groups : Nat
  names : List (String × Nat)

def read (text : String) (ignoreCase : Bool) : Except ReadError Compiled := do
  let cs := text.toList
  let flags : Flags := { ignoreCase }
  let (p, s) ←
    (alternatives (2 * cs.length + 2) flags false true).run { rest := cs, global := flags }
  if s.global.asciiOnly then throw .flagConflict
  if !s.rest.isEmpty || s.conditions.any (s.groups ≤ ·) || s.unsteady then throw .malformed
  return ⟨p, s.groups, s.names⟩

end Harvest.Pattern
