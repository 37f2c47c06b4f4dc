import Harvest.Pattern.Basic

/-!
# Matching

Matching with backtracking: a pattern hands every place it can end at, in order of preference, to a
continuation, and the first success counts.  A repetition whose body has just matched the empty text
does not run it again, which bounds the number of runs.
-/

namespace Harvest.Pattern

abbrev Subject := Array Char

/-- A place in the text and the captures so far: for each group where it starts and ends. -/
structure Cursor where
  pos : Nat
  captures : List (Nat × Nat × Nat) := []
deriving Inhabited

/-- What follows a match: the cursor of a success, if there is one. -/
abbrev Next := Cursor → Option Cursor

def Cursor.span? (c : Cursor) (group : Nat) : Option (Nat × Nat) := c.captures.lookup group

def slice (text : Subject) (start stop : Nat) : List Char := (text.extract start stop).toList

def Cursor.group? (c : Cursor) (text : Subject) (group : Nat) : Option (List Char) :=
  (c.span? group).map fun (start, stop) => slice text start stop

/-- Whether a word character stands at a place. -/
def wordAt (text : Subject) (asciiOnly : Bool) (i : Nat) : Bool :=
  (text[i]?.map (Category.word.holds asciiOnly)).getD false

/-- Whether a word starts or ends at a place. -/
def edgeAt (text : Subject) (asciiOnly : Bool) (pos : Nat) : Bool :=
  (0 < pos && wordAt text asciiOnly (pos - 1)) != wordAt text asciiOnly pos

/-- Whether a place is of a kind. -/
def Boundary.holds (p : Boundary) (text : Subject) (pos : Nat) : Bool :=
  match p with
  | .textStart => pos == 0
  | .lineStart => pos == 0 || text[pos - 1]? == some '\n'
  | .textEnd => pos == text.size
  | .lastLineEnd => pos == text.size || (pos + 1 == text.size && text[pos]? == some '\n')
  | .lineEnd => pos == text.size || text[pos]? == some '\n'
  | .wordEdge asciiOnly => 0 < text.size && edgeAt text asciiOnly pos
  | .notWordEdge asciiOnly => 0 < text.size && !edgeAt text asciiOnly pos

/-- A character as it is compared with another: in lower case where case is ignored. -/
def Mode.fold (mode : Mode) (c : Char) : Char :=
  if mode.ignoreCase then if mode.asciiOnly then c.toLower else Text.lowerChar c else c

/-- The place behind a repetition of characters that stand at a place. -/
def follow? (text : Subject) (mode : Mode) : List Char → Nat → Option Nat
  | [], pos => some pos
  | c :: cs, pos =>
    match text[pos]? with
    | some x =>
      if mode.fold c == mode.fold x then follow? text mode cs (pos + 1) else none
    | none => none

/-- Runs a body again and again, at most `fuel` times.  `last` is where the run before started. -/
def iterate (body : Cursor → Next → Option Cursor) (bounds : Bounds) (temper : Temper) :
    Nat → Nat → Option Nat → Cursor → Next → Option Cursor
  | 0, _, _, c, next => next c
  | fuel + 1, count, last, c, next =>
    let more (_ : Unit) : Option Cursor :=
      if bounds.allow count && last != some c.pos then
        body c fun c' => iterate body bounds temper fuel (count + 1) (some c.pos) c' next
      else none
    -- The runs that are asked for are made even where the one before was empty.
    if count < bounds.least then
      body c fun c' => iterate body bounds temper fuel (count + 1) (some c.pos) c' next
    else match temper with
      | .lazy => match next c with
        | some r => some r
        | none => more ()
      | _ => match more () with
        | some r => some r
        | none => next c

/-- The first success of a pattern at a cursor followed by what comes next. -/
def run (text : Subject) : Pattern → Cursor → Next → Option Cursor
  | .empty, c, next => next c
  | .one set mode, c, next =>
    match text[c.pos]? with
    | some x => if set.matches mode x then next { c with pos := c.pos + 1 } else none
    | none => none
  | .any lineFeeds, c, next =>
    match text[c.pos]? with
    | some x => if lineFeeds || x != '\n' then next { c with pos := c.pos + 1 } else none
    | none => none
  | .place p, c, next => if p.holds text c.pos then next c else none
  | .seq p q, c, next => run text p c fun c => run text q c next
  | .either p q, c, next =>
    match run text p c next with
    | some r => some r
    | none => run text q c next
  | .repeated p bounds temper, c, next =>
    -- Past the least number each run moves on, but for a last one that is empty.
    let fuel := bounds.least + (text.size - c.pos) + 2
    match temper with
    | .possessive =>
      (iterate (run text p) bounds .greedy fuel 0 none c some).bind next
    | temper => iterate (run text p) bounds temper fuel 0 none c next
  | .capture group p, c, next =>
    run text p c fun c' =>
      next { c' with captures := (group, c.pos, c'.pos) :: c'.captures.filter (·.1 != group) }
  | .again group mode, c, next =>
    match c.group? text group with
    | some cs => (follow? text mode cs c.pos).bind fun pos => next { c with pos }
    | none => none
  | .ahead p negated, c, next =>
    match run text p c some with
    | some c' => if negated then none else next { c' with pos := c.pos }
    | none => if negated then next c else none
  | .behind width p negated, c, next =>
    let found :=
      if width ≤ c.pos then
        run text p { c with pos := c.pos - width } some
      else none
    match found with
    | some c' => if negated then none else next { c' with pos := c.pos }
    | none => if negated then next c else none
  | .atomic p, c, next => (run text p c some).bind next
  | .ifCaptured group p q, c, next =>
    if (c.span? group).isSome then run text p c next else run text q c next

/-- A match: where it starts, and the cursor at its end. -/
structure Found where
  start : Nat
  stop : Cursor

def Found.text (m : Found) (text : Subject) : List Char := slice text m.start m.stop.pos

/-- The first match that starts at one of `count` places from `start` on.  A match that is empty at
`start` may be ruled out. -/
def searchFrom (p : Pattern) (text : Subject) (advance : Bool) : Nat → Nat → Option Found
  | 0, _ => none
  | count + 1, start =>
    match run text p ⟨start, []⟩ fun c => if advance && c.pos == start then none else some c with
    | some c => some ⟨start, c⟩
    | none => searchFrom p text false count (start + 1)

def search? (p : Pattern) (cs : List Char) : Option (List Char) :=
  let text := cs.toArray
  (searchFrom p text false (text.size + 1) 0).map (·.text text)

/-- At most `limit` matches one behind the other. -/
def allFrom (p : Pattern) (text : Subject) : Nat → Nat → Bool → List Found
  | 0, _, _ => []
  | limit + 1, start, advance =>
    match searchFrom p text advance (text.size + 1 - start) start with
    | some m => m :: allFrom p text limit m.stop.pos (m.stop.pos == m.start)
    | none => []

/-- All matches of a pattern.  After an empty one the next is not empty at the same place. -/
def matchesOf (p : Pattern) (text : Subject) : List Found :=
  allFrom p text (2 * text.size + 2) 0 false

end Harvest.Pattern
