import Harvest.Decimal.Reader
import Harvest.Issue
import Harvest.Power

/-!
# Forms

Reading values of a given form.  A text may stand for a truth value or an integer; everything that
is wrong with a value is reported, not only the first fault.
-/

namespace Harvest

/-- A value, or all that is wrong with what should have been one. -/
abbrev Checked (α : Type) := Except (List Issue) α

namespace Checked

def issues {α : Type} : Checked α → List Issue
  | .ok _ => []
  | .error is => is

def zip {α β : Type} (a : Checked α) (b : Checked β) : Checked (α × β) :=
  match a, b with
  | .ok x, .ok y => .ok (x, y)
  | a, b => .error (a.issues ++ b.issues)

/-- The value, with its issues seen from one step further out. -/
def under {α : Type} (step : Step) (a : Checked α) : Checked α :=
  a.mapError (·.map (Issue.under step))

def refuse {α : Type} (fault : Fault) : Checked α := .error [Issue.here fault]

def all {α : Type} : List (Checked α) → Checked (List α)
  | [] => .ok []
  | a :: as => (a.zip (all as)).map fun (x, xs) => x :: xs

end Checked

namespace Form

def text : Json → Checked String
  | .str s => .ok s
  | _ => .refuse .notString

def mapping : Json → Checked Members
  | .map ms => .ok ms
  | _ => .refuse .notMapping

/-- The texts that stand for truth and for its opposite, in small letters. -/
def truthWords : List (String × Bool) :=
  [("1", true), ("t", true), ("y", true), ("on", true), ("yes", true), ("true", true),
    ("0", false), ("f", false), ("n", false), ("no", false), ("off", false), ("false", false)]

def smallLetters (s : String) : String := String.ofList (s.toList.map Char.toLower)

def wholeFloat? (x : Binary64) : Option Int :=
  match x.magnitude with
  | .finite m q =>
    (Binary64.wholeValue? m q).map fun (n : Nat) => if x.isNegative then -(n : Int) else (n : Int)
  | _ => none

/-- Whether a floating-point number may stand for an integer of this value: only within a signed
word of 64 bits, both ends left out. -/
def isWordSized (n : Int) : Bool := n.natAbs < pow2 63

/-- Whether a text may stand for an integer of this value: only with at most 4300 digits. -/
def isTextSized (n : Int) : Bool := n.natAbs < pow10 4300

def truthOfInt (n : Int) : Checked Bool :=
  if n = 0 then .ok false else if n = 1 then .ok true else .refuse .unclearBoolean

/-- A truth value, a word or a number that stands for one. -/
def truth : Json → Checked Bool
  | .bool b => .ok b
  | .str s => match truthWords.lookup (smallLetters s) with
    | some b => .ok b
    | none => .refuse .unclearBoolean
  | .int n => truthOfInt n
  | .float x => match wholeFloat? x with
    | some n => if isWordSized n then truthOfInt n else .refuse .notBoolean
    | none => .refuse .notBoolean
  | _ => .refuse .notBoolean

/-- An integer text without a fraction of zeros. -/
def dropZeroFraction (cs : List Char) : List Char :=
  match cs.reverse.dropWhile (· == '0') with
  | '.' :: r => r.reverse
  | _ => cs

/-- The integer that a text writes: digits with an optional sign, blanks around them and a fraction
of zeros ignored, single low lines between digits allowed. -/
def integerOfText? (s : String) : Option Int :=
  let (negative, cs) := Decimal.takeSign (dropZeroFraction (Text.trimChars s.toList))
  let digits := cs.filter (· != '_')
  if !digits.all Text.isAsciiDigit then none
  else match Decimal.takeGrouped cs with
    | (ds@(_ :: _), []) =>
      let n : Int := Text.readDecimal ds
      some (if negative then -n else n)
    | _ => none

/-- An integer, or a text or number that stands for one. -/
def integer : Json → Checked Int
  | .int n => .ok n
  | .bool b => .ok (if b then 1 else 0)
  | .str s => match integerOfText? s with
    | some n => if isTextSized n then .ok n else .refuse .oversizedInteger
    | none => .refuse .unreadableInteger
  | .float x => match x.magnitude with
    | .finite _ _ => match wholeFloat? x with
      | some n => if isWordSized n then .ok n else .refuse .oversizedInteger
      | none => .refuse .fraction
    | _ => .refuse .notFinite
  | _ => .refuse .notInteger

def integerFrom (least : Int) (v : Json) : Checked Int :=
  match integer v with
  | .ok n => if n < least then .refuse (.tooSmall least) else .ok n
  | .error is => .error is

/-- One of several choices that have names. -/
def choice {α : Type} (choices : List (String × α)) : Json → Checked α
  | .str s => match choices.lookup s with
    | some a => .ok a
    | none => .refuse (.noChoice (choices.map (·.1)))
  | _ => .refuse (.noChoice (choices.map (·.1)))

def optional {α : Type} (form : Json → Checked α) : Json → Checked (Option α)
  | .null => .ok none
  | v => (form v).map some

/-- A list of values of a form. -/
def listOf {α : Type} (form : Json → Checked α) : Json → Checked (List α)
  | .list vs => .all (vs.zipIdx.map fun (v, n) => (form v).under (.item n))
  | _ => .refuse .notList

/-- The first of several names that a mapping has, with its value. -/
def firstOf? (names : List String) (ms : Members) : Option (String × Json) :=
  names.findSome? fun name => (ms.get? name).map (name, ·)

/-- The member with the first of several names that a mapping has; a default where it has none. -/
def member {α : Type} (names : List String) (form : Json → Checked α) (default : α)
    (ms : Members) : Checked α :=
  match firstOf? names ms with
  | some (name, v) => (form v).under (.key name)
  | none => .ok default

def required {α : Type} (names : List String) (form : Json → Checked α) (ms : Members) :
    Checked α :=
  match firstOf? names ms with
  | some (name, v) => (form v).under (.key name)
  | none => .error [⟨[.key (names.headD "")], .missing⟩]

end Form

end Harvest
