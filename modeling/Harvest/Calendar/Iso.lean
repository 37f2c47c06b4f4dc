import Harvest.Calendar.Date
import Harvest.Power

/-!
# The international date format

Dates as year, month and day or as year, week and weekday, with or without hyphens; after any one
character a time of two to six digits, with or without colons, a fraction and a distance from
universal time.  Fractions count to six places.
-/

namespace Harvest.Calendar.Iso

def digit? (c : Char) : Option Nat :=
  if Nat.ble 0x30 c.toNat && Nat.ble c.toNat 0x39 then some (c.toNat - 0x30) else none

/-- The number that the next `n` digits write. -/
def takeNumber? : Nat → List Char → Option (Nat × List Char)
  | n, cs => go n 0 cs
where
  go : Nat → Nat → List Char → Option (Nat × List Char)
    | 0, acc, cs => some (acc, cs)
    | n + 1, acc, c :: r => (digit? c).bind fun d => go n (10 * acc + d) r
    | _ + 1, _, [] => none

/-- The length of a run of digits. -/
def runLength (cs : List Char) : Nat := (cs.takeWhile fun c => (digit? c).isSome).length

def byteLength (cs : List Char) : Nat := (cs.map Char.utf8Size).foldr (· + ·) 0

/-- The number of characters of the date part.  A date by weeks may or may not name its weekday. -/
def dateLength (cs : List Char) : Nat :=
  if byteLength cs = 7 then 7
  else if cs[4]? = some '-' then
    if cs[5]? = some 'W' then
      -- a weekday, unless the next hyphen stands in front of a time
      if 8 < cs.length ∧ cs[8]? = some '-' then
        if ((cs[10]?).bind digit?).isSome then 8 else 10
      else 8
    else 10
  else if cs[4]? = some 'W' then
    -- the digits of a time come in pairs, so that an odd run starts with the weekday
    let stop := 7 + runLength (cs.drop 7)
    if stop < 9 then stop else if stop % 2 = 0 then 7 else 8
  else 8

def takeHyphen? (hyphens : Bool) (cs : List Char) : Option (List Char) :=
  if hyphens then match cs with
    | '-' :: r => some r
    | _ => none
  else some cs

/-- The date in the first `length` characters; a week without a weekday stands for its Monday. -/
def date? (length : Nat) (cs : List Char) : Option Date := do
  let (year, r) ← takeNumber? 4 cs
  let hyphens := r.head? == some '-'
  let r := if hyphens then r.drop 1 else r
  match r with
  | 'W' :: r =>
    let (week, r) ← takeNumber? 2 r
    if cs.length - r.length < length then
      let r ← takeHyphen? hyphens r
      let (weekday, _) ← takeNumber? 1 r
      Date.ofWeek? year week weekday
    else Date.ofWeek? year week 1
  | r =>
    let (month, r) ← takeNumber? 2 r
    let r ← takeHyphen? hyphens r
    let (day, _) ← takeNumber? 2 r
    Date.of? year month day

/-- The numbers of a clock text, and whether characters follow that are not part of it. -/
structure Clock where
  hour : Nat
  minute : Nat
  second : Nat
  micro : Nat
  more : Bool

def endMark : Char := '\x00'

/-- The fraction of a second: all of its first six characters are digits, further digits do not
count.  The second part tells whether anything but the end follows. -/
def fraction? (after : Char) (cs : List Char) : Option (Nat × Bool) :=
  let places := min 6 cs.length
  (takeNumber? places cs).map fun (n, r) =>
    let r := r.dropWhile fun c => (digit? c).isSome
    (n * pow10 (6 - places), r.head?.getD after != endMark)

/-- Reads up to `left` more pairs of digits behind those read; `after` is the character behind the
text, `colons` whether the pairs are separated. -/
def pairs? (after : Char) : Nat → Bool → List Nat → List Char → Option (List Nat × Nat × Bool)
  | 0, _, found, cs => (fraction? after cs).map fun (micro, more) => (found, micro, more)
  | left + 1, colons, found, cs => do
    let (n, r) ← takeNumber? 2 cs
    let found' := found ++ [n]
    match r with
    | [] => return (found', 0, after != endMark)
    -- let pass where a distance from universal time follows
    | [c] => return (found', 0, c != endMark)
    | c :: r' =>
      let colons := if found.isEmpty then c == ':' else colons
      if colons && c == ':' then pairs? after left colons found' r'
      else if c == '.' || c == ',' then
        (fraction? after r').map fun (micro, more) => (found', micro, more)
      else if !colons then pairs? after left colons found' r
      else none

/-- The clock text in front of the character `after`. -/
def clock? (after : Char) (cs : List Char) : Option Clock :=
  (pairs? after 3 true [] cs).map fun (found, micro, more) =>
    ⟨found.getD 0 0, found.getD 1 0, found.getD 2 0, micro, more⟩

/-- Whether a character ends the clock text: a sign or the letter of universal time. -/
def startsOffset (c : Char) : Bool := c == '+' || c == '-' || c == 'Z'

/-- The distance from universal time that a signed clock text gives; without whole seconds it is
universal time. -/
def offset? (negative : Bool) (c : Clock) : Option Offset :=
  let seconds := c.hour * 3600 + c.minute * 60 + c.second
  let micros : Int := seconds * 1000000 + c.micro
  if seconds = 0 then some Offset.universal
  else Offset.of? (if negative then -micros else micros)

/-- The time and distance from universal time behind a date. -/
def time? (cs : List Char) : Option (Time × Option Offset) := do
  let body := cs.takeWhile fun c => !startsOffset c
  let rest := cs.drop body.length
  let c ← clock? (rest.head?.getD endMark) body
  let offset ← match rest with
    | [] => if c.more then none else some none
    | 'Z' :: r => if r.head?.getD endMark == endMark then some (some Offset.universal) else none
    | sign :: r => do
      let o ← clock? endMark r
      if o.more then none else (offset? (sign == '-') o).map some
  let t ← Time.of? c.hour c.minute c.second c.micro
  return (t, offset)

/-- The date and time that a text writes.  What stands behind the date is one character of any kind
and a time: the one without the other is refused. -/
def parse? (cs : List Char) : Option DateTime := do
  let length := dateLength cs
  let d ← date? length cs
  let rest := cs.drop length
  if rest.isEmpty then return ⟨d, Time.midnight, none⟩
  else
    let (t, offset) ← time? (rest.drop 1)
    return ⟨d, t, offset⟩

end Harvest.Calendar.Iso
