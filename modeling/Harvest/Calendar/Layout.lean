import Harvest.Calendar.Date
import Harvest.Calendar.Names
import Harvest.Text.Blank
import Harvest.Text.Case
import Harvest.Text.Digit
import Harvest.Text.Word

/-!
# Date layouts

Layouts that spell a date out: a list of fields and marks, tried on a text from the left.  Each
field has its readings in an order of preference; the first combination that fits the layout
counts, and it has to take in the whole text.
-/

namespace Harvest.Calendar.Layout

open Harvest.Text

inductive Part
  | year
  | month
  | day
  | hour
  | minute
  | second
  | monthName
  | shortMonthName
  | weekdayName
  | shortWeekdayName
  /-- At least one blank. -/
  | gap
  | mark (c : Char)
deriving DecidableEq

structure Found where
  year : Nat := 1900
  month : Nat := 1
  day : Nat := 1
  hour : Nat := 0
  minute : Nat := 0
  second : Nat := 0

/-- A condition on the digits of a number of two digits. -/
abbrev TwoDigits := Char → Char → Bool

/-- Whether a character lies between two others. -/
def between (low high c : Char) : Bool := Nat.ble low.toNat c.toNat && Nat.ble c.toNat high.toNat

/-- The readings of a number of two digits, or of one digit if that is allowed alone. -/
def readTwo (two : TwoDigits) (one : Char → Bool) (cs : List Char) : List (Nat × List Char) :=
  let long := match cs with
    | a :: b :: r => if two a b then [(readDecimal [a, b], r)] else []
    | _ => []
  let short := match cs with
    | a :: r => if one a then [(readDecimal [a], r)] else []
    | [] => []
  long ++ short

def dayDigits : TwoDigits := fun a b =>
  a == '3' && between '0' '1' b || between '1' '2' a && isDecimal b || a == '0' && between '1' '9' b

def monthDigits : TwoDigits := fun a b =>
  a == '1' && between '0' '2' b || a == '0' && between '1' '9' b

def hourDigits : TwoDigits := fun a b =>
  a == '2' && between '0' '3' b || between '0' '1' a && isDecimal b

def minuteDigits : TwoDigits := fun a b => between '0' '5' a && isDecimal b

def secondDigits : TwoDigits := fun a b => a == '6' && between '0' '1' b || minuteDigits a b

/-- A day may have a space in front instead of a second digit. -/
def readDay (cs : List Char) : List (Nat × List Char) :=
  readTwo dayDigits (between '1' '9') cs ++
    match cs with
    | ' ' :: a :: r => if between '1' '9' a then [(readDecimal [a], r)] else []
    | _ => []

def readYear : List Char → List (Nat × List Char)
  | a :: b :: c :: d :: r =>
    if [a, b, c, d].all isDecimal then [(readDecimal [a, b, c, d], r)] else []
  | _ => []

/-- The rest after a name, where the case of ASCII letters does not matter. -/
def dropName? : List Char → List Char → Option (List Char)
  | [], cs => some cs
  | _ :: _, [] => none
  | n :: ns, c :: cs => if n.toLower == c.toLower then dropName? ns cs else none

/-- The place of a name at the start of a text, from 1. -/
def readName (names : List String) (cs : List Char) : List (Nat × List Char) :=
  names.zipIdx.filterMap fun (name, i) => (dropName? name.toList cs).map fun r => (i + 1, r)

def readGap (cs : List Char) : List (List Char) :=
  let n := (cs.takeWhile isBlank).length
  ((List.range n).map fun i => cs.drop (n - i))

/-- The readings of a part at the start of a text, in order of preference. -/
def Part.readings (p : Part) (f : Found) (cs : List Char) : List (Found × List Char) :=
  match p with
  | .year => (readYear cs).map fun (n, r) => ({ f with year := n }, r)
  | .month =>
    (readTwo monthDigits (between '1' '9') cs).map fun (n, r) => ({ f with month := n }, r)
  | .day => (readDay cs).map fun (n, r) => ({ f with day := n }, r)
  | .hour => (readTwo hourDigits isDecimal cs).map fun (n, r) => ({ f with hour := n }, r)
  | .minute => (readTwo minuteDigits isDecimal cs).map fun (n, r) => ({ f with minute := n }, r)
  | .second => (readTwo secondDigits isDecimal cs).map fun (n, r) => ({ f with second := n }, r)
  | .monthName => (readName monthNames cs).map fun (n, r) => ({ f with month := n }, r)
  | .shortMonthName => (readName shortMonthNames cs).map fun (n, r) => ({ f with month := n }, r)
  | .weekdayName => (readName weekdayNames cs).map fun (_, r) => (f, r)
  | .shortWeekdayName => (readName shortWeekdayNames cs).map fun (_, r) => (f, r)
  | .gap => (readGap cs).map fun r => (f, r)
  | .mark c => match cs with
    | d :: r => if c == d then [(f, r)] else []
    | [] => []

/-- The first reading of the parts in order, with the rest of the text. -/
def firstReading? : List Part → Found → List Char → Option (Found × List Char)
  | [], f, cs => some (f, cs)
  | p :: ps, f, cs => (p.readings f cs).findSome? fun (f, r) => firstReading? ps f r

def Found.date? (f : Found) : Option DateTime := do
  let d ← Date.of? f.year f.month f.day
  let t ← Time.of? f.hour f.minute f.second 0
  return ⟨d, t, none⟩

def read? (layout : List Part) (cs : List Char) : Option DateTime :=
  match firstReading? layout {} cs with
  | some (f, []) => f.date?
  | _ => none

def thenClock : List Part := [.gap, .hour, .mark ':', .minute]

/-- The layouts in the order in which they are tried. -/
def layouts : List (List Part) := [
  ([.year, .mark '-', .month, .mark '-', .day] : List Part) ++ thenClock ++ [.mark ':', .second],
  ([.year, .mark '-', .month, .mark '-', .day] : List Part) ++ thenClock,
  [.year, .mark '/', .month, .mark '/', .day],
  [.day, .gap, .monthName, .gap, .year],
  [.day, .gap, .shortMonthName, .gap, .year],
  [.weekdayName, .gap, .day, .gap, .monthName, .gap, .year],
  [.shortWeekdayName, .gap, .day, .gap, .shortMonthName, .gap, .year],
  [.monthName, .gap, .day, .gap, .year],
  [.shortMonthName, .gap, .day, .gap, .year],
  [.weekdayName, .gap, .monthName, .gap, .day, .gap, .year],
  [.shortWeekdayName, .gap, .shortMonthName, .gap, .day, .gap, .year],
  ([.day, .gap, .monthName, .gap, .year] : List Part) ++ thenClock,
  ([.day, .gap, .shortMonthName, .gap, .year] : List Part) ++ thenClock,
  ([.monthName, .gap, .day, .gap, .year] : List Part) ++ thenClock,
  ([.shortMonthName, .gap, .day, .gap, .year] : List Part) ++ thenClock,
  [.day, .mark '.', .month, .mark '.', .year],
  [.day, .mark '/', .month, .mark '/', .year],
  [.month, .mark '/', .day, .mark '/', .year],
  [.monthName, .gap, .year],
  [.shortMonthName, .gap, .year],
  [.year]]

/-- The two letters behind an ordinal number. -/
def isOrdinalSuffix (a b : Char) : Bool :=
  [('s', 't'), ('n', 'd'), ('r', 'd'), ('t', 'h')].any fun s =>
    equalIgnoringCase s.1 a && equalIgnoringCase s.2 b

/-- Whether a text goes on with a word character. -/
def startsWithWord (cs : List Char) : Bool := (cs.head?.map isWord).getD false

/-- A number of one or two digits at the start of a text with an ordinal suffix behind it, where
the word ends: the digits and the rest. -/
def ordinal? : List Char → Option (List Char × List Char)
  | a :: b :: c :: d :: r =>
    if isDecimal a && isDecimal b && isOrdinalSuffix c d && !startsWithWord r then some ([a, b], r)
    else if isDecimal a && isOrdinalSuffix b c && !startsWithWord (d :: r) then some ([a], d :: r)
    else none
  | [a, b, c] => if isDecimal a && isOrdinalSuffix b c then some ([a], []) else none
  | _ => none

theorem ordinal?_length {cs ds r : List Char} (h : ordinal? cs = some (ds, r)) :
    r.length < cs.length := by
  unfold ordinal? at h
  split at h
  · split at h
    · cases h; simp only [List.length_cons]; omega
    · split at h
      · cases h; simp
      · simp at h
  · split at h
    · cases h; simp
    · simp at h
  · simp at h

/-- Ordinal numbers without their suffixes; a number counts only where a word starts. -/
def dropOrdinals (inWord : Bool) (cs : List Char) : List Char :=
  match _hit : if inWord then none else ordinal? cs with
  | some (ds, r) => ds ++ dropOrdinals true r
  | none => match cs with
    | [] => []
    | c :: r => c :: dropOrdinals (isWord c) r
termination_by cs.length
decreasing_by
  · cases inWord
    · exact ordinal?_length _hit
    · simp at _hit
  · simp

def isNoise (c : Char) : Bool := c == ',' || isBlank c

/-- A text with one space for every run of commas and blanks, and none at its ends. -/
def normalize (cs : List Char) : List Char :=
  List.intercalate [' '] (fieldsBy isNoise (dropOrdinals false cs))

/-- The date that a text writes in the first layout that fits. -/
def parse? (cs : List Char) : Option DateTime :=
  let text := normalize cs
  layouts.findSome? fun layout => read? layout text

end Harvest.Calendar.Layout
