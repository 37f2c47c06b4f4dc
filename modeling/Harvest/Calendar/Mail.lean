import Harvest.Calendar.Date
import Harvest.Calendar.Names
import Harvest.Decimal.Reader
import Harvest.Json.Reader
import Harvest.Power
import Harvest.Text.Case

/-!
# Dates in mail headers

Day, month name, year, time and zone, separated by blanks, with the liberties that mail programs
take: a weekday in front, day and month or year and time or year and zone exchanged, hyphens in a
date, dots in a time, years of two digits.  Numbers that no date can hold are told apart from texts
that are no dates at all.
-/

namespace Harvest.Calendar.Mail

open Harvest.Text

/-- The words of a mail date in their places. -/
structure Fields where
  day : List Char
  month : Nat
  year : List Char
  time : List Char
  zone : List Char

/-- The numbers of a mail date; without a zone the distance from universal time is unknown. -/
structure Numbers where
  year : Int
  month : Nat
  day : Int
  hour : Int
  minute : Int
  second : Int
  /-- Seconds east of universal time. -/
  zone : Option Int

/-- What a text is as a mail date. -/
inductive Outcome
  | date (value : DateTime)
  | notADate
  /-- A number of the text exceeds what dates are computed with. -/
  | overflow

/-- The hours of named zones, times one hundred. -/
def zoneNames : List (String × Int) :=
  [("UT", 0), ("UTC", 0), ("GMT", 0), ("Z", 0), ("AST", -400), ("ADT", -300), ("EST", -500),
    ("EDT", -400), ("CST", -600), ("CDT", -500), ("MST", -700), ("MDT", -600), ("PST", -800),
    ("PDT", -700)]

def splitAt (mark : Char) : List Char → List (List Char)
  | [] => [[]]
  | c :: r =>
    if c == mark then [] :: splitAt mark r
    else match splitAt mark r with
      | p :: ps => (c :: p) :: ps
      | [] => [[c]]

def dropEnd (mark : Char) (cs : List Char) : List Char :=
  if cs.getLast? == some mark then cs.dropLast else cs

def behindComma (cs : List Char) : List Char := (cs.reverse.takeWhile (· != ',')).reverse

/-- The words without a weekday in front. -/
def dropWeekday : List (List Char) → List (List Char)
  | [] => []
  | w :: ws =>
    if w.getLast? == some ',' || (indexOf? shortWeekdayNames w).isSome then ws
    else behindComma w :: ws

/-- A date with hyphens as three words. -/
def splitHyphens : List (List Char) → List (List Char)
  | [a, b, c] =>
    match splitAt '-' a with
    | [d, m, y] => [d, m, y, b, c]
    | _ => [a, b, c]
  | ws => ws

/-- The place of the sign that starts a zone inside a word: the first plus, else the first
hyphen. -/
def zoneSign (cs : List Char) : Option Nat :=
  match cs.findIdx? (· == '+') with
  | some i => some i
  | none => cs.findIdx? (· == '-')

/-- Four words as five: a zone is split off the last one, or is missing. -/
def splitZone : List (List Char) → List (List Char)
  | [a, b, c, d] =>
    match zoneSign d with
    | some (i + 1) => [a, b, c, d.take (i + 1), d.drop (i + 1)]
    | _ => [a, b, c, d, []]
  | ws => ws

/-- The place of a month name, full or in three letters. -/
def monthOf? (cs : List Char) : Option Nat :=
  match indexOf? shortMonthNames cs with
  | some i => some i
  | none => indexOf? monthNames cs

/-- The words of a mail date, exchanged into their places. -/
def fields? (cs : List Char) : Option Fields :=
  match (splitZone (splitHyphens (dropWeekday (fieldsBy isBlank cs)))).take 5 with
  | [d, m, y, t, z] => do
    if d.isEmpty || m.isEmpty || y.isEmpty then none
    -- day and month may be exchanged, then year and time, then year and zone
    let (d, month) ← match monthOf? m with
      | some i => some (d, i)
      | none => (monthOf? d).map fun i => (m, i)
    let d := dropEnd ',' d
    let (y, t) := if 0 < (y.findIdx? (· == ':')).getD 0 then (t, y) else (y, t)
    let y := dropEnd ',' y
    let first ← y.head?
    let (y, z) := if isDigitLike first then (y, z) else (z, y)
    if t.isEmpty then none
    return ⟨d, month + 1, y, dropEnd ',' t, z⟩
  | _ => none

/-- Hours, minutes and seconds between colons or, if there are no colons, between dots. -/
def clockWords? (cs : List Char) : Option (List Char × List Char × List Char) :=
  match splitAt ':' cs with
  | [h, m] => some (h, m, ['0'])
  | [h, m, s] => some (h, m, s)
  | [_] => match splitAt '.' cs with
    | [h, m] => some (h, m, ['0'])
    | [h, m, s] => some (h, m, s)
    | _ => none
  | _ => none

/-- The integer that a word writes, within the length limit of integers. -/
def integer? (cs : List Char) : Option Int :=
  if Json.maxIntegerDigits < (cs.filter isDecimal).length then none
  else Decimal.readInt? (String.ofList cs)

/-- Years of two digits lie between 1969 and 2068. -/
def fullYear (year : Int) : Int :=
  if 100 ≤ year then year else if 68 < year then year + 1900 else year + 2000

/-- The distance in seconds of a number that writes hours times one hundred and minutes. -/
def zoneSeconds (n : Int) : Int :=
  let size := n.natAbs
  n.sign * ((size / 100 * 3600 + size % 100 * 60 : Nat) : Int)

/-- The distance in seconds of a zone; a negative zero says that it is unknown. -/
def zone? (cs : List Char) : Option Int :=
  let word := upper (String.ofList cs)
  match zoneNames.lookup word with
  | some n => some (zoneSeconds n)
  | none => match integer? word.toList with
    | some n => if n = 0 && word.toList.head? == some '-' then none else some (zoneSeconds n)
    | none => none

def numbers? (cs : List Char) : Option Numbers := do
  let f ← fields? cs
  let (h, m, s) ← clockWords? f.time
  let year ← integer? f.year
  let day ← integer? f.day
  let hour ← integer? h
  let minute ← integer? m
  let second ← integer? s
  return ⟨fullYear year, f.month, day, hour, minute, second, zone? f.zone⟩

/-- Whether a number is one of 32 bits with a sign. -/
def isSmall (n : Int) : Bool := decide (-(pow2 31 : Int) ≤ n ∧ n < (pow2 31 : Int))

/-- Whether a number of seconds is one of less than a billion days. -/
def isDuration (seconds : Int) : Bool := (seconds.fdiv 86400).natAbs ≤ 999999999

def Numbers.dated (n : Numbers) (offset : Option Offset) : Outcome :=
  -- the size of the numbers is looked at before the calendar is
  if !([n.year, n.day, n.hour, n.minute, n.second].all isSmall) then .overflow
  else match Date.of? n.year n.month n.day, Time.of? n.hour n.minute n.second 0 with
    | some d, some t => .date ⟨d, t, offset⟩
    | _, _ => .notADate

def Numbers.outcome (n : Numbers) : Outcome :=
  match n.zone with
  | some seconds =>
    if !isDuration seconds then .overflow
    else match Offset.of? (seconds * 1000000) with
      | none => .notADate
      | some offset => n.dated (some offset)
  | none => n.dated none

/-- What a text is as a mail date. -/
def parse (cs : List Char) : Outcome :=
  match numbers? cs with
  | some n => n.outcome
  | none => .notADate

end Harvest.Calendar.Mail
