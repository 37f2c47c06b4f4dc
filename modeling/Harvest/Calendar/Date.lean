/-!
# Dates

Dates of the Gregorian calendar, carried back to the year 1, times of day and distances from
universal time.  Each type holds the proof that its numbers are in range, so that a value is a date
that exists.
-/

namespace Harvest.Calendar

def isLeap (year : Nat) : Bool := year % 4 == 0 && (year % 100 != 0 || year % 400 == 0)

def daysIn (year month : Nat) : Nat :=
  if month = 2 then if isLeap year then 29 else 28
  else if month = 4 ∨ month = 6 ∨ month = 9 ∨ month = 11 then 30
  else 31

/-- A date from 1 January of the year 1 to 31 December of the year 9999. -/
structure Date where
  year : Nat
  month : Nat
  day : Nat
  valid : 1 ≤ year ∧ year ≤ 9999 ∧ 1 ≤ month ∧ month ≤ 12 ∧ 1 ≤ day ∧ day ≤ daysIn year month
deriving DecidableEq

/-- A time of day, up to a microsecond. -/
structure Time where
  hour : Nat
  minute : Nat
  second : Nat
  micro : Nat
  valid : hour < 24 ∧ minute < 60 ∧ second < 60 ∧ micro < 1000000
deriving DecidableEq

/-- A distance from universal time in microseconds, less than a day. -/
structure Offset where
  micros : Int
  inDay : micros.natAbs < 86400000000
deriving DecidableEq

/-- A date and time of day, with the distance from universal time where it is known. -/
structure DateTime where
  date : Date
  time : Time
  offset : Option Offset
deriving DecidableEq

def Date.of? (year month day : Int) : Option Date :=
  if h : 0 ≤ year ∧ 0 ≤ month ∧ 0 ≤ day ∧ 1 ≤ year.toNat ∧ year.toNat ≤ 9999 ∧ 1 ≤ month.toNat ∧
      month.toNat ≤ 12 ∧ 1 ≤ day.toNat ∧ day.toNat ≤ daysIn year.toNat month.toNat then
    some ⟨year.toNat, month.toNat, day.toNat, h.2.2.2⟩
  else none

def Time.of? (hour minute second micro : Int) : Option Time :=
  if h : 0 ≤ hour ∧ 0 ≤ minute ∧ 0 ≤ second ∧ 0 ≤ micro ∧ hour.toNat < 24 ∧ minute.toNat < 60 ∧
      second.toNat < 60 ∧ micro.toNat < 1000000 then
    some ⟨hour.toNat, minute.toNat, second.toNat, micro.toNat, h.2.2.2.2⟩
  else none

def Time.midnight : Time := ⟨0, 0, 0, 0, by decide⟩

/-- The distance of this many microseconds, if it is less than a day. -/
def Offset.of? (micros : Int) : Option Offset :=
  if h : micros.natAbs < 86400000000 then some ⟨micros, h⟩ else none

def Offset.universal : Offset := ⟨0, by decide⟩

def daysBeforeYear (year : Nat) : Nat :=
  let y := year - 1
  y * 365 + y / 4 - y / 100 + y / 400

def daysBeforeMonth (year month : Nat) : Nat :=
  ((List.range (month - 1)).map fun m => daysIn year (m + 1)).foldr (· + ·) 0

/-- The place of a date in its year, from 1. -/
def Date.dayOfYear (d : Date) : Nat := daysBeforeMonth d.year d.month + d.day

/-- The place of a date in the calendar, from 1. -/
def Date.ordinal (d : Date) : Nat := daysBeforeYear d.year + d.dayOfYear

/-- The weekday of the day with an ordinal, from 0 for Monday. -/
def weekdayOf (ordinal : Nat) : Nat := (ordinal + 6) % 7

/-- The weekday of a date, from 0 for Monday. -/
def Date.weekday (d : Date) : Nat := weekdayOf d.ordinal

def yearOf (ordinal : Nat) : Nat :=
  let guess := ordinal * 400 / 146097 + 1
  if ordinal ≤ daysBeforeYear guess then guess - 1
  else if daysBeforeYear (guess + 1) < ordinal then guess + 1
  else guess

def Date.ofOrdinal? (ordinal : Nat) : Option Date :=
  let year := yearOf ordinal
  let rest := ordinal - daysBeforeYear year
  let month := ((List.range 12).filter fun m => daysBeforeMonth year (m + 1) < rest).length
  Date.of? year month (rest - daysBeforeMonth year month : Nat)

/-- The ordinal of the Monday that starts the first week of a year: the week that holds 4 January.
It may lie in the year before, down to the day before the first. -/
def firstMonday (year : Nat) : Int :=
  let first := daysBeforeYear year + 1
  let weekday := weekdayOf first
  if weekday ≤ 3 then (first : Int) - weekday else (first : Int) - weekday + 7

def weeksIn (year : Nat) : Nat := ((firstMonday (year + 1) - firstMonday year) / 7).toNat

/-- The date of a weekday (from 1 for Monday) in a week of a year, if there is one. -/
def Date.ofWeek? (year week weekday : Nat) : Option Date :=
  if 1 ≤ year ∧ year ≤ 9999 ∧ 1 ≤ week ∧ week ≤ weeksIn year ∧ 1 ≤ weekday ∧ weekday ≤ 7 then
    Date.ofOrdinal? (firstMonday year + ((week - 1) * 7 + (weekday - 1) : Nat)).toNat
  else none

/-- The year and week that a date belongs to by the count of whole weeks. -/
def Date.weekYear (d : Date) : Nat × Nat :=
  let n : Int := d.ordinal
  let year :=
    if n < firstMonday d.year then d.year - 1
    else if firstMonday (d.year + 1) ≤ n then d.year + 1
    else d.year
  (year, ((n - firstMonday year) / 7).toNat + 1)

end Harvest.Calendar
