import Harvest.Calendar.Date
import Harvest.Calendar.Names
import Harvest.Text.Case

/-!
# Writing dates

A date in the international format, or by a pattern of directives: a percent sign, flags, a width,
a modifier and a letter.  Numbers have a least number of digits; the width and the flags `-`, `_`
and `0` change how they are padded, `^` and `#` change the case of names.  A directive that is not
known stands for itself.
-/

namespace Harvest.Calendar.Format

/-- A number with at least `width` digits. -/
def padded (width n : Nat) : List Char :=
  let ds := Nat.toDigits 10 n
  List.replicate (width - ds.length) '0' ++ ds

/-- Hours and minutes with a mark between them, and seconds and microseconds if there are any. -/
def offsetClock (mark : List Char) (o : Offset) : List Char :=
  let micros := o.micros.natAbs
  let seconds := micros / 1000000
  let fraction := micros % 1000000
  let rest :=
    if seconds % 60 = 0 ∧ fraction = 0 then []
    else mark ++ padded 2 (seconds % 60) ++ if fraction = 0 then [] else '.' :: padded 6 fraction
  (if o.micros < 0 then '-' else '+') ::
    (padded 2 (seconds / 3600) ++ mark ++ padded 2 (seconds / 60 % 60) ++ rest)

def isoDate (d : Date) : List Char :=
  padded 4 d.year ++ '-' :: padded 2 d.month ++ '-' :: padded 2 d.day

/-- A time in the international format; the fraction only if there is one. -/
def isoTime (t : Time) : List Char :=
  padded 2 t.hour ++ ':' :: padded 2 t.minute ++ ':' :: padded 2 t.second ++
    if t.micro = 0 then [] else '.' :: padded 6 t.micro

/-- A date and time in the international format, with the distance from universal time if it is
known. -/
def iso (v : DateTime) : String :=
  String.ofList (isoDate v.date ++ 'T' :: isoTime v.time ++
    match v.offset with
    | some o => offsetClock [':'] o
    | none => [])

/-- The name of a zone that is known by its distance only. -/
def zoneName (o : Offset) : List Char :=
  "UTC".toList ++ if o.micros = 0 then [] else offsetClock [':'] o

/-- What flags, width and modifier a directive carries. -/
structure Directive where
  /-- The flag that rules the padding: `-`, `_` or `0`. -/
  pad : Option Char := none
  raise : Bool := false
  change : Bool := false
  width : Nat := 0
  modifier : Option Char := none

/-- How the letters of a text are changed. -/
inductive Casing
  | keep
  | lower
  | upper

def Casing.apply (c : Casing) (cs : List Char) : List Char :=
  match c with
  | .keep => cs
  | .lower => cs.map Char.toLower
  | .upper => cs.map Char.toUpper

/-- A text padded on the left to the width: with zeros under the flag `0`, else with spaces. -/
def Directive.fill (d : Directive) (cs : List Char) : List Char :=
  List.replicate (d.width - cs.length) (if d.pad == some '0' then '0' else ' ') ++ cs

def Directive.name (d : Directive) (name : String) : List Char :=
  d.fill ((if d.raise || d.change then Casing.upper else Casing.keep).apply name.toList)

/-- A number with at least `digits` digits; `spaces` pads with spaces unless a flag says
otherwise. -/
def Directive.number (d : Directive) (digits : Nat) (spaces : Bool) (n : Nat) : List Char :=
  let pad := if spaces && d.pad != some '0' && d.pad != some '-' then some '_' else d.pad
  let ds := Nat.toDigits 10 n
  let missing := max digits d.width - ds.length
  match pad with
  | some '-' => d.fill ds
  | some '_' => List.replicate missing ' ' ++ ds
  | _ => List.replicate missing '0' ++ ds

def clockHour (hour : Nat) : Nat := if hour % 12 = 0 then 12 else hour % 12

/-- The mark of the half of the day. -/
def halfOfDay (hour : Nat) : String := if hour < 12 then "AM" else "PM"

/-- The number of the week in the year, where weeks start on a weekday (from 0 for Monday). -/
def weekOfYear (d : Date) (start : Nat) : Nat :=
  (d.dayOfYear - 1 + 7 - (d.weekday + 7 - start) % 7) / 7

/-- The seconds since the start of 1970, negative before. -/
def epochSeconds (v : DateTime) : Int :=
  ((v.date.ordinal : Int) - 719163) * 86400 +
    (v.time.hour * 3600 + v.time.minute * 60 + v.time.second : Nat)

/-- An integer with a sign for negative ones. -/
def Directive.integer (d : Directive) (n : Int) : List Char :=
  if 0 ≤ n then d.number 1 false n.toNat
  else
    let ds := Nat.toDigits 10 n.natAbs
    let missing := max 1 d.width - (ds.length + 1)
    match d.pad with
    | some '-' => d.fill ('-' :: ds)
    | some '_' => List.replicate missing ' ' ++ '-' :: ds
    | _ => '-' :: (List.replicate missing '0' ++ ds)

def compound? : Char → Option String
  | 'c' => some "%a %b %e %H:%M:%S %Y"
  | 'x' => some "%m/%d/%y"
  | 'X' => some "%H:%M:%S"
  | 'D' => some "%m/%d/%y"
  | 'F' => some "%Y-%m-%d"
  | 'r' => some "%I:%M:%S %p"
  | 'R' => some "%H:%M"
  | 'T' => some "%H:%M:%S"
  | _ => none

/-- The modifiers that a letter takes; a letter with another one is not a directive. -/
def allows (modifier : Option Char) (letter : Char) : Bool :=
  match modifier with
  | none => true
  | some 'E' => "cCxXyYntzZsupPrRT%".toList.contains letter
  | some _ => "bhBCdegGHIjklmMntSuUVwWyzZspPrRT%".toList.contains letter

/-- The text of a directive of one letter, if it is known. -/
def Directive.simple? (d : Directive) (v : DateTime) (letter : Char) : Option (List Char) :=
  let date := v.date
  let time := v.time
  match letter with
  | '%' => some (d.fill ['%'])
  | 'n' => some (d.fill ['\n'])
  | 't' => some (d.fill ['\t'])
  | 'a' => some (d.name (shortWeekdayNames.getD date.weekday ""))
  | 'A' => some (d.name (weekdayNames.getD date.weekday ""))
  | 'b' => some (d.name (shortMonthNames.getD (date.month - 1) ""))
  | 'h' => some (d.name (shortMonthNames.getD (date.month - 1) ""))
  | 'B' => some (d.name (monthNames.getD (date.month - 1) ""))
  | 'p' =>
    let casing := if d.change then Casing.lower else if d.raise then .upper else .keep
    some (d.fill (casing.apply (halfOfDay time.hour).toList))
  | 'P' => some (d.fill (Casing.lower.apply (halfOfDay time.hour).toList))
  | 'C' => some (d.number 1 false (date.year / 100))
  | 'Y' => some (d.number 1 false date.year)
  | 'y' => some (d.number 2 false (date.year % 100))
  | 'G' => some (d.number 1 false date.weekYear.1)
  | 'g' => some (d.number 2 false (date.weekYear.1 % 100))
  | 'V' => some (d.number 2 false date.weekYear.2)
  | 'm' => some (d.number 2 false date.month)
  | 'd' => some (d.number 2 false date.day)
  | 'e' => some (d.number 2 true date.day)
  | 'j' => some (d.number 3 false date.dayOfYear)
  | 'u' => some (d.number 1 false (date.weekday + 1))
  | 'w' => some (d.number 1 false ((date.weekday + 1) % 7))
  | 'U' => some (d.number 2 false (weekOfYear date 6))
  | 'W' => some (d.number 2 false (weekOfYear date 0))
  | 'H' => some (d.number 2 false time.hour)
  | 'k' => some (d.number 2 true time.hour)
  | 'I' => some (d.number 2 false (clockHour time.hour))
  | 'l' => some (d.number 2 true (clockHour time.hour))
  | 'M' => some (d.number 2 false time.minute)
  | 'S' => some (d.number 2 false time.second)
  | 's' => some (d.integer (epochSeconds v))
  | 'z' => some []
  | 'Z' => some (d.fill [])
  | _ => none

def takeFlags (d : Directive) : List Char → Directive × List Char
  | '_' :: r => takeFlags { d with pad := some '_' } r
  | '-' :: r => takeFlags { d with pad := some '-' } r
  | '0' :: r => takeFlags { d with pad := some '0' } r
  | '^' :: r => takeFlags { d with raise := true } r
  | '#' :: r => takeFlags { d with change := true } r
  | cs => (d, cs)

/-- The directive behind a percent sign: what it carries, and the rest from its letter on.  Widths
beyond a limit count as the limit. -/
def takeDirective (limit : Nat) (cs : List Char) : Directive × List Char :=
  let (d, r) := takeFlags {} cs
  let ds := r.takeWhile fun c => Nat.ble 0x30 c.toNat && Nat.ble c.toNat 0x39
  let width := ds.foldl (fun n c => min limit (10 * n + (c.toNat - 0x30))) 0
  match r.drop ds.length with
  | 'E' :: r => ({ d with width, modifier := some 'E' }, r)
  | 'O' :: r => ({ d with width, modifier := some 'O' }, r)
  | r => ({ d with width }, r)

/-- The text of a pattern whose directives are single letters. -/
def expandPlain (v : DateTime) : List Char → List Char
  | '%' :: letter :: r => (({} : Directive).simple? v letter).getD [] ++ expandPlain v r
  | c :: r => c :: expandPlain v r
  | [] => []

/-- The text of one directive, if it is known. -/
def Directive.text? (d : Directive) (v : DateTime) (letter : Char) : Option (List Char) :=
  if !allows d.modifier letter then none
  else match compound? letter with
    | some pattern =>
      let casing := if d.raise then Casing.upper else .keep
      some (d.fill (casing.apply (expandPlain v pattern.toList)))
    | none => d.simple? v letter

/-- A directive that is not known, as it is written. -/
def Directive.asWritten (d : Directive) (cs : List Char) : List Char :=
  d.fill ((if d.raise then Casing.upper else Casing.keep).apply ('%' :: cs))

/-- The text of a pattern.  The bound is the length of the pattern: every step takes a character. -/
def expand (v : DateTime) (limit : Nat) : Nat → List Char → List Char
  | bound + 1, '%' :: cs =>
    match takeDirective limit cs with
    -- the pattern ends inside of the directive
    | (d, []) => d.asWritten cs
    | (d, letter :: rest) =>
      (d.text? v letter).getD (d.asWritten (cs.take (cs.length - rest.length))) ++
        expand v limit bound rest
  | bound + 1, c :: cs => c :: expand v limit bound cs
  | _, _ => []

/-- A pattern in which the plain directives for fractions and zones are replaced: six digits for
`%f`, the distance for `%z`, the name for `%Z`, and nothing where no distance is known. -/
def resolveZone (v : DateTime) : List Char → List Char
  | '%' :: 'z' :: r => (v.offset.map (offsetClock [])).getD [] ++ resolveZone v r
  | '%' :: 'Z' :: r => (v.offset.map zoneName).getD [] ++ resolveZone v r
  | '%' :: 'f' :: r => padded 6 v.time.micro ++ resolveZone v r
  -- also a percent sign behind another one, which starts no directive
  | '%' :: c :: r => '%' :: c :: resolveZone v r
  | c :: r => c :: resolveZone v r
  | [] => []

/-- The length that the text of a pattern has to stay below, given the pattern's length. -/
def capacity (length : Nat) : Nat := 256 * max 4 (Nat.nextPowerOfTwo length)

/-- A date written by a pattern.  A null character ends the pattern, and a text far longer than its
pattern comes out empty. -/
def byPattern (v : DateTime) (pattern : String) : String :=
  let cs := resolveZone v (pattern.toList.takeWhile (· != '\x00'))
  let limit := capacity cs.length
  let text := expand v limit cs.length cs
  if text.length < limit then String.ofList text else ""

end Harvest.Calendar.Format
