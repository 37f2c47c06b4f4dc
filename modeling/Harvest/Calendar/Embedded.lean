import Harvest.Pattern.Match

/-!
# Dates inside longer texts

What a date looks like in running text: in the international format, or spelled out with its day in
front of or behind the name of the month.
-/

namespace Harvest.Calendar.Embedded

open Harvest.Pattern

/-- Where the case of letters does not matter. -/
def anyCase : Mode := { ignoreCase := true }

def digit : Pattern := .one ⟨[.category .digit false], false⟩ {}

def blank : Pattern := .one ⟨[.category .space false], false⟩ {}

def char (c : Char) : Pattern := .one ⟨[.code c.toNat], false⟩ {}

def digits (n : Nat) : Pattern := .repeated digit ⟨n, some n⟩ .greedy

def optional (p : Pattern) : Pattern := .repeated p ⟨0, some 1⟩ .greedy

def atLeastOne (p : Pattern) : Pattern := .repeated p ⟨1, none⟩ .greedy

def edge : Pattern := .place (.wordEdge false)

def word (s : String) : Pattern := literal anyCase s.toList

def zone : Pattern :=
  .either (char 'Z')
    (concat [.one ⟨[.code '+'.toNat, .code '-'.toNat], false⟩ {}, digits 2, optional (char ':'),
      digits 2])

/-- Hours and minutes, perhaps seconds with a fraction and a distance from universal time. -/
def clock : Pattern :=
  concat [.one ⟨[.code 'T'.toNat, .code ' '.toNat], false⟩ {}, digits 2, char ':', digits 2,
    optional (concat [char ':', digits 2, optional (concat [char '.', atLeastOne digit])]),
    optional zone]

/-- Year, month and day with hyphens, perhaps with a time. -/
def iso : Pattern :=
  concat [digits 4, char '-', digits 2, char '-', digits 2, optional clock]

/-- The starts of the names of months. -/
def monthStarts : List String :=
  ["jan", "feb", "mar", "apr", "may", "jun", "jul", "aug", "sep", "sept", "oct", "nov", "dec"]

/-- A word that starts like the name of a month, perhaps with a dot. -/
def month : Pattern :=
  concat [choice (monthStarts.map word),
    .repeated (.one ⟨[.range 'a'.toNat 'z'.toNat], false⟩ anyCase) ⟨0, none⟩ .greedy,
    optional (char '.')]

/-- A day of one or two digits, perhaps with the suffix of an ordinal number. -/
def day : Pattern :=
  .seq (.repeated digit ⟨1, some 2⟩ .greedy) (optional (choice (["st", "nd", "rd", "th"].map word)))

def dayFirst : Pattern := concat [edge, day, atLeastOne blank, month, atLeastOne blank, digits 4]

def monthFirst : Pattern :=
  concat [edge, month, atLeastOne blank, day, optional (char ','), atLeastOne blank, digits 4]

/-- The patterns in the order in which they are tried. -/
def patterns : List Pattern := [iso, dayFirst, monthFirst]

/-- The first match of each pattern that has one. -/
def candidates (cs : List Char) : List (List Char) := patterns.filterMap fun p => search? p cs

end Harvest.Calendar.Embedded
