/-!
# Names of months and weekdays

English names and their abbreviations of three letters.
-/

namespace Harvest.Calendar

def monthNames : List String :=
  ["January", "February", "March", "April", "May", "June", "July", "August", "September",
    "October", "November", "December"]

def weekdayNames : List String :=
  ["Monday", "Tuesday", "Wednesday", "Thursday", "Friday", "Saturday", "Sunday"]

def abbreviate (name : String) : String := String.ofList (name.toList.take 3)

def shortMonthNames : List String := monthNames.map abbreviate

def shortWeekdayNames : List String := weekdayNames.map abbreviate

/-- The characters of a text with ASCII letters in lower case. -/
def lowered (cs : List Char) : List Char := cs.map Char.toLower

/-- The place of a name in a list, from 0, where the case of ASCII letters does not matter. -/
def indexOf? (names : List String) (cs : List Char) : Option Nat :=
  names.findIdx? fun name => lowered name.toList == lowered cs

end Harvest.Calendar
