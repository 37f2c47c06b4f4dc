import Harvest.Calendar.Embedded
import Harvest.Calendar.Format
import Harvest.Calendar.Iso
import Harvest.Calendar.Layout
import Harvest.Calendar.Mail

/-!
# Recognizing dates

The date that a free text means: the text as a whole in the international format, as a mail date or
in one of the layouts, else the first date of either kind inside it.
-/

namespace Harvest.Calendar

/-- A number in a text is too large to compute a date with. -/
structure Overflow where
deriving DecidableEq, Repr

/-- The date of a text in the international format, where the letter z at the end stands for
universal time. -/
def parseIso? (cs : List Char) : Option DateTime :=
  match cs.getLast? with
  | some 'Z' => Iso.parse? (cs.dropLast ++ "+00:00".toList)
  | some 'z' => Iso.parse? (cs.dropLast ++ "+00:00".toList)
  | _ => Iso.parse? cs

/-- The date of a candidate that was found inside a text. -/
def parseEmbedded? (cs : List Char) : Option DateTime := (parseIso? cs).or (Layout.parse? cs)

/-- The date of a text without blanks at its ends. -/
def recognizeTrimmed (cs : List Char) : Except Overflow (Option DateTime) :=
  if cs.isEmpty then .ok none
  else match parseIso? cs with
    | some v => .ok (some v)
    | none => match Mail.parse cs with
      | .overflow => .error {}
      | .date v => .ok (some v)
      | .notADate =>
        .ok <| (Layout.parse? cs).or ((Embedded.candidates cs).findSome? parseEmbedded?)

def recognize (s : String) : Except Overflow (Option DateTime) :=
  recognizeTrimmed (Text.trimChars s.toList)

/-- The ways of writing dates that have names, with their patterns. -/
def presets : List (String × String) :=
  [("date", "%Y-%m-%d"), ("year", "%Y"), ("year-only", "%Y"), ("month", "%Y-%m")]

def isoPreset : String := "datetime"

/-- Whether a text names a way of writing dates: a preset, or a pattern with a directive. -/
def isFormat (format : String) : Bool :=
  format == isoPreset || (presets.lookup format).isSome || format.toList.contains '%'

/-- A date as text; without a format as year, month and day. -/
def DateTime.write (v : DateTime) (format : Option String) : String :=
  let format := format.getD "date"
  if format == isoPreset then Format.iso v
  else Format.byPattern v ((presets.lookup format).getD format)

end Harvest.Calendar
