import Harvest.Decimal.Binary64
import Harvest.Text.Blank
import Harvest.Text.Digit

/-!
# Reading decimals

The numbers that a text may write: digits with an optional point and power of ten, the names of
infinity and of the undefined number.  Single low lines may separate digits, the digits of every
script count, and blanks around the number are ignored.
-/

namespace Harvest.Decimal

open Harvest.Text

/-- Digits in which single low lines may stand between two digits: the digits read and the rest. -/
def takeGrouped : List Char → List Char × List Char
  | c :: '_' :: d :: r =>
    if isDecimal c && isDecimal d then
      let (ds, rest) := takeGrouped (d :: r)
      (c :: ds, rest)
    else if isDecimal c then ([c], '_' :: d :: r)
    else ([], c :: '_' :: d :: r)
  | c :: r =>
    if isDecimal c then
      let (ds, rest) := takeGrouped r
      (c :: ds, rest)
    else ([], c :: r)
  | [] => ([], [])

/-- A sign in front, `true` for minus. -/
def takeSign : List Char → Bool × List Char
  | '-' :: r => (true, r)
  | '+' :: r => (false, r)
  | cs => (false, cs)

/-- A power of ten to the end of the text; an empty rest is the power zero. -/
def readPower? : List Char → Option Int
  | [] => some 0
  | c :: r =>
    if c == 'e' || c == 'E' then
      let (negative, r) := takeSign r
      match takeGrouped r with
      | (ds@(_ :: _), []) =>
        let n : Int := readDecimal ds
        some (if negative then -n else n)
      | _ => none
    else none

/-- The number that an unsigned text of digits, point and power writes. -/
def readUnsigned? (negative : Bool) (cs : List Char) : Option Binary64 :=
  let (whole, rest) := takeGrouped cs
  let (fraction, rest) := match rest with
    | '.' :: r => takeGrouped r
    | r => ([], r)
  if whole.isEmpty && fraction.isEmpty then none
  else (readPower? rest).map fun power =>
    Binary64.ofDecimal negative (readDecimal (whole ++ fraction)) (power - fraction.length)

def readFloat? (s : String) : Option Binary64 :=
  let (negative, cs) := takeSign (trimChars s.toList)
  let word := String.ofList (cs.map Char.toLower)
  if word == "inf" || word == "infinity" then some (Binary64.infinity negative)
  else if word == "nan" then some Binary64.undefined
  else readUnsigned? negative cs

/-- The integer that a text writes: an optional sign and digits, blanks around them ignored. -/
def readInt? (s : String) : Option Int :=
  let (negative, cs) := takeSign (trimChars s.toList)
  match takeGrouped cs with
  | (ds@(_ :: _), []) => let n : Int := readDecimal ds; some (if negative then -n else n)
  | _ => none

end Harvest.Decimal
