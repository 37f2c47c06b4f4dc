import Harvest.Decimal.Layout
import Harvest.XPath.Reader

/-!
# Numbers in selectors

The number that a text writes and the text that writes a number, as selectors convert them.
-/

namespace Harvest.XPath

open Harvest.Markup (skipSpace isSpace)

/-- The number that a text writes.  Blanks may stand around it; any other text is undefined. -/
def numberOfText (s : String) : Binary64 :=
  let cs := skipSpace s.toList
  let (negative, cs) : Bool × List Char := match cs with
    | '-' :: r => (true, r)
    | r => (false, r)
  let starts := match cs with
    | c :: _ => Text.isAsciiDigit c || c == '.'
    | [] => negative
  if !starts then Binary64.undefined
  else if cs.isEmpty then Binary64.zero true
  else match takeNumber? cs with
    | some (x, r) =>
      if (skipSpace r).isEmpty then if negative then x.neg else x else Binary64.undefined
    | none => Binary64.undefined

/-- The number nearest to a hundred-thousandth: below it a power of ten is written. -/
def leastPlain : Binary64 := Binary64.ofDecimal false 1 (-5)

/-- The number above which a power of ten is written. -/
def mostPlain : Binary64 := Binary64.ofNat 1000000000

/-- The size up to which integers are written as such. -/
def mostWhole (negative : Bool) : Nat := if negative then 2147483647 else 2147483646

/-- A positive quotient in units of `10 ^ -places`, rounded to the nearest, a half to the even
neighbour. -/
def unitsOf (num den : Nat) (places : Int) : Nat :=
  if 0 ≤ places then Binary64.roundHalfEven (num * pow10 places.toNat) den
  else Binary64.roundHalfEven num (den * pow10 (-places).toNat)

/-- The greatest power of ten that is not above a positive quotient, looked for downwards. -/
def powerBelow (num den : Nat) : Nat → Int → Int
  | 0, k => k
  | n + 1, k =>
    let fits := if 0 ≤ k then den * pow10 k.toNat ≤ num else den ≤ num * pow10 (-k).toNat
    if fits then k else powerBelow num den n (k - 1)

/-- A text without the zeros at its end, and without a point that they leave at the end. -/
def dropZeros (cs : List Char) : List Char :=
  let kept := (cs.reverse.dropWhile (· == '0')).reverse
  match kept.getLast? with
  | some '.' => kept.dropLast
  | _ => kept

/-- A positive quotient with fifteen digits and a power of ten. -/
def scientificText (num den : Nat) (power : Int) : List Char :=
  let units := unitsOf num den (14 - power)
  let (units, power) := if pow10 15 ≤ units then (units / 10, power + 1) else (units, power)
  let ds := Decimal.digitChars units
  let exponent := Decimal.digitChars power.natAbs
  dropZeros (ds.take 1 ++ '.' :: ds.drop 1) ++ 'e' :: (if power < 0 then '-' else '+') ::
    (List.replicate (2 - exponent.length) '0' ++ exponent)

/-- The places behind the point with which a number of moderate size shows about fifteen digits: its
power of ten, cut off towards zero, says how many stand in front of it. -/
def placesOf (size : Binary64) : Nat :=
  let tens := ((List.range 9).filter fun k : Nat => (powerOfTen (k + 1 : Nat)).le size).length
  let tenths := ((List.range 5).filter fun k : Nat => size.le (powerOfTen (-(k + 1 : Nat)))).length
  if 0 < tens then 14 - tens else 15 + tenths

/-- A positive quotient with a point and some places behind it. -/
def pointText (num den : Nat) (places : Nat) : List Char :=
  let ds := Decimal.digitChars (unitsOf num den places)
  let ds := List.replicate (places + 1 - ds.length) '0' ++ ds
  dropZeros (ds.take (ds.length - places) ++ '.' :: ds.drop (ds.length - places))

/-- The text of a number: integers of moderate size as such, others with about fifteen digits, very
large and very small ones with a power of ten. -/
def textOfNumber (x : Binary64) : String :=
  match x.magnitude with
  | .undefined => "NaN"
  | .infinite => if x.isNegative then "-Infinity" else "Infinity"
  | .finite 0 _ => "0"
  | .finite m q =>
    let num := if 0 ≤ q then m * pow2 q.toNat else m
    let den := if 0 ≤ q then 1 else pow2 (-q).toNat
    let size := if x.isNegative then x.neg else x
    let power := powerBelow num den 700 309
    let body :=
      if num % den = 0 && num / den ≤ mostWhole x.isNegative then Decimal.digitChars (num / den)
      else if mostPlain.lt size || size.lt leastPlain then scientificText num den power
      else pointText num den (placesOf size)
    String.ofList (Decimal.signed x.isNegative body)

end Harvest.XPath
