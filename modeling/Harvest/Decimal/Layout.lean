import Harvest.Decimal.Shortest

/-!
# Decimal text

Digits laid out with a point, or with a power of ten.  `plain` never uses a power; `general` does
so for very large and very small numbers and always shows that its number is not an integer.
-/

namespace Harvest.Decimal

def digitChars (n : Nat) : List Char := Nat.toDigits 10 n

/-- The digits of a decimal, and the place of the point counted from their start. -/
def Scientific.spread (s : Scientific) : List Char × Int :=
  let ds := digitChars s.digits
  (ds, ds.length + s.exponent)

/-- Digits with a point behind the first `point` of them, padded with zeros; no point after the
last digit. -/
def positional (ds : List Char) (point : Int) : List Char :=
  if point ≤ 0 then '0' :: '.' :: List.replicate (-point).toNat '0' ++ ds
  else if (ds.length : Int) ≤ point then ds ++ List.replicate (point.toNat - ds.length) '0'
  else ds.take point.toNat ++ '.' :: ds.drop point.toNat

/-- Digits with a point behind the first one and the power of ten that this asks for, written with
a sign and at least two digits. -/
def exponential (ds : List Char) (point : Int) : List Char :=
  let power := point - 1
  let ps := digitChars power.natAbs
  let fraction := match ds.drop 1 with
    | [] => []
    | rest => '.' :: rest
  ds.take 1 ++ fraction ++ 'e' :: (if power < 0 then '-' else '+') ::
    (List.replicate (2 - ps.length) '0' ++ ps)

/-- A sign in front of a text. -/
def signed (negative : Bool) (cs : List Char) : List Char := if negative then '-' :: cs else cs

/-- The shortest text that reads back, never without a point or a power: positional from `1e-4` up
to below `1e16`. -/
def general (x : Binary64) : String :=
  match x.magnitude with
  | .undefined => "nan"
  | .infinite => if x.isNegative then "-inf" else "inf"
  | .finite 0 _ => String.ofList (signed x.isNegative ['0', '.', '0'])
  | .finite m q =>
    let (ds, point) := (shortest m q).spread
    let body :=
      if -4 < point ∧ point ≤ 16 then
        positional ds point ++ if (ds.length : Int) ≤ point then ['.', '0'] else []
      else exponential ds point
    String.ofList (signed x.isNegative body)

/-- The plain text of a number: an integer in full, any other number by its shortest digits; no
power of ten, and no sign on zero. -/
def plain (x : Binary64) : String :=
  match x.magnitude with
  | .undefined => "NaN"
  | .infinite => if x.isNegative then "-Infinity" else "Infinity"
  | .finite 0 _ => "0"
  | .finite m q =>
    let body := match Binary64.wholeValue? m q with
      | some n => digitChars n
      | none => let (ds, point) := (shortest m q).spread; positional ds point
    String.ofList (signed x.isNegative body)

end Harvest.Decimal
