import Harvest.Decimal.Binary64

/-!
# Shortest decimals

The fewest decimal digits that read back as a given binary number: among the decimals in the
interval that rounds to it, one on the coarsest grid of powers of ten, and of those the nearest.
-/

namespace Harvest.Decimal

/-- The value `digits * 10 ^ exponent`. -/
structure Scientific where
  digits : Nat
  exponent : Int
deriving DecidableEq, Repr

/-- The reals that round to a binary number, over a common denominator: the lower and upper end,
the value itself, and whether the ends belong to it. -/
structure Interval where
  low : Nat
  value : Nat
  high : Nat
  den : Nat
  closed : Bool

/-- The interval of the positive number `m * 2 ^ q`.  Below a power of two the neighbour is half as
far away as above it, except at the least exponent. -/
def Interval.around (m : Nat) (q : Int) : Interval :=
  let narrow := m = pow2 52 ∧ -1074 < q
  let up := if 2 ≤ q then pow2 (q - 2).toNat else 1
  let den := if 2 ≤ q then 1 else pow2 (2 - q).toNat
  { low := (4 * m - if narrow then 1 else 2) * up
    value := 4 * m * up
    high := (4 * m + 2) * up
    den := den
    closed := m % 2 = 0 }

/-- Whether `digits * 10 ^ exponent` lies in the interval. -/
def Interval.holds (i : Interval) (s : Scientific) : Bool :=
  let num := if 0 ≤ s.exponent then s.digits * pow10 s.exponent.toNat * i.den else s.digits * i.den
  let unit := if 0 ≤ s.exponent then 1 else pow10 (-s.exponent).toNat
  if i.closed then Nat.ble (i.low * unit) num && Nat.ble num (i.high * unit)
  else Nat.blt (i.low * unit) num && Nat.blt num (i.high * unit)

def digitCount (n : Nat) : Nat := (Nat.toDigits 10 n).length

/-- The position of the leading digit of a positive quotient: the exponent `e` with
`10 ^ e ≤ num / den < 10 ^ (e + 1)`. -/
def leadingExponent (num den : Nat) : Int :=
  if den ≤ num then (digitCount (num / den) : Int) - 1
  else
    let k := digitCount (den / num)
    if den ≤ num * pow10 (k - 1) then 1 - (k : Int) else -(k : Int)

/-- The candidate on the grid of `10 ^ e`: of the two neighbours of the value that lie in the
interval the nearer one, of two equally near ones the even one. -/
def Interval.onGrid? (i : Interval) (e : Int) : Option Scientific :=
  let num := if 0 ≤ e then i.value else i.value * pow10 (-e).toNat
  let unit := if 0 ≤ e then i.den * pow10 e.toNat else i.den
  let below : Scientific := ⟨num / unit, e⟩
  let above : Scientific := ⟨num / unit + 1, e⟩
  let twice := 2 * (num % unit)
  let preferBelow := twice < unit || (twice = unit && below.digits % 2 = 0)
  match i.holds below, i.holds above with
  | true, true => some (if preferBelow then below else above)
  | true, false => some below
  | false, true => some above
  | false, false => none

/-- The first candidate on the grids `10 ^ e`, `10 ^ (e - 1)`, …. -/
def Interval.firstOnGrids (i : Interval) : Nat → Int → Scientific
  | 0, e => ⟨i.value / i.den, e⟩
  | n + 1, e => (i.onGrid? e).getD (i.firstOnGrids n (e - 1))

/-- A decimal without zeros at the end of its digits. -/
def Scientific.reduce (s : Scientific) : Scientific :=
  if h : s.digits % 10 = 0 ∧ s.digits ≠ 0 then
    Scientific.reduce ⟨s.digits / 10, s.exponent + 1⟩
  else s
termination_by s.digits
decreasing_by omega

/-- The shortest decimal that reads back as `m * 2 ^ q`. -/
def shortest (m : Nat) (q : Int) : Scientific :=
  if m = 0 then ⟨0, 0⟩
  else
    let i := Interval.around m q
    (i.firstOnGrids 18 (leadingExponent i.value i.den)).reduce

end Harvest.Decimal
