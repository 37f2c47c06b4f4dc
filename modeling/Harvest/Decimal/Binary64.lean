import Harvest.Power

/-!
# Binary floating-point numbers

A number of the 64-bit binary format, held by its bits: a sign, eleven bits of exponent and 52 of
fraction.  A finite one has the value `m * 2 ^ q` for its significand `m` and its exponent `q`; a
quotient of natural numbers is rounded to the nearest one, a tie to the even significand.
-/

namespace Harvest

structure Binary64 where
  bits : UInt64
deriving DecidableEq, Inhabited

namespace Binary64

/-- The size of a number without its sign. -/
inductive Magnitude
  /-- The value `significand * 2 ^ exponent`. -/
  | finite (significand : Nat) (exponent : Int)
  | infinite
  | undefined
deriving DecidableEq, Repr

/-- Whether the sign bit is set, also for zero. -/
def isNegative (x : Binary64) : Bool := pow2 63 ≤ x.bits.toNat

def magnitude (x : Binary64) : Magnitude :=
  let exponent := x.bits.toNat / pow2 52 % pow2 11
  let fraction := x.bits.toNat % pow2 52
  if exponent = 0 then .finite fraction (-1074)
  else if exponent = 2047 then if fraction = 0 then .infinite else .undefined
  else .finite (pow2 52 + fraction) (Int.subNatNat exponent 1075)

/-- The bits of a sign and a magnitude given as a number below `2 ^ 63`. -/
def ofParts (negative : Bool) (rest : Nat) : Binary64 :=
  ⟨UInt64.ofNat (if negative then pow2 63 + rest else rest)⟩

def infinity (negative : Bool) : Binary64 := ofParts negative (2047 * pow2 52)

def undefined : Binary64 := ofParts false (2047 * pow2 52 + pow2 51)

def zero (negative : Bool) : Binary64 := ofParts negative 0

/-- A quotient rounded to the nearest natural number, a half to the even neighbour. -/
def roundHalfEven (num den : Nat) : Nat :=
  let quotient := num / den
  let twice := 2 * (num % den)
  if twice < den then quotient
  else if twice = den then quotient + quotient % 2
  else quotient + 1

/-- The numerator and denominator of `num / den / 2 ^ q`. -/
def scaleDown (num den : Nat) (q : Int) : Nat × Nat :=
  if 0 ≤ q then (num, den * pow2 q.toNat) else (num * pow2 (-q).toNat, den)

/-- The exponent at which a positive quotient has a significand of 53 bits, or the least one. -/
def exponentOf (num den : Nat) : Int :=
  let guess : Int := (num.log2 : Int) - den.log2 - 53
  let (n, d) := scaleDown num den guess
  max (if n / d < pow2 53 then guess else guess + 1) (-1074)

/-- The number nearest to a quotient with a sign. -/
def ofRatio (negative : Bool) (num den : Nat) : Binary64 :=
  if num = 0 || den = 0 then zero negative
  else
    let q := exponentOf num den
    let (n, d) := scaleDown num den q
    let rest := roundHalfEven n d + (q + 1074).toNat * pow2 52
    if 2047 * pow2 52 ≤ rest then infinity negative else ofParts negative rest

/-- The number nearest to `digits * 10 ^ exponent` with a sign. -/
def ofDecimal (negative : Bool) (digits : Nat) (exponent : Int) : Binary64 :=
  let reach : Int := digits.log2 / 3 + 1 + exponent
  if digits = 0 || reach < -330 then zero negative
  else if 400 < exponent then infinity negative
  else if 0 ≤ exponent then ofRatio negative (digits * pow10 exponent.toNat) 1
  else ofRatio negative digits (pow10 (-exponent).toNat)

/-- The integer that `m * 2 ^ q` is, if it is one. -/
def wholeValue? (m : Nat) (q : Int) : Option Nat :=
  if 0 ≤ q then some (m * pow2 q.toNat)
  else if m % pow2 (-q).toNat = 0 then some (m / pow2 (-q).toNat) else none

end Binary64

end Harvest
