import Harvest.Decimal.Binary64

/-!
# Arithmetic of binary floating-point numbers

Sum, product, quotient, remainder and comparison.  A finite result is the exact one rounded to the
nearest number; infinities and the undefined number follow the usual rules.
-/

namespace Harvest.Binary64

/-- A number as it enters a calculation: undefined, infinite with a sign, or `n * 2 ^ q`. -/
inductive Operand
  | undefined
  | infinite (negative : Bool)
  | finite (negative : Bool) (m : Nat) (q : Int)
deriving DecidableEq, Repr

def operand (x : Binary64) : Operand :=
  match x.magnitude with
  | .undefined => .undefined
  | .infinite => .infinite x.isNegative
  | .finite m q => .finite x.isNegative m q

def isUndefined (x : Binary64) : Bool := x.magnitude == .undefined

def ofDyadic (negative : Bool) (m : Nat) (q : Int) : Binary64 :=
  if 0 ≤ q then ofRatio negative (m * pow2 q.toNat) 1 else ofRatio negative m (pow2 (-q).toNat)

def ofNat (n : Nat) : Binary64 := ofRatio false n 1

def neg (x : Binary64) : Binary64 := ⟨UInt64.ofNat ((x.bits.toNat + pow2 63) % pow2 64)⟩

/-- An integer with a given sign and size. -/
def signedInt (negative : Bool) (m : Nat) : Int := if negative then -m else m

/-- The numerators of two numbers over the same power of two. -/
def align (m : Nat) (q : Int) (n : Nat) (r : Int) : Nat × Nat × Int :=
  if q ≤ r then (m, n * pow2 (r - q).toNat, q) else (m * pow2 (q - r).toNat, n, r)

def add (x y : Binary64) : Binary64 :=
  match x.operand, y.operand with
  | .undefined, _ => undefined
  | _, .undefined => undefined
  | .infinite s, .infinite t => if s == t then infinity s else undefined
  | .infinite s, _ => infinity s
  | _, .infinite t => infinity t
  | .finite s m q, .finite t n r =>
    let (m, n, e) := align m q n r
    let sum := signedInt s m + signedInt t n
    if sum = 0 then zero (s && t) else ofDyadic (sum < 0) sum.natAbs e

def sub (x y : Binary64) : Binary64 := x.add y.neg

def mul (x y : Binary64) : Binary64 :=
  match x.operand, y.operand with
  | .undefined, _ => undefined
  | _, .undefined => undefined
  | .infinite s, .infinite t => infinity (s != t)
  | .infinite s, .finite t n _ => if n = 0 then undefined else infinity (s != t)
  | .finite s m _, .infinite t => if m = 0 then undefined else infinity (s != t)
  | .finite s m q, .finite t n r => ofDyadic (s != t) (m * n) (q + r)

/-- The quotient; a number divided by zero is infinite. -/
def div (x y : Binary64) : Binary64 :=
  match x.operand, y.operand with
  | .undefined, _ => undefined
  | _, .undefined => undefined
  | .infinite _, .infinite _ => undefined
  | .infinite s, .finite t _ _ => infinity (s != t)
  | .finite s _ _, .infinite t => zero (s != t)
  | .finite s m q, .finite t n r =>
    if n = 0 then if m = 0 then undefined else infinity (s != t)
    else if q ≤ r then ofRatio (s != t) m (n * pow2 (r - q).toNat)
    else ofRatio (s != t) (m * pow2 (q - r).toNat) n

/-- The remainder of a division that is cut off to an integer; it has the sign of the dividend. -/
def rem (x y : Binary64) : Binary64 :=
  match x.operand, y.operand with
  | .undefined, _ => undefined
  | _, .undefined => undefined
  | .infinite _, _ => undefined
  | .finite .., .infinite _ => x
  | .finite s m q, .finite _ n r =>
    if n = 0 then undefined
    else
      let (m, n, e) := align m q n r
      ofDyadic s (m % n) e

def floor (x : Binary64) : Binary64 :=
  match x.operand with
  | .finite s m q =>
    if 0 ≤ q || m = 0 then x
    else
      let d := pow2 (-q).toNat
      if s then ofRatio true ((m + d - 1) / d) 1 else ofRatio false (m / d) 1
  | _ => x

def ceiling (x : Binary64) : Binary64 := x.neg.floor.neg

/-- Whether two numbers are equal; both zeros are. -/
def eq (x y : Binary64) : Bool :=
  match x.operand, y.operand with
  | .infinite s, .infinite t => s == t
  | .finite s m q, .finite t n r =>
    let (m, n, _) := align m q n r
    signedInt s m == signedInt t n
  | _, _ => false

def lt (x y : Binary64) : Bool :=
  match x.operand, y.operand with
  | .infinite s, .infinite t => s && !t
  | .infinite s, .finite .. => s
  | .finite .., .infinite t => !t
  | .finite s m q, .finite t n r =>
    let (m, n, _) := align m q n r
    decide (signedInt s m < signedInt t n)
  | _, _ => false

def le (x y : Binary64) : Bool := x.lt y || x.eq y

/-- The integer that is left when a finite number is cut off. -/
def truncate? (x : Binary64) : Option Int :=
  match x.operand with
  | .finite s m q =>
    some (signedInt s (if 0 ≤ q then m * pow2 q.toNat else m / pow2 (-q).toNat))
  | _ => none

end Harvest.Binary64
