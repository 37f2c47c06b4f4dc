import Harvest.Json.Value
import Harvest.Text.Digit

/-!
# Reading JSON

The JSON grammar, with the names of infinity and of the undefined number among the numbers, and
without a byte order mark.  There may be a limit to the digits of an integer: a longer one is
refused for its length.  Usually the limit is 4300 digits.
-/

namespace Harvest.Json

open Harvest.Text (isAsciiDigit readDecimal)

inductive ReadError
  | malformed
  /-- An integer longer than the limit, with its number of digits. -/
  | longInteger (digits : Nat)
deriving DecidableEq, Repr

/-- The most digits that an integer may usually have. -/
def maxIntegerDigits : Nat := 4300

/-- Whether a number of digits is above a limit; without a limit none is. -/
def exceeds (limit : Option Nat) (digits : Nat) : Bool := limit.any (· < digits)

/-- The characters that may stand between tokens. -/
def isSpace (c : Char) : Bool := c == ' ' || c == '\t' || c == '\n' || c == '\r'

def skipSpace (cs : List Char) : List Char := cs.dropWhile isSpace

def hexValue? (c : Char) : Option Nat :=
  let n := c.toNat
  if 0x30 ≤ n ∧ n ≤ 0x39 then some (n - 0x30)
  else if 0x41 ≤ n ∧ n ≤ 0x46 then some (n - 0x41 + 10)
  else if 0x61 ≤ n ∧ n ≤ 0x66 then some (n - 0x61 + 10)
  else none

def hexUnit? (a b c d : Char) : Option Nat := do
  return (((← hexValue? a) * 16 + (← hexValue? b)) * 16 + (← hexValue? c)) * 16 + (← hexValue? d)

def simpleEscape? : Char → Option Char
  | '"' => some '"'
  | '\\' => some '\\'
  | '/' => some '/'
  | 'b' => some '\x08'
  | 'f' => some '\x0c'
  | 'n' => some '\n'
  | 'r' => some '\r'
  | 't' => some '\t'
  | _ => none

/-- The character of a unit of 16 bits.  A limit of this reader: a text consists of characters, and
half of a surrogate pair is none, so an escape of a half that stands alone gives the replacement
character.  A reader whose texts are units of 16 bits keeps the half, and may go on to refuse what
is accepted here; of a text without such escapes both read the same. -/
def unitChar (n : Nat) : Char :=
  if 0xD800 ≤ n ∧ n < 0xE000 then '\uFFFD' else Char.ofNat n

/-- The characters of a string after its opening quote, and the rest after the closing one. -/
def readString? : List Char → Option (List Char × List Char)
  | [] => none
  | '"' :: r => some ([], r)
  | '\\' :: 'u' :: a :: b :: c :: d :: '\\' :: 'u' :: e :: f :: g :: h :: r =>
    match hexUnit? a b c d with
    | none => none
    | some high =>
      match hexUnit? e f g h with
      | some low =>
        if 0xD800 ≤ high ∧ high < 0xDC00 ∧ 0xDC00 ≤ low ∧ low < 0xE000 then
          (readString? r).map fun (s, rest) =>
            (Char.ofNat (0x10000 + (high - 0xD800) * 0x400 + (low - 0xDC00)) :: s, rest)
        else
          (readString? ('\\' :: 'u' :: e :: f :: g :: h :: r)).map fun (s, rest) =>
            (unitChar high :: s, rest)
      | none => none
  | '\\' :: 'u' :: a :: b :: c :: d :: r =>
    match hexUnit? a b c d with
    | some n => (readString? r).map fun (s, rest) => (unitChar n :: s, rest)
    | none => none
  | '\\' :: c :: r =>
    match simpleEscape? c with
    | some d => (readString? r).map fun (s, rest) => (d :: s, rest)
    | none => none
  | c :: r =>
    if c == '\\' || c.toNat < 0x20 then none
    else (readString? r).map fun (s, rest) => (c :: s, rest)

/-- The power of ten of a number, if one follows. -/
def readExponent (cs : List Char) : Option Int × List Char :=
  match cs with
  | c :: r =>
    if c == 'e' || c == 'E' then
      let (negative, r) : Bool × List Char := match r with
        | '-' :: r => (true, r)
        | '+' :: r => (false, r)
        | r => (false, r)
      match r.takeWhile isAsciiDigit with
      | [] => (none, cs)
      | ds =>
        let n : Int := readDecimal ds
        (some (if negative then -n else n), r.dropWhile isAsciiDigit)
    else (none, cs)
  | [] => (none, [])

/-- The digits behind the point of a number, if they follow. -/
def readFraction (cs : List Char) : Option (List Char) × List Char :=
  match cs with
  | '.' :: r =>
    match r.takeWhile isAsciiDigit with
    | [] => (none, cs)
    | ds => (some ds, r.dropWhile isAsciiDigit)
  | _ => (none, cs)

/-- The digits in front of the point: a zero alone, or digits that start with another one. -/
def readWhole? : List Char → Option (List Char × List Char)
  | '0' :: r => some (['0'], r)
  | cs => match cs.takeWhile isAsciiDigit with
    | [] => none
    | ds => some (ds, cs.dropWhile isAsciiDigit)

def readNumber (limit : Option Nat) (negative : Bool) (cs : List Char) :
    Except ReadError (Json × List Char) :=
  match readWhole? cs with
  | none => .error .malformed
  | some (whole, rest) =>
    let (fraction, rest) := readFraction rest
    let (exponent, rest) := readExponent rest
    match fraction, exponent with
    | none, none =>
      if exceeds limit whole.length then .error (.longInteger whole.length)
      else
        let n : Int := readDecimal whole
        .ok (.int (if negative then -n else n), rest)
    | fraction, exponent =>
      let ds := fraction.getD []
      .ok (.float (Binary64.ofDecimal negative (readDecimal (whole ++ ds))
        (exponent.getD 0 - ds.length)), rest)

def dropWord? : List Char → List Char → Option (List Char)
  | [], cs => some cs
  | w :: ws, c :: cs => if w == c then dropWord? ws cs else none
  | _ :: _, [] => none

def constants : List (String × Json) :=
  [("null", .null), ("true", .bool true), ("false", .bool false),
    ("NaN", .float Binary64.undefined), ("Infinity", .float (Binary64.infinity false)),
    ("-Infinity", .float (Binary64.infinity true))]

def readScalar (limit : Option Nat) (cs : List Char) : Except ReadError (Json × List Char) :=
  match constants.findSome? fun (w, v) => (dropWord? w.toList cs).map (v, ·) with
  | some found => .ok found
  | none => match cs with
    | '-' :: r => readNumber limit true r
    | _ => readNumber limit false cs

mutual

/-- A value at the start of a text, with the rest.  Every call takes one unit of the bound. -/
def readValue (limit : Option Nat) : Nat → List Char → Except ReadError (Json × List Char)
  | 0, _ => .error .malformed
  | bound + 1, cs =>
    match cs with
    | '"' :: r => match readString? r with
      | some (s, rest) => .ok (.str (String.ofList s), rest)
      | none => .error .malformed
    | '[' :: r => match skipSpace r with
      | ']' :: rest => .ok (.list [], rest)
      | r => do
        let (items, rest) ← readItems limit bound r
        return (.list items, rest)
    | '\x7b' :: r => match skipSpace r with
      | '\x7d' :: rest => .ok (.map [], rest)
      | r => do
        let (members, rest) ← readMembers limit bound r
        return (.map (Members.ofPairs members), rest)
    | _ => readScalar limit cs

/-- The items of a list up to its closing bracket. -/
def readItems (limit : Option Nat) : Nat → List Char → Except ReadError (List Json × List Char)
  | 0, _ => .error .malformed
  | bound + 1, cs => do
    let (v, rest) ← readValue limit bound cs
    match skipSpace rest with
    | ']' :: rest => return ([v], rest)
    | ',' :: rest =>
      let (vs, rest) ← readItems limit bound (skipSpace rest)
      return (v :: vs, rest)
    | _ => throw .malformed

/-- The members of a mapping up to its closing brace. -/
def readMembers (limit : Option Nat) :
    Nat → List Char → Except ReadError (List (String × Json) × List Char)
  | 0, _ => .error .malformed
  | bound + 1, cs =>
    match cs with
    | '"' :: r => match readString? r with
      | none => .error .malformed
      | some (key, rest) => match skipSpace rest with
        | ':' :: rest => do
          let (v, rest) ← readValue limit bound (skipSpace rest)
          match skipSpace rest with
          | '\x7d' :: rest => return ([(String.ofList key, v)], rest)
          | ',' :: rest =>
            let (ms, rest) ← readMembers limit bound (skipSpace rest)
            return ((String.ofList key, v) :: ms, rest)
          | _ => throw .malformed
        | _ => .error .malformed
    | _ => .error .malformed

end

/-- The value that a whole text writes, with a limit to the digits of integers. -/
def readWithin (limit : Option Nat) (s : String) : Except ReadError Json :=
  let cs := skipSpace s.toList
  match readValue limit (2 * cs.length + 1) cs with
  | .error e => .error e
  | .ok (v, rest) => if (skipSpace rest).isEmpty then .ok v else .error .malformed

/-- The value that a whole text writes. -/
def read (s : String) : Except ReadError Json := readWithin (some maxIntegerDigits) s

end Harvest.Json
