/-!
# Blanks

The characters that count as white space, cutting them off at the ends of a text and collapsing
runs of them inside it.
-/

namespace Harvest.Text

/-- White space: the characters with the Unicode property of that name and the four information
separators. -/
def isBlank (c : Char) : Bool :=
  let n := c.toNat
  (Nat.ble 0x09 n && Nat.ble n 0x0D) || (Nat.ble 0x1C n && Nat.ble n 0x20) || n == 0x85 ||
    n == 0xA0 || n == 0x1680 || (Nat.ble 0x2000 n && Nat.ble n 0x200A) || n == 0x2028 ||
    n == 0x2029 || n == 0x202F || n == 0x205F || n == 0x3000

/-- A text without the characters of a class at its start and at its end. -/
def stripBy (p : Char → Bool) (cs : List Char) : List Char :=
  ((cs.dropWhile p).reverse.dropWhile p).reverse

/-- A text without the blanks at its start and at its end. -/
def trimChars (cs : List Char) : List Char := stripBy isBlank cs

/-- Writes one space for every run of at least two blanks; a blank that stands alone stays. -/
def collapseChars : List Char → List Char
  | [] => []
  | [c] => [c]
  | c :: d :: r =>
    if isBlank c && isBlank d then ' ' :: collapseChars (r.dropWhile isBlank)
    else c :: collapseChars (d :: r)
termination_by cs => cs.length
decreasing_by
  · have := (List.dropWhile_sublist isBlank (l := r)).length_le
    simp only [List.length_cons]; omega
  · simp

def trim (s : String) : String := String.ofList (trimChars s.toList)

/-- A text in which every run of at least two blanks has become one space. -/
def collapse (s : String) : String := String.ofList (collapseChars s.toList)

/-- The maximal runs of characters outside a class, in order. -/
def fieldsBy (p : Char → Bool) : List Char → List (List Char)
  | [] => []
  | c :: r =>
    if p c then fieldsBy p r
    else match r, fieldsBy p r with
      | d :: _, f :: fs => if p d then [c] :: f :: fs else (c :: f) :: fs
      | _, fs => [c] :: fs

/-- The words of a text: its maximal runs of characters that are not blank. -/
def words (s : String) : List String := (fieldsBy isBlank s.toList).map String.ofList

end Harvest.Text
