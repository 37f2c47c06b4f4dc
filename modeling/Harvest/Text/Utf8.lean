/-!
# Bytes as text

Reading bytes as text in the encoding of one to four bytes for a character, where a sequence that
breaks off or is out of place stands for the replacement character, and in encodings of one byte.
-/

namespace Harvest.Text

def isTail (b : Nat) : Bool := Nat.ble 0x80 b && Nat.ble b 0xBF

def tailBits (b : Nat) : Nat := b - 0x80

/-- Whether a byte may follow the first byte of a character of three or four bytes. -/
def isSecond (first b : Nat) : Bool :=
  isTail b &&
    if first = 0xE0 then Nat.ble 0xA0 b
    else if first = 0xED then Nat.ble b 0x9F
    else if first = 0xF0 then Nat.ble 0x90 b
    else if first = 0xF4 then Nat.ble b 0x8F
    else true

/-- The first character of a text of bytes and the number of its bytes; nothing for bytes that are
no character. -/
def firstChar (b : Nat) (rest : List Nat) : Option Char × Nat :=
  if b < 0x80 then (some (Char.ofNat b), 1)
  else if 0xC2 ≤ b ∧ b ≤ 0xDF then match rest with
    | c :: _ =>
      if isTail c then (some (Char.ofNat ((b - 0xC0) * 64 + tailBits c)), 2) else (none, 1)
    | [] => (none, 1)
  else if 0xE0 ≤ b ∧ b ≤ 0xEF then match rest with
    | c :: d :: _ =>
      if !isSecond b c then (none, 1)
      else if !isTail d then (none, 2)
      else (some (Char.ofNat (((b - 0xE0) * 64 + tailBits c) * 64 + tailBits d)), 3)
    | [c] => (none, if isSecond b c then 2 else 1)
    | [] => (none, 1)
  else if 0xF0 ≤ b ∧ b ≤ 0xF4 then match rest with
    | c :: d :: e :: _ =>
      if !isSecond b c then (none, 1)
      else if !isTail d then (none, 2)
      else if !isTail e then (none, 3)
      else
        (some (Char.ofNat ((((b - 0xF0) * 64 + tailBits c) * 64 + tailBits d) * 64 + tailBits e)),
          4)
    | [c, d] => (none, if !isSecond b c then 1 else if !isTail d then 2 else 3)
    | [c] => (none, if isSecond b c then 2 else 1)
    | [] => (none, 1)
  else (none, 1)

/-- The characters of bytes, nothing in place of bytes that are no character.  The bound is the
number of bytes. -/
def charsOf : Nat → List Nat → List (Option Char)
  | n + 1, b :: rest =>
    let (c, k) := firstChar b rest
    c :: charsOf n (rest.drop (k - 1))
  | _, _ => []

def byteValues (bytes : ByteArray) : List Nat := bytes.toList.map UInt8.toNat

/-- The text of bytes, with the replacement character for what is none. -/
def readLossy (bytes : ByteArray) : String :=
  let bs := byteValues bytes
  String.ofList ((charsOf bs.length bs).map (·.getD '\uFFFD'))

/-- The text of bytes, if all of them form characters. -/
def readUtf8? (bytes : ByteArray) : Option String :=
  let bs := byteValues bytes
  ((charsOf bs.length bs).mapM id).map String.ofList

/-- The text of bytes of which each is the code point of a character. -/
def readLatin (bytes : ByteArray) : String :=
  String.ofList ((byteValues bytes).map Char.ofNat)

end Harvest.Text
