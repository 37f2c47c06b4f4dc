import Harvest.Text.Range

/-!
# Names

The characters of names in markup and in selectors.
-/

namespace Harvest.Markup

def nameStartRanges : List (Nat × Nat) :=
  [(0xC0, 0xD6), (0xD8, 0xF6), (0xF8, 0x2FF), (0x370, 0x37D), (0x37F, 0x1FFF), (0x200C, 0x200D),
    (0x2070, 0x218F), (0x2C00, 0x2FEF), (0x3001, 0xD7FF), (0xF900, 0xFDCF), (0xFDF0, 0xFFFD),
    (0x10000, 0xEFFFF)]

/-- Whether a name may start with a character; colons aside. -/
def isNameStart (c : Char) : Bool :=
  c.isAlpha || c == '_' || Text.covers nameStartRanges c.toNat

/-- Whether a name may go on with a character; colons aside. -/
def isNameChar (c : Char) : Bool :=
  isNameStart c || c.isDigit || c == '-' || c == '.' || c.toNat == 0xB7 ||
    (Nat.ble 0x300 c.toNat && Nat.ble c.toNat 0x36F) || c.toNat == 0x203F || c.toNat == 0x2040

/-- The name without colons at the start of a text. -/
def takeName? : List Char → Option (List Char × List Char)
  | [] => none
  | c :: r =>
    if isNameStart c then some (c :: r.takeWhile isNameChar, r.dropWhile isNameChar) else none

/-- Whether a name with colons may go on with a character. -/
def isColonNameChar (c : Char) : Bool := isNameChar c || c == ':'

/-- The name at the start of a text, where colons count as letters. -/
def takeColonName? : List Char → Option (List Char × List Char)
  | [] => none
  | c :: r =>
    if isNameStart c || c == ':' then
      some (c :: r.takeWhile isColonNameChar, r.dropWhile isColonNameChar)
    else none

def isSpace (c : Char) : Bool := c == ' ' || c == '\t' || c == '\n' || c == '\r'

/-- A text without the white space at its start. -/
def skipSpace (cs : List Char) : List Char := cs.dropWhile isSpace

/-- Whether a document may hold a character. -/
def isDocumentChar (c : Char) : Bool :=
  c == '\t' || c == '\n' || c == '\r' ||
    (Nat.ble 0x20 c.toNat && c.toNat != 0xFFFE && c.toNat != 0xFFFF)

end Harvest.Markup
