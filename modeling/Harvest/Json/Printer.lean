import Harvest.Json.Value

/-!
# Writing JSON

Values as JSON text, on one line or indented, with characters outside ASCII as they are or escaped.
-/

namespace Harvest.Json

structure Style where
  /-- Spaces for each level; without a width everything stands on one line. -/
  indent : Option Nat := none
  /-- Whether characters outside ASCII are escaped. -/
  asciiOnly : Bool := false

def escapeUnit (n : Nat) : List Char := '\\' :: 'u' :: Text.hex 4 n

def escapeChar (asciiOnly : Bool) (c : Char) : List Char :=
  if c == '"' || c == '\\' then ['\\', c]
  else if c == '\n' then ['\\', 'n']
  else if c == '\r' then ['\\', 'r']
  else if c == '\t' then ['\\', 't']
  else if c == '\x08' then ['\\', 'b']
  else if c == '\x0c' then ['\\', 'f']
  else if c.toNat < 0x20 then escapeUnit c.toNat
  else if !asciiOnly || c.toNat < 0x7F then [c]
  else if c.toNat < 0x10000 then escapeUnit c.toNat
  else
    let n := c.toNat - 0x10000
    escapeUnit (0xD800 + n / 0x400) ++ escapeUnit (0xDC00 + n % 0x400)

def renderString (asciiOnly : Bool) (s : String) : List Char :=
  '"' :: s.toList.flatMap (escapeChar asciiOnly) ++ ['"']

/-- A JSON number for a floating-point number; the ones that are not finite have names. -/
def renderFloat (x : Binary64) : List Char :=
  match x.magnitude with
  | .undefined => "NaN".toList
  | .infinite => if x.isNegative then "-Infinity".toList else "Infinity".toList
  | .finite _ _ => (Decimal.general x).toList

/-- The break in front of an item at a level. -/
def Style.newline (style : Style) (level : Nat) : List Char :=
  match style.indent with
  | none => []
  | some width => '\n' :: List.replicate (width * level) ' '

/-- What stands between two items at a level. -/
def Style.separator (style : Style) (level : Nat) : List Char :=
  match style.indent with
  | none => [',', ' ']
  | some _ => ',' :: style.newline level

mutual

/-- The JSON text of a value at a level of nesting. -/
def renderAt (style : Style) (level : Nat) : Json → List Char
  | .null => "null".toList
  | .bool true => "true".toList
  | .bool false => "false".toList
  | .int i => (toString i).toList
  | .float x => renderFloat x
  | .str s => renderString style.asciiOnly s
  | .list [] => ['[', ']']
  | .list (x :: xs) =>
    '[' :: style.newline (level + 1) ++ renderAt style (level + 1) x ++
      renderItems style (level + 1) xs ++ style.newline level ++ [']']
  | .map [] => ['\x7b', '\x7d']
  | .map ((k, v) :: ms) =>
    '\x7b' :: style.newline (level + 1) ++ renderString style.asciiOnly k ++ [':', ' '] ++
      renderAt style (level + 1) v ++ renderMembers style (level + 1) ms ++
      style.newline level ++ ['\x7d']

def renderItems (style : Style) (level : Nat) : List Json → List Char
  | [] => []
  | x :: xs => style.separator level ++ renderAt style level x ++ renderItems style level xs

def renderMembers (style : Style) (level : Nat) : List (String × Json) → List Char
  | [] => []
  | (k, v) :: ms =>
    style.separator level ++ renderString style.asciiOnly k ++ [':', ' '] ++
      renderAt style level v ++ renderMembers style level ms

end

def render (style : Style) (v : Json) : String := String.ofList (renderAt style 0 v)

/-- The text that two values share exactly if they differ in nothing but the order of members. -/
def canonical (v : Json) : String := render ⟨none, true⟩ v.sortKeys

end Harvest.Json
