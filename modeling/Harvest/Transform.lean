import Harvest.Calendar.Recognize
import Harvest.Schema.Error

/-!
# Transformations

A transformation takes a value and the options of a rule and gives a value, or nothing where it
cannot interpret what it was given.  Names stand for transformations in a registry; a chain hands
the result of each one to the next and ends where one gives nothing.
-/

namespace Harvest

inductive TransformError
  | schema (error : SchemaError)
  /-- A number in a text is too large to compute a date with. -/
  | dateOverflow
  /-- A transformation from outside of the library failed. -/
  | custom (reason : String)

/-- A transformation; `null` stands for a result that is nothing. -/
inductive Transformation
  | trim
  | parseDate
  | collapseBlanks
  | custom (run : Json → Members → Except TransformError Json)

namespace Transformation

/-- Whether an option says how dates are written. -/
def isDateFormat : Json → Bool
  | .null => true
  | .str s => Calendar.isFormat s
  | _ => false

/-- The date format that the options ask for. -/
def dateFormat? (options : Members) : Option String :=
  match options.get? "format" with
  | some (.str s) => some s
  | _ => none

/-- Refuses an option that does not say how dates are written. -/
def checkDateFormat (format : Json) : Except SchemaError Unit :=
  if isDateFormat format then .ok () else .error (.unknownDateFormat format)

/-- A date in the format that the options ask for. -/
def writeDate (v : Calendar.DateTime) (options : Members) : Except TransformError Json :=
  match checkDateFormat ((options.get? "format").getD .null) with
  | .error e => .error (.schema e)
  | .ok () => .ok (.str (v.write (dateFormat? options)))

def readDate (text : String) (options : Members) : Except TransformError Json :=
  match Calendar.recognize text with
  | .error _ => .error .dateOverflow
  | .ok none => .ok .null
  | .ok (some v) => writeDate v options

def run (t : Transformation) (value : Json) (options : Members) : Except TransformError Json :=
  match t with
  | .trim => .ok (.str (Text.trim value.display))
  | .parseDate => readDate value.display options
  | .collapseBlanks => .ok (.str (Text.collapse value.display))
  | .custom f => f value options

/-- Whether this is the transformation of dates that the library brings. -/
def isParseDate : Transformation → Bool
  | .parseDate => true
  | _ => false

end Transformation

/-- Named transformations in the order in which the names were first given. -/
structure Registry where
  entries : List (String × Transformation) := []

namespace Registry

def standard : Registry :=
  ⟨[("trim", .trim), ("parseDate", .parseDate), ("removeExtraWhitespace", .collapseBlanks)]⟩

def get? (r : Registry) (name : String) : Option Transformation := List.lookup name r.entries

def contains (r : Registry) (name : String) : Bool := (r.get? name).isSome

def names (r : Registry) : List String := r.entries.map (·.1)

/-- Entries in which a name stands for a transformation: in its place if it is there, else at the
end. -/
def putEntry (name : String) (t : Transformation) :
    List (String × Transformation) → List (String × Transformation)
  | [] => [(name, t)]
  | (n, u) :: rest => if n == name then (n, t) :: rest else (n, u) :: putEntry name t rest

/-- The registry in which a name stands for a transformation. -/
def register (r : Registry) (name : String) (t : Transformation) : Registry :=
  ⟨putEntry name t r.entries⟩

/-- The result of the transformation that a name stands for. -/
def apply (r : Registry) (name : String) (value : Json) (options : Members) :
    Except TransformError Json :=
  match r.get? name with
  | none => .error (.schema (.unknownTransformation name))
  | some t => t.run value options

/-- The result of several transformations, each on the result of the one before; nothing from the
first one that gives nothing. -/
def applyChain (r : Registry) : List String → Json → Members → Except TransformError Json
  | [], value, _ => .ok value
  | name :: names, value, options =>
    match r.apply name value options with
    | .error e => .error e
    | .ok .null => .ok .null
    | .ok result => r.applyChain names result options

end Registry

end Harvest
