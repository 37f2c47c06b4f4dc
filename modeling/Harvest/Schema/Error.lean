import Harvest.Issue

/-!
# Schema errors

Why a schema cannot be used: where it comes from cannot be read, it does not have the form of a
schema, or one of its rules cannot be carried out.
-/

namespace Harvest

inductive SchemaError
  /-- A schema that is no mapping. -/
  | notMapping (given : Json)
  | invalidRule (field : String) (issues : List Issue)
  /-- A selector that the document does not allow to evaluate. -/
  | unusableSelector (selector : String)
  | unknownTransformation (name : String)
  | unknownDateFormat (format : Json)
  /-- A schema file that holds no JSON. -/
  | notJson (path : String)
  /-- An address that gives no JSON. -/
  | notFetched (address : String)

namespace SchemaError

def kindOf : Json → String
  | .null => "NoneType"
  | .bool _ => "bool"
  | .int _ => "int"
  | .float _ => "float"
  | .str _ => "str"
  | .list _ => "list"
  | .map _ => "dict"

/-- The names of date formats, in order. -/
def dateFormats : List String := ["date", "datetime", "month", "year", "year-only"]

def message : SchemaError → String
  | notMapping given => "Schema must be a mapping of field names to rules, got " ++ kindOf given
  | invalidRule field _ => "Invalid rule for field " ++ Text.quoted field
  | unusableSelector selector => "Could not evaluate selector " ++ Text.quoted selector
  | unknownTransformation name => "Unknown transformation: " ++ Text.quoted name
  | unknownDateFormat format => "Unknown date format " ++ format.inner ++ "; expected one of " ++
      (Json.list (dateFormats.map .str)).inner ++ " or a strftime pattern"
  | notJson path => "Schema file " ++ path ++ " is not valid JSON"
  | notFetched address => "Could not fetch schema from " ++ address

end SchemaError

end Harvest
