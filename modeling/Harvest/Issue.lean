import Harvest.Json.Value

/-!
# Issues

What is wrong with a value that should have had a certain form: the place, as the keys and positions
that lead there, and the cause.
-/

namespace Harvest

inductive Step
  | key (name : String)
  | item (index : Nat)
deriving DecidableEq, Repr

inductive Fault
  /-- A required member is not there. -/
  | missing
  /-- A member has a name that means nothing. -/
  | extra
  | notString
  | notMapping
  | notList
  | notBoolean
  /-- A text or a number that could have stood for a truth value, but does not. -/
  | unclearBoolean
  | notInteger
  | unreadableInteger
  /-- A text or a number that stands for an integer that is too large. -/
  | oversizedInteger
  | fraction
  /-- A number that is not finite where an integer is asked for. -/
  | notFinite
  | tooSmall (least : Int)
  /-- A text that is none of the choices. -/
  | noChoice (choices : List String)
  /-- A value that is no mapping where the members of a form are asked for. -/
  | notForm (form : String)
  | emptySelector
  | emptyTransformation
  | invalidSelector (selector : String)
  /-- A selector with characters that no document can hold. -/
  | forbiddenCharacter
deriving DecidableEq, Repr

structure Issue where
  place : List Step
  fault : Fault
deriving DecidableEq, Repr

namespace Fault

/-- The choices of a text in words. -/
def orList : List String → String
  | [] => ""
  | [c] => Text.quoted c
  | [c, d] => Text.quoted c ++ " or " ++ Text.quoted d
  | c :: cs => Text.quoted c ++ ", " ++ orList cs

def message : Fault → String
  | missing => "Field required"
  | extra => "Extra inputs are not permitted"
  | notString => "Input should be a valid string"
  | notMapping => "Input should be a valid dictionary"
  | notList => "Input should be a valid list"
  | notBoolean => "Input should be a valid boolean"
  | unclearBoolean => "Input should be a valid boolean, unable to interpret input"
  | notInteger => "Input should be a valid integer"
  | unreadableInteger => "Input should be a valid integer, unable to parse string as an integer"
  | oversizedInteger => "Unable to parse input string as an integer, exceeded maximum size"
  | fraction => "Input should be a valid integer, got a number with a fractional part"
  | notFinite => "Input should be a finite number"
  | tooSmall least => "Input should be greater than or equal to " ++ toString least
  | noChoice choices => "Input should be " ++ orList choices
  | notForm form => "Input should be a valid dictionary or instance of " ++ form
  | emptySelector => "Value error, selector must not be empty"
  | emptyTransformation => "Value error, transform name must not be empty"
  | invalidSelector selector => "Value error, invalid XPath " ++ Text.quoted selector
  | forbiddenCharacter => "Value error, All strings must be XML compatible: Unicode or ASCII, " ++
      "no NULL bytes or control characters"

end Fault

namespace Issue

/-- An issue seen from one step further out. -/
def under (step : Step) (i : Issue) : Issue := ⟨step :: i.place, i.fault⟩

def here (fault : Fault) : Issue := ⟨[], fault⟩

/-- How many issues a value of a form has, in words. -/
def headline (form : String) (issues : List Issue) : String :=
  toString issues.length ++ " validation error" ++ (if issues.length = 1 then "" else "s") ++
    " for " ++ form

end Issue

end Harvest
