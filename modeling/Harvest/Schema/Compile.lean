import Harvest.Form
import Harvest.Schema.Error
import Harvest.Schema.Rule
import Harvest.Transform

/-!
# Compiling schemas

A schema is a mapping whose values are rules: a text is a selector, a mapping names the parts of a
rule.  Every part has several names; a part under a second name means nothing and is refused.  In
the older form, which the name `_xpath` marks, every name without a low line in front is a field.
-/

namespace Harvest

namespace Selector

def ofText (s : String) : Checked Selector :=
  if s.toList.all Text.isBlank then .refuse .emptySelector
  else if !s.toList.all Markup.isDocumentChar then .refuse .forbiddenCharacter
  else match h : XPath.read? s with
    | some q => .ok ⟨s, q, h⟩
    | none => .refuse (.invalidSelector s)

def ofJson : Json → Checked Selector
  | .str s => ofText s
  | _ => .refuse .notString

end Selector

namespace Pipeline

/-- The pipeline in a value: nothing, a name or a list of names. -/
def ofJson : Json → Checked Pipeline
  | .null => .ok .nothing
  | .str s => if s.isEmpty then .refuse .emptyTransformation else .ok (.single s)
  | v => match Form.listOf Form.text v with
    | .ok names => .ok (.chain names)
    | .error is =>
      .error (⟨[.key "str"], .notString⟩ :: is.map (Issue.under (.key "list[str]")))

end Pipeline

namespace Rule

def selectorNames : List String := ["selector", "_xpath", "xpath"]

/-- The names of the flag that a single value stands in a list. -/
def forceArrayNames : List String := ["forceArray", "_forceArray", "force_array"]

/-- The names of the selector of what is taken away. -/
def removeSelectorNames : List String := ["removeSelector", "_removeXPath", "remove_selector"]

def transformNames : List String := ["transform", "transformation", "_transformations"]

/-- The names of the options of transformations. -/
def optionsNames : List String := ["options", "_options", "transformOptions"]

def fieldsNames : List String := ["fields", "_fields"]

def partNames : List (List String) :=
  [selectorNames, forceArrayNames, removeSelectorNames, transformNames, optionsNames, fieldsNames]

/-- Whether a name stands for itself in the older form, and is no field. -/
def isReserved (name : String) : Bool := name.toList.head? == some '_'

/-- Whether a mapping is a rule in the older form. -/
def isOlderForm (ms : Members) : Bool := ms.has "_xpath"

/-- The members that are parts of the rule. -/
def ownMembers (ms : Members) : Members :=
  if isOlderForm ms then ms.filter fun m => isReserved m.1 else ms

/-- The parts of a rule other than its fields. -/
def headOf (ms : Members) : Checked RuleHead :=
  let selector := Form.required selectorNames Selector.ofJson ms
  let forceArray := Form.member forceArrayNames Form.truth false ms
  let removeSelector := Form.member removeSelectorNames (Form.optional Selector.ofJson) none ms
  let transform := Form.member transformNames Pipeline.ofJson .nothing ms
  let options := Form.member optionsNames Form.mapping [] ms
  (selector.zip (forceArray.zip (removeSelector.zip (transform.zip options)))).map
    fun (s, f, r, t, o) => ⟨s, f, r, t, o⟩

/-- The names of the members that are used. -/
def usedNames (ms : Members) : List String :=
  partNames.filterMap fun names => (Form.firstOf? names ms).map (·.1)

/-- Refuses every member that is not used. -/
def noExtras (ms : Members) : Checked Unit :=
  match ms.keys.filter fun k => !(usedNames ms).contains k with
  | [] => .ok ()
  | ks => .error (ks.map fun k => ⟨[.key k], .extra⟩)

def assemble (head : Checked RuleHead) (fields : Checked (Option Schema)) (extras : Checked Unit) :
    Checked Rule :=
  (head.zip (fields.zip extras)).map fun (h, fs, ()) =>
    match fs with
    | none => .leaf h
    | some fs => .nested h fs

mutual

def ofJson : Json → Checked Rule
  | .str s => assemble (headOf [("selector", .str s)]) (.ok none) (.ok ())
  | .map ms =>
    let own := ownMembers ms
    let fields : Checked (Option Schema) :=
      match Form.firstOf? fieldsNames own with
      | some (name, _) => (fieldsAt name ms).under (.key name)
      | none =>
        if own.length < ms.length then
          ((fieldsOf (fun k => !isReserved k) ms).under (.key "_fields")).map some
        else .ok none
    assemble (headOf own) fields (noExtras own)
  | _ => .refuse (.notForm "Rule")

/-- The fields in the member with a given name. -/
def fieldsAt (name : String) : List (String × Json) → Checked (Option Schema)
  | [] => .ok none
  | (k, v) :: ms => if k == name then fieldsIn v else fieldsAt name ms

def fieldsIn : Json → Checked (Option Schema)
  | .null => .ok none
  | .map ms => (fieldsOf (fun _ => true) ms).map some
  | _ => .refuse .notMapping

/-- The members whose names are kept, as fields. -/
def fieldsOf (keep : String → Bool) : List (String × Json) → Checked Schema
  | [] => .ok []
  | (k, v) :: ms =>
    if keep k then
      (((ofJson v).under (.key k)).zip (fieldsOf keep ms)).map fun (r, rs) => (k, r) :: rs
    else fieldsOf keep ms

end

end Rule

namespace Schema

/-- The rules of named values, up to the first one that is no rule. -/
def ofMembers : Members → Except SchemaError Schema
  | [] => .ok []
  | (name, v) :: ms =>
    match Rule.ofJson v with
    | .error is => .error (.invalidRule name is)
    | .ok r => match ofMembers ms with
      | .error e => .error e
      | .ok rs => .ok ((name, r) :: rs)

def compile : Json → Except SchemaError Schema
  | .map ms => ofMembers ms
  | v => .error (.notMapping v)

/-- Refuses the first name that stands for no transformation, and a date format that means nothing
for a date transformation. -/
def checkNames (registry : Registry) (options : Members) : List String → Except SchemaError Unit
  | [] => .ok ()
  | name :: names =>
    match registry.get? name with
    | none => .error (.unknownTransformation name)
    | some t =>
      if t.isParseDate then
        match Transformation.checkDateFormat ((options.get? "format").getD .null) with
        | .error e => .error e
        | .ok () => checkNames registry options names
      else checkNames registry options names

def checkRules (registry : Registry) : List Rule → Except SchemaError Unit
  | [] => .ok ()
  | r :: rs =>
    match checkNames registry r.head.options r.head.transform.names with
    | .error e => .error e
    | .ok () => checkRules registry rs

/-- Refuses a schema whose transformations cannot all run. -/
def checkTransformations (s : Schema) (registry : Registry) : Except SchemaError Unit :=
  checkRules registry s.rules

end Schema

end Harvest
