import Harvest.Extract
import Harvest.FileName
import Harvest.Form
import Harvest.Json.Printer

/-!
# Configurations

A configuration lists documents with the schemas to read them by, says how results are stored, and
gives what holds for every document that does not say otherwise.
-/

namespace Harvest

open Markup (Language)

/-- Where a schema comes from: a place that a text names, or the schema itself. -/
inductive SchemaSource
  | named (name : String)
  | inline (members : Members)
deriving Inhabited

namespace SchemaSource

/-- Whether a text is the address of a page. -/
def isAddress (s : String) : Bool :=
  "http://".toList.isPrefixOf s.toList || "https://".toList.isPrefixOf s.toList

/-- The text that tells sources apart: a name stands for itself, members for all members that
differ in nothing but their order. -/
def key : SchemaSource → String
  | named name => name
  | inline members => (Json.map members).canonical

def ofJson : Json → Checked SchemaSource
  | .str name => .ok (.named name)
  | .map members => .ok (.inline members)
  | _ => .error [⟨[.key "str"], .notString⟩, ⟨[.key "dict[str,any]"], .notMapping⟩]

def toJson : SchemaSource → Json
  | named name => .str name
  | inline members => .map members

end SchemaSource

/-- What holds for every document that does not say otherwise. -/
structure Defaults where
  threads : Int := 4
  scope : PruneScope := .context
  language : Language := .html
  /-- Spaces for each level of a result file; without a number a result stands on one line. -/
  indent : Option Int := some 2
deriving DecidableEq

/-- A document, or a pattern of documents, and the schema to read it by. -/
structure Item where
  path : String
  schema : SchemaSource
  name : Option String := none
  scope : Option PruneScope := none
deriving Inhabited

/-- What to read and how to store what is found. -/
structure Config where
  strategy : String := "file_per_document"
  defaults : Defaults := {}
  items : List Item := []

/-- The names of the scope in a form. -/
def PruneScope.formNames : List String := ["pruneScope", "prune_scope"]

namespace Defaults

def ofMembers (ms : Members) : Checked Defaults :=
  let threads := Form.member ["threads"] (Form.integerFrom 1) 4 ms
  let scope := Form.member PruneScope.formNames (Form.choice PruneScope.named) .context ms
  let language := Form.member ["parser"] (Form.choice Language.named) .html ms
  let indent := Form.member ["indent"] (Form.optional Form.integer) (some 2) ms
  (threads.zip (scope.zip (language.zip indent))).map fun (t, s, l, i) => ⟨t, s, l, i⟩

def ofJson : Json → Checked Defaults
  | .map ms => ofMembers ms
  | _ => .refuse (.notForm "Defaults")

end Defaults

namespace Item

def outputName (i : Item) : String := FileName.resultName i.path i.name

def ofMembers (ms : Members) : Checked Item :=
  let path := Form.required ["path"] Form.text ms
  let schema := Form.required ["schema", "schema_source"] SchemaSource.ofJson ms
  let name := Form.member ["name"] (Form.optional Form.text) none ms
  let scope :=
    Form.member PruneScope.formNames (Form.optional (Form.choice PruneScope.named)) none ms
  (path.zip (schema.zip (name.zip scope))).map fun (p, s, n, c) => ⟨p, s, n, c⟩

def ofJson : Json → Checked Item
  | .map ms => ofMembers ms
  | _ => .refuse (.notForm "Item")

end Item

namespace Config

def ofMembers (ms : Members) : Checked Config :=
  let strategy :=
    Form.member ["persistenceStrategy", "persistence_strategy"] Form.text "file_per_document" ms
  let defaults := Form.member ["defaults"] Defaults.ofJson {} ms
  let items := Form.member ["items"] (Form.listOf Item.ofJson) [] ms
  (strategy.zip (defaults.zip items)).map fun (s, d, is) => ⟨s, d, is⟩

def ofJson : Json → Checked Config
  | .map ms => ofMembers ms
  | _ => .refuse (.notForm "Config")

end Config

end Harvest
