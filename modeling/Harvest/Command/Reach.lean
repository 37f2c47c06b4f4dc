import Harvest.Command.Basic
import Harvest.Config.Documents

/-!
# What a command looks at

The paths that a command may look at: first those among its arguments, then those that its
configuration names, and last the documents that fit patterns.
-/

namespace Harvest

/-- The paths of files that hold something to read, and of directories to look into. -/
structure Reach where
  files : List String := []
  directories : List String := []
deriving Repr

namespace Item

def reach (i : Item) : Reach :=
  let schema := match i.schema with
    | .named name => if SchemaSource.isAddress name then [] else [name]
    | .inline _ => []
  if i.isPattern then ⟨schema, [(Glob.ofString i.path).base]⟩ else ⟨i.path :: schema, []⟩

end Item

namespace BatchRequest

/-- The items of the configuration, with paths seen from its directory. -/
def items (r : BatchRequest) (homes : Homes) (fs : FileSystem) : List Item :=
  let p := Path.ofString r.config
  match fs.readJson p with
  | .error _ => []
  | .ok v => match Config.ofJson v with
    | .error _ => []
    | .ok c => match Item.resolveAll homes p.parent c.items with
      | .error _ => []
      | .ok items => items

def configReach (r : BatchRequest) (homes : Homes) (fs : FileSystem) : Reach :=
  let found := (r.items homes fs).map Item.reach
  ⟨found.flatMap (·.files), found.flatMap (·.directories)⟩

/-- The documents, once the directories that patterns look into are known. -/
def documentReach (r : BatchRequest) (homes : Homes) (fs : FileSystem) : Reach :=
  match Item.expandAll fs (r.items homes fs) with
  | .error _ => {}
  | .ok items => { files := items.map (·.path) }

end BatchRequest

namespace Command

def argumentReach : Command → Reach
  | .document r =>
    { files := [r.schema, r.document], directories := r.output.toList }
  | .batch r => { files := [r.config], directories := [r.directory] }
  | _ => {}

/-- What a command looks at beyond its arguments, step by step, each seen with what the steps
before have brought. -/
def laterReaches (homes : Homes) : Command → List (FileSystem → Reach)
  | .batch r => [r.configReach homes, r.documentReach homes]
  | _ => []

end Command

end Harvest
