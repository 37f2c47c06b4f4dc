import Harvest.Config
import Harvest.Files.Glob
import Harvest.Workplace

/-!
# The documents of a configuration

The items of a configuration become single documents in three steps: paths are seen from the
directory of the configuration, patterns give way to the files that fit them, and of items that name
the same document and the same schema only the first stays.
-/

namespace Harvest

/-- The directories that a path may start from by a tilde. -/
structure Homes where
  own : String
  others : List (String × String) := []

namespace Homes

/-- The homes that a list of accounts gives, one on each line: the name is the first field of a line
and the home the sixth. -/
def ofAccounts (own accounts : String) : Homes :=
  ⟨own, (accounts.splitOn "\n").filterMap fun line => match line.splitOn ":" with
    | name :: _ :: _ :: _ :: _ :: home :: _ => some (name, home)
    | _ => none⟩

/-- The home directory that a part of a path names, which starts with a tilde. -/
def find? (homes : Homes) (part : String) : Option String :=
  match part.toList.tail with
  | [] => some homes.own
  | user => homes.others.lookup (String.ofList user)

end Homes

/-- Why the path of a document leads nowhere. -/
inductive PathError
  /-- A tilde and a name that nobody has. -/
  | unknownHome
  /-- A path with the character zero. -/
  | brokenPath
deriving DecidableEq, Repr

namespace PathError

def message : PathError → String
  | unknownHome => "Could not determine home directory."
  | brokenPath => FileError.brokenPath.message

end PathError

namespace Path

/-- The path with the directory that its tilde stands for. -/
def expandHome (homes : Homes) (p : Path) : Except PathError Path :=
  match p.anchor, p.parts with
  | .relative, part :: parts =>
    if part.toList.head? == some '~' then match homes.find? part with
      | some home => .ok ((Path.ofString home).join ⟨.relative, parts⟩)
      | none => .error .unknownHome
    else .ok p
  | _, _ => .ok p

def isBroken (p : Path) : Bool := p.parts.any (·.contains '\x00')

end Path

namespace Item

def isPattern (i : Item) : Bool := Wildcard.hasSigns i.path

/-- What tells items apart: the place of the document and the schema. -/
def identity (here : Place) (i : Item) : Place × String :=
  (Path.resolveFrom here (Path.ofString i.path), i.schema.key)

/-! ## Paths seen from a directory -/

def resolvePath (homes : Homes) (base : Path) (text : String) : Except PathError String :=
  match Path.expandHome homes (Path.ofString text) with
  | .ok p => .ok (base.join p).toString
  | .error e => .error e

def resolveSchema (homes : Homes) (base : Path) : SchemaSource → Except PathError SchemaSource
  | .inline members => .ok (.inline members)
  | .named name =>
    if SchemaSource.isAddress name then .ok (.named name)
    else (resolvePath homes base name).map .named

def resolve (homes : Homes) (base : Path) (i : Item) : Except PathError Item :=
  match resolveSchema homes base i.schema, resolvePath homes base i.path with
  | .ok schema, .ok path => .ok { i with path, schema }
  | .error e, _ => .error e
  | _, .error e => .error e

/-- The items with their files seen from a directory. -/
def resolveAll (homes : Homes) (base : Path) : List Item → Except PathError (List Item)
  | [] => .ok []
  | i :: is => match resolve homes base i, resolveAll homes base is with
    | .ok j, .ok js => .ok (j :: js)
    | .error e, _ => .error e
    | _, .error e => .error e

/-! ## Patterns -/

/-- The item of a file that fits the pattern of an item.  The name of the item stands in front of
the name of the file, so that every document keeps a result of its own. -/
def ofFile (i : Item) (path : String) : Item :=
  let name := match i.name with
    | some name => if name.isEmpty then none else some (name ++ "_" ++ (Path.ofString path).stem)
    | none => none
  { i with path, name }

def expand (fs : FileSystem) (i : Item) : Except PathError (List Item) :=
  if !i.isPattern then .ok [i]
  else
    let pattern := Glob.ofString i.path
    if (Path.ofString pattern.base).isBroken then .error .brokenPath
    else .ok ((pattern.files fs).map (ofFile i))

def expandAll (fs : FileSystem) : List Item → Except PathError (List Item)
  | [] => .ok []
  | i :: is => match expand fs i, expandAll fs is with
    | .ok js, .ok ks => .ok (js ++ ks)
    | .error e, _ => .error e
    | _, .error e => .error e

/-- The patterns of items that no file fits, up to one that is no pattern. -/
def unfitPatterns (fs : FileSystem) : List Item → List String
  | [] => []
  | i :: is => match expand fs i with
    | .ok [] => i.path :: unfitPatterns fs is
    | .ok _ => unfitPatterns fs is
    | .error _ => []

/-! ## Items that say the same -/

/-- The items without those whose document and schema were seen before. -/
def dropSeen (here : Place) : List (Place × String) → List Item → List Item
  | _, [] => []
  | seen, i :: is =>
    if seen.contains (i.identity here) then dropSeen here seen is
    else i :: dropSeen here (i.identity here :: seen) is

/-- The first item for each document and schema. -/
def dedupe (here : Place) (items : List Item) : Except PathError (List Item) :=
  if items.any fun i => (Path.ofString i.path).isBroken then .error .brokenPath
  else .ok (dropSeen here [] items)

def documents (homes : Homes) (base : Path) (fs : FileSystem) (items : List Item) :
    Except PathError (List Item) :=
  match resolveAll homes base items with
  | .error e => .error e
  | .ok resolved => match expandAll fs resolved with
    | .error e => .error e
    | .ok expanded => dedupe fs.here expanded

end Item

/-- Why there is no configuration. -/
inductive ConfigError
  | file (path : String) (error : JsonFileError)
  | invalid (issues : List Issue)
  | document (error : PathError)

namespace ConfigError

def message : ConfigError → String
  | file path .absent => "Configuration file not found: " ++ path
  | file _ e => e.message
  | invalid issues => Issue.headline "Config" issues
  | document e => e.message

end ConfigError

namespace Config

/-- Reads the configuration in a file, with the documents that its items name. -/
def load (homes : Homes) (p : Path) : Work (Except ConfigError Config) := do
  let fs ← Work.files
  match fs.readJson p with
  | .error .absent => return .error (.file p.toString .absent)
  | r =>
    Work.note (.readingConfig p.toString)
    match r with
    | .error e => return .error (.file p.toString e)
    | .ok v => match Config.ofJson v with
      | .error issues => return .error (.invalid issues)
      | .ok config =>
        Work.note .findingDocuments
        match Item.resolveAll homes p.parent config.items with
        | .error e => return .error (.document e)
        | .ok resolved =>
          -- What fits nothing is told even when a later pattern breaks off the search.
          Work.noteAll ((Item.unfitPatterns fs resolved).map .nothingFits)
          match Item.documents homes p.parent fs config.items with
          | .error e => return .error (.document e)
          | .ok items =>
            Work.note (.foundDocuments items.length)
            return .ok { config with items }

end Config

end Harvest
