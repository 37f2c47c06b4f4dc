import Harvest.Command.Line
import Harvest.Extract

/-!
# Commands

What the program can be asked to do: read one document, run a batch, or explain itself.
-/

namespace Harvest

structure DocumentRequest where
  schema : String
  /-- The path of the document; a hyphen stands for the standard input. -/
  document : String
  /-- The file for the result; without one it is printed. -/
  output : Option String := none
  /-- Whether the result stands on one line. -/
  compact : Bool := false
  scope : PruneScope := .context
deriving DecidableEq, Repr

structure BatchRequest where
  config : String
  directory : String
  dryRun : Bool := false
deriving DecidableEq, Repr

/-- What the program is asked to do. -/
inductive Command
  | document (request : DocumentRequest)
  | batch (request : BatchRequest)
  /-- Prints an explanation. -/
  | explain (text : String)
  /-- Nothing is asked for. -/
  | nothing
  /-- The arguments make no sense. -/
  | misuse
deriving DecidableEq, Repr

namespace Command

/-- Lines of text, each with its end. -/
def textOf (lines : List String) : String := String.join (lines.map (· ++ "\n"))

def programHelp : String := textOf [
  "usage: openscraping [-h] \x7bparse,run\x7d ...",
  "",
  "Extract structured data from HTML documents using XPath schemas",
  "",
  "positional arguments:",
  "  \x7bparse,run\x7d  Available commands",
  "    parse      Extract a single document",
  "    run        Run a batch extraction",
  "",
  "options:",
  "  -h, --help   show this help message and exit",
  "",
  "Examples:",
  "  openscraping parse schema.json page.html",
  "  openscraping parse schema.json page.html --output result.json --compact",
  "  curl -s https://example.com | openscraping parse schema.json -",
  "  openscraping run config.json output/ --dry-run",
  "        "]

def documentHelp : String := textOf [
  "usage: openscraping parse [-h] [--output OUTPUT] [--compact]",
  "                          [--prune-scope \x7bcontext,match\x7d] [--verbose]",
  "                          schema document",
  "",
  "positional arguments:",
  "  schema                Path or URL of the JSON schema",
  "  document              Path of the HTML document, '-' for stdin",
  "",
  "options:",
  "  -h, --help            show this help message and exit",
  "  --output OUTPUT, -o OUTPUT",
  "                        Write the result to a file instead of stdout",
  "  --compact             Write single-line JSON",
  "  --prune-scope \x7bcontext,match\x7d",
  "                        Evaluate removeSelector against the rule context or",
  "                        each match",
  "  --verbose, -v         Enable verbose logging"]

def batchHelp : String := textOf [
  "usage: openscraping run [-h] [--dry-run] [--verbose] config_file output_dir",
  "",
  "positional arguments:",
  "  config_file    Path to JSON configuration file",
  "  output_dir     Directory to store extraction results",
  "",
  "options:",
  "  -h, --help     show this help message and exit",
  "  --dry-run      List documents only, don't extract",
  "  --verbose, -v  Enable verbose logging"]

def helpOption : OptionForm := ⟨["-h", "--help"], "help", .help⟩

/-- The option that asks for more notes.  There are none that would be left out without it. -/
def verboseOption : OptionForm := ⟨["--verbose", "-v"], "verbose", .flag⟩

def programForm : LineForm := ⟨[helpOption], [.rest]⟩

def documentForm : LineForm where
  options := [
    helpOption,
    ⟨["--output", "-o"], "output", .value none⟩,
    ⟨["--compact"], "compact", .flag⟩,
    ⟨["--prune-scope"], "prune_scope", .value (some (PruneScope.named.map (·.1)))⟩,
    verboseOption]
  operands := [.one "schema", .one "document"]

def batchForm : LineForm where
  options := [helpOption, ⟨["--dry-run"], "dry_run", .flag⟩, verboseOption]
  operands := [.one "config_file", .one "output_dir"]

def documentRequest (l : Line) : DocumentRequest where
  schema := (l.get? "schema").getD ""
  document := (l.get? "document").getD ""
  output := l.get? "output"
  compact := l.has "compact"
  scope := ((l.get? "prune_scope").bind (PruneScope.named.lookup ·)).getD .context

def batchRequest (l : Line) : BatchRequest where
  config := (l.get? "config_file").getD ""
  directory := (l.get? "output_dir").getD ""
  dryRun := l.has "dry_run"

/-- What arguments ask for, by the form of a command; nothing may be left over, neither of them nor
of the arguments in front of the command. -/
def ofLine (form : LineForm) (help : String) (ask : Line → Command) (extras args : List String) :
    Command :=
  match form.read args with
  | .error .help => .explain help
  | .error .misuse => .misuse
  | .ok l => if (extras ++ l.extras).isEmpty then ask l else .misuse

def ofArguments (args : List String) : Command :=
  match programForm.read args with
  | .error .help => .explain programHelp
  | .error .misuse => .misuse
  | .ok l => match l.rest with
    | [] => if l.extras.isEmpty then .nothing else .misuse
    | "parse" :: rest =>
      ofLine documentForm documentHelp (fun l => .document (documentRequest l)) l.extras rest
    | "run" :: rest => ofLine batchForm batchHelp (fun l => .batch (batchRequest l)) l.extras rest
    | _ => .misuse

end Command

end Harvest
