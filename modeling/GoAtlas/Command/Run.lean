import GoAtlas.Codec.Graph
import GoAtlas.Command.Arguments
import GoAtlas.ConfigFile
import GoAtlas.Files.Scan
import GoAtlas.Json.Printer
import GoAtlas.Source.Unit.Parser

/-!
# Running a command

A command reads its configuration, finds the source files, reads them, extracts the graph and prints
the answer to its query as JSON. A file that holds no text is passed over. An unknown type name is
answered by a diagnostic, with the status of a failure; other failures print nothing.

How a text becomes a syntax tree, and how directories are walked, is left to a parser and a walk
that the command is given (`Command.runBy`). `Command.run` runs it with those of this library.
-/

namespace GoAtlas

/-- Why a command fails. -/
inductive CommandError where
  | unreadableConfig (path : String) (reason : FileError)
  | malformedConfig (path : String)
  | invalidConfig (reason : ConfigError)
  | missingPath (path : String)
  | query (reason : QueryError)
  deriving DecidableEq, Repr

namespace CommandError

/-- The wording of an error. -/
def message : CommandError → String
  | unreadableConfig path _ => "Failed to read config " ++ path
  | malformedConfig path => "Failed to parse config " ++ path
  | invalidConfig _ => "Invalid extractor configuration"
  | missingPath path => Scan.missingMessage path
  | query reason => reason.message

/-- The wording of what caused an error. The fault inside a malformed configuration is not told. -/
def causes? : CommandError → Option (List String)
  | unreadableConfig _ reason => some [reason.message]
  | malformedConfig _ => none
  | invalidConfig reason => some [reason.message]
  | missingPath _ => some []
  | query _ => some []

end CommandError

/-- How a command ends. -/
inductive Outcome where
  /-- It prints a text and ends with a status. -/
  | printed (status : Nat) (text : String)
  | failed (error : CommandError)
  /-- The arguments are wrong. -/
  | misused (error : UsageError)
  deriving DecidableEq, Repr

namespace Outcome

/-- The exit status of the command. -/
def status : Outcome → Nat
  | printed status _ => status
  | failed _ => 1
  | misused _ => 2

/-- The text that the command prints. -/
def text : Outcome → String
  | printed _ text => text
  | _ => ""

/-- The error with which the command fails. -/
def error? : Outcome → Option CommandError
  | failed error => some error
  | _ => none

/-- A value printed as JSON. -/
def ofJson (status : Nat) (v : Json) : Outcome :=
  printed status (v.pretty ++ "\n")

/-- The outcome of a query for a view. -/
def ofQuery {α : Type} (toJson : α → Json) : Except QueryError α → Outcome
  | .ok view => ofJson 0 (toJson view)
  | .error reason =>
    match reason.diagnostic? with
    | some diagnostic => ofJson 1 diagnostic.toJson
    | none => failed (.query reason)

end Outcome

namespace SourceUnit

/-- The unit of the file at a path, which is also its name, by a parser. -/
def parseFile (parse : String → Node) (fs : FileSystem) (path : String) :
    Except FileError SourceUnit :=
  (fs.readText path).map fun text => ofTree path text (parse text)

/-- The unit of the file at a path. -/
def ofFile : FileSystem → (path : String) → Except FileError SourceUnit :=
  parseFile SourceText.tree

end SourceUnit

namespace Command

/-- The version text. -/
def version : String := "typex 0.1.1\n"

/-- The help text. -/
def help : String :=
  "Extract Go type declarations into a queryable type graph\n\n" ++
    "Usage: typex [OPTIONS] extract [--include-tests] <PATHS>...\n" ++
    "       typex [OPTIONS] fields [--include-tests] --type <TYPE_NAME> <PATHS>...\n" ++
    "       typex [OPTIONS] methods [--include-tests] --type <TYPE_NAME> <PATHS>...\n\n" ++
    "Options:\n" ++
    "  -v, --verbose          Enable verbose logging\n" ++
    "      --quiet            Log only warnings and errors\n" ++
    "      --config <CONFIG>  Extractor configuration file (TOML)\n" ++
    "  -h, --help             Print help\n" ++
    "  -V, --version          Print version\n"

/-- The configuration that a command uses. -/
def configOf (fs : FileSystem) : Option String → Except CommandError Config
  | none => .ok {}
  | some path =>
    match fs.readText path with
    | .error reason => .error (.unreadableConfig path reason)
    | .ok text =>
      match Config.ofText? text with
      | none => .error (.malformedConfig path)
      | some config => .ok config

/-- The settings that a command uses. -/
def settingsOf (fs : FileSystem) (path : Option String) : Except CommandError Settings := do
  (Settings.ofConfig (← configOf fs path)).mapError .invalidConfig

/-- The units of the files that some paths stand for. -/
def unitsOf (parse : String → Node) (walker : Walker) (fs : FileSystem) (includeTests : Bool)
    (paths : List String) : Except CommandError (List SourceUnit) := do
  let files ← (Scan.filesBy walker fs includeTests paths).mapError .missingPath
  return files.filterMap fun path => (SourceUnit.parseFile parse fs path).toOption

/-- The answer to a query for the whole graph. -/
def report (x : Extraction) : Json :=
  .obj
    [("graph", x.graph.toJson), ("diagnostics", .ofList Diagnostic.toJson x.diagnostics),
      ("stats", x.graph.stats.toJson)]

/-- The answer to a query. -/
def answer (s : Settings) (x : Extraction) : Query → Outcome
  | .extract => .ofJson 0 (report x)
  | .fields typeName => .ofQuery Flattened.toJson (x.graph.flattened typeName)
  | .methods typeName =>
    .ofQuery MethodSet.toJson (x.graph.methodSet s.resolveInterfaceEmbeds typeName)

/-- Runs an invocation. -/
def invoke (parse : String → Node) (walker : Walker) (fs : FileSystem) (i : Invocation) :
    Except CommandError Outcome := do
  let s ← settingsOf fs i.config
  let units ← unitsOf parse walker fs i.includeTests i.paths
  return answer s (Extraction.ofUnits s units) i.query

/-- Runs the command with some arguments, by a parser and a walk. -/
def runBy (parse : String → Node) (walker : Walker) (fs : FileSystem) (arguments : List String) :
    Outcome :=
  match Invocation.ofArguments arguments with
  | .error .help => .printed 0 help
  | .error .version => .printed 0 version
  | .error (.misuse error) => .misused error
  | .ok i =>
    match invoke parse walker fs i with
    | .ok outcome => outcome
    | .error error => .failed error

/-- Runs the command with some arguments. -/
def run : FileSystem → (arguments : List String) → Outcome :=
  runBy SourceText.tree Walker.standard

end Command

end GoAtlas
