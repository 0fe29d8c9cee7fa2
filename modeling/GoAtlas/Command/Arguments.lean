/-!
# Arguments of the command line

The first word names what to do; options may stand anywhere, those that only concern what to do
behind that word. An option is given once at most on each side of the word. The value of an option
stands behind an equals sign or in the next argument; in the second case it must not look like an
option. Behind two dashes everything is a path.

Asking for help or for the version ends the reading at once.
-/

namespace GoAtlas

/-- What the command line asks for. -/
inductive Query where
  /-- The whole graph. -/
  | extract
  /-- The flattened view of a struct. -/
  | fields (typeName : String)
  /-- The method set of an interface. -/
  | methods (typeName : String)
  deriving DecidableEq, Repr, Inhabited

/-- A query with the paths to read and the choices for reading. -/
structure Invocation where
  query : Query
  paths : List String
  includeTests : Bool
  config : Option String
  deriving DecidableEq, Repr, Inhabited

/-- What can be wrong with the arguments. -/
inductive UsageError where
  | unknownOption (argument : String)
  | unknownCommand (argument : String)
  | missingCommand
  | missingPath
  | missingTypeName
  | missingValue (option : String)
  | emptyValue
  | unexpectedValue (option : String)
  | repeatedOption (option : String)
  deriving DecidableEq, Repr, Inhabited

namespace UsageError

/-- The wording of an error. -/
def message : UsageError → String
  | unknownOption argument => "unexpected argument " ++ argument
  | unknownCommand argument => "unrecognized subcommand " ++ argument
  | missingCommand => "a subcommand is required"
  | missingPath => "a path is required"
  | missingTypeName => "the option --type is required"
  | missingValue option => "a value is required for " ++ option
  | emptyValue => "a path must not be empty"
  | unexpectedValue option => "the option " ++ option ++ " takes no value"
  | repeatedOption option => "the option " ++ option ++ " cannot be used multiple times"

end UsageError

/-- Why the reading of arguments ends early. -/
inductive EarlyEnd where
  | help
  | version
  | misuse (error : UsageError)
  deriving DecidableEq, Repr, Inhabited

/-- The words that name what to do. -/
inductive Verb where
  | extract
  | fields
  | methods
  deriving DecidableEq, Repr, Inhabited

namespace Verb

/-- What a word names. -/
def ofWord? : String → Option Verb
  | "extract" => some extract
  | "fields" => some fields
  | "methods" => some methods
  | _ => none

/-- Whether the name of a type must be given. -/
def needsType : Verb → Bool
  | extract => false
  | _ => true

end Verb

/-- The options. -/
inductive CommandOption where
  | verbose
  | quiet
  | config
  | includeTests
  | typeName
  | help
  | version
  deriving DecidableEq, Repr, Inhabited

namespace CommandOption

/-- The long form of an option. -/
def long : CommandOption → String
  | verbose => "--verbose"
  | quiet => "--quiet"
  | config => "--config"
  | includeTests => "--include-tests"
  | typeName => "--type"
  | help => "--help"
  | version => "--version"

/-- The letter of an option that has one. -/
def letter? : CommandOption → Option Char
  | verbose => some 'v'
  | help => some 'h'
  | version => some 'V'
  | _ => none

/-- Whether an option has a value. -/
def takesValue : CommandOption → Bool
  | config | typeName => true
  | _ => false

/-- The options in front of the verb, or behind it. -/
def available : Option Verb → List CommandOption
  | none => [verbose, quiet, config, help, version]
  | some verb =>
    [verbose, quiet, config, help, includeTests] ++ if verb.needsType then [typeName] else []

end CommandOption

/-- What has been read on one side of the verb. -/
structure Given where
  flags : List CommandOption := []
  values : List (CommandOption × String) := []
  paths : List String := []
  deriving DecidableEq, Repr, Inhabited

namespace Given

/-- Ends the reading with an error. -/
def refuse {α : Type} (error : UsageError) : Except EarlyEnd α :=
  .error (.misuse error)

/-- Adds an option without value. -/
def addFlag (g : Given) (option : CommandOption) : Except EarlyEnd Given :=
  if option = .help then .error .help
  else if option = .version then .error .version
  else if option ∈ g.flags then refuse (.repeatedOption option.long)
  else .ok { g with flags := option :: g.flags }

/-- Adds an option with its value. A path must not be empty. -/
def addValue (g : Given) (option : CommandOption) (value : String) : Except EarlyEnd Given :=
  if (g.values.lookup option).isSome then refuse (.repeatedOption option.long)
  else if option = .config ∧ value = "" then refuse .emptyValue
  else .ok { g with values := (option, value) :: g.values }

/-- Adds a path. -/
def addPath (g : Given) (path : String) : Except EarlyEnd Given :=
  if path = "" then refuse .emptyValue else .ok { g with paths := g.paths ++ [path] }

/-- Adds options by their letters. -/
def addLetters (verb : Option Verb) (g : Given) : List Char → Except EarlyEnd Given
  | [] => .ok g
  | c :: rest => do
    match (CommandOption.available verb).find? (·.letter? == some c) with
    | none => refuse (.unknownOption (String.ofList ['-', c]))
    | some option => addLetters verb (← g.addFlag option) rest

/-- Whether an argument looks like an option: it starts with a dash and is not a dash alone. -/
def looksLikeOption (argument : String) : Bool :=
  match argument.toList with
  | '-' :: _ :: _ => true
  | _ => false

/-- The name and the attached value of a long option. -/
def splitValue (argument : String) : String × Option String :=
  let cs := argument.toList
  match cs.dropWhile (· ≠ '=') with
  | _ :: value => (String.ofList (cs.takeWhile (· ≠ '=')), some (String.ofList value))
  | [] => (argument, none)

/-- Reads arguments: in front of the verb up to it, or behind it up to the end. -/
def read (verb : Option Verb) (g : Given) : List String → Except EarlyEnd (Given × List String)
  | [] => .ok (g, [])
  | argument :: rest =>
    if argument = "--" then
      match verb with
      | none => refuse (.unknownOption argument)
      | some _ => do return (← rest.foldlM addPath g, [])
    else if !looksLikeOption argument then
      match verb with
      | none => .ok (g, argument :: rest)
      | some _ => do read verb (← g.addPath argument) rest
    else if !"--".toList.isPrefixOf argument.toList then do
      read verb (← g.addLetters verb (argument.toList.drop 1)) rest
    else
      let (name, attached) := splitValue argument
      match (CommandOption.available verb).find? (·.long == name) with
      | none => refuse (.unknownOption argument)
      | some option =>
        if !option.takesValue then
          match attached with
          | some _ => refuse (.unexpectedValue name)
          | none => do read verb (← g.addFlag option) rest
        else
          match attached with
          | some value => do read verb (← g.addValue option value) rest
          | none =>
            match rest with
            | [] => refuse (.missingValue name)
            | value :: more =>
              if looksLikeOption value then refuse (.missingValue name)
              else do read verb (← g.addValue option value) more

end Given

namespace Invocation

/-- The invocation of a verb with what has been read on both sides of it. Behind the verb, a path
must have been given, and the name of a type where the verb asks for one. -/
def ofGiven (verb : Verb) (front behind : Given) : Except EarlyEnd Invocation := do
  if behind.paths.isEmpty then Given.refuse .missingPath
  let query ←
    match verb, behind.values.lookup .typeName with
    | .extract, _ => pure .extract
    | .fields, some name => pure (.fields name)
    | .methods, some name => pure (.methods name)
    | _, none => Given.refuse .missingTypeName
  return {
    query
    paths := behind.paths
    includeTests := behind.flags.contains .includeTests
    config := behind.values.lookup .config <|> front.values.lookup .config }

/-- The invocation that some arguments ask for. -/
def ofArguments (arguments : List String) : Except EarlyEnd Invocation := do
  match ← Given.read none {} arguments with
  | (_, []) => Given.refuse .missingCommand
  | (front, word :: rest) =>
    if word = "help" then throw .help
    match Verb.ofWord? word with
    | none => Given.refuse (.unknownCommand word)
    | some verb =>
      let (behind, _) ← Given.read (some verb) {} rest
      ofGiven verb front behind

end Invocation

end GoAtlas
