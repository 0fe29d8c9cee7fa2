import GoAtlas.Files.IgnoreRules
import GoAtlas.Files.Tree

/-!
# Walking directories

A walk lists the entries at and below a directory. A filter says which entries are passed over,
together with everything below them. Apart from that, whoever walks asks for nothing, so the walk is
a parameter of what is built on it (`Walker`).

`Walker.standard` is a walk that leaves out hidden entries and what rules say. The directory itself
is never left out. A dash alone means standard input, below which there are no files, even where a
directory has that name. Rules come from three files in each directory from the root of the tree
down to the entry: `.ignore`, and inside a repository also `.gitignore` and the list of exclusions
of the repository itself. The first kind that has a verdict decides, and for each kind the nearest
file; the two kinds of a repository do not look beyond its top. What a rule keeps may be hidden.
-/

namespace GoAtlas

/-- An entry that a walk lists. -/
structure WalkEntry where
  path : String
  isFile : Bool
  deriving DecidableEq, Repr, Inhabited

/-- A walk: it lists the entries at and below the directory at a path, and passes over those whose
paths are to be skipped. -/
abbrev Walker : Type :=
  (skip : String → Bool) → FileSystem → (path : String) → List WalkEntry

/-- The rules of one directory. -/
structure RuleLevel where
  /-- The number of names that lead to the directory. -/
  depth : Nat
  plain : List IgnoreRule
  repository : List IgnoreRule
  exclusions : List IgnoreRule
  /-- Whether the directory is the top of a repository. -/
  isTop : Bool
  deriving Inhabited

namespace RuleLevel

/-- The rules in a file below a directory. -/
def rulesAt (tree : FileTree) (names : List String) : List IgnoreRule :=
  match tree.at? names with
  | some (.file content) => IgnoreRule.ofContent content
  | _ => []

/-- The rules of a directory that so many names lead to. -/
def ofDirectory (depth : Nat) (tree : FileTree) : RuleLevel :=
  { depth
    plain := rulesAt tree [".ignore"]
    repository := rulesAt tree [".gitignore"]
    exclusions := rulesAt tree [".git", "info", "exclude"]
    isTop := (tree.child? ".git").isSome }

/-- The levels that belong to the repository of the nearest one: those down to the first top. -/
def withinRepository : List RuleLevel → List RuleLevel
  | [] => []
  | level :: rest => if level.isTop then [level] else level :: withinRepository rest

/-- What one kind of rules says about the entry that some names lead to: the nearest level with a
verdict decides. -/
def decideKind? (kind : RuleLevel → List IgnoreRule) (names : List String) (isDirectory : Bool) :
    List RuleLevel → Option Verdict
  | [] => none
  | level :: rest =>
    match IgnoreRule.decide? (kind level) ("/".intercalate (names.drop level.depth)) isDirectory with
    | some verdict => some verdict
    | none => decideKind? kind names isDirectory rest

/-- What the rules of some levels, the nearest first, say about the entry that some names lead
to. -/
def decide? (levels : List RuleLevel) (names : List String) (isDirectory : Bool) : Option Verdict :=
  let inside := if levels.any RuleLevel.isTop then withinRepository levels else []
  decideKind? RuleLevel.plain names isDirectory levels <|>
    decideKind? RuleLevel.repository names isDirectory inside <|>
    decideKind? RuleLevel.exclusions names isDirectory inside

/-- The levels of the directories on the way along some names, added to those above them. -/
def onTheWay (depth : Nat) (above : List RuleLevel) : List String → FileTree → List RuleLevel
  | [], tree => ofDirectory depth tree :: above
  | name :: rest, tree =>
    let levels := ofDirectory depth tree :: above
    match tree.child? name with
    | some child => onTheWay (depth + 1) levels rest child
    | none => levels

end RuleLevel

namespace Walker

/-- Whether a name is hidden. -/
def isHidden (name : String) : Bool :=
  name.toList.head? == some '.'

/-- Whether the rules say `verdict` about an entry and it is left out for that. -/
def isLeftOut (name : String) : Option Verdict → Bool
  | some .leaveOut => true
  | some .keep => false
  | none => isHidden name

mutual

/-- The entries at and below an entry. -/
def entriesOf (skip : String → Bool) (levels : List RuleLevel) (names : List String)
    (path : String) : FileTree → List WalkEntry
  | .file _ => [{ path, isFile := true }]
  | .directory entries =>
    let level := RuleLevel.ofDirectory names.length (.directory entries)
    { path, isFile := false } :: entriesOfAll skip (level :: levels) names path entries

/-- The entries at and below some entries of the directory at a path. -/
def entriesOfAll (skip : String → Bool) (levels : List RuleLevel) (names : List String)
    (path : String) : List (String × FileTree) → List WalkEntry
  | [] => []
  | (name, tree) :: rest =>
    let names' := names ++ [name]
    let path' := Path.join path name
    let verdict := RuleLevel.decide? levels names' tree.isDirectory
    let found :=
      if isLeftOut name verdict || skip path' then [] else entriesOf skip levels names' path' tree
    found ++ entriesOfAll skip levels names path rest

end

/-- The walk that leaves out hidden entries and what rules say. -/
def standard : Walker := fun skip fs path =>
  match fs.locate path with
  | .error _ => []
  | .ok names =>
    match fs.root.at? names with
    | none => []
    | some tree =>
      if path = "-" then []
      else entriesOf skip ((RuleLevel.onTheWay 0 [] names fs.root).drop 1) names path tree

end Walker

end GoAtlas
