import GoAtlas.Files.Path

/-!
# File trees

A file system is a tree of directories and files with a working directory in it. There are no links,
so what stands at a place has no other place. A path is followed piece by piece. What stands in
front of a slash must be a directory, also when nothing or a dot follows the slash; that is where a
path to a file differs from the same path with a slash behind it.
-/

namespace GoAtlas

/-- A file or a directory with its entries. -/
inductive FileTree where
  | file (content : ByteArray)
  | directory (entries : List (String × FileTree))
  deriving Inhabited

/-- Why a file cannot be read. -/
inductive FileError where
  | notFound
  | notADirectory
  | isADirectory
  | notText
  deriving DecidableEq, Repr, Inhabited

namespace FileError

/-- The wording of an error. -/
def message : FileError → String
  | notFound => "No such file or directory (os error 2)"
  | notADirectory => "Not a directory (os error 20)"
  | isADirectory => "Is a directory (os error 21)"
  | notText => "stream did not contain valid UTF-8"

/-- The report of a source file that cannot be read. -/
def report (e : FileError) : String :=
  "IO error: " ++ e.message

end FileError

namespace FileTree

/-- Whether a tree is a directory. -/
def isDirectory : FileTree → Bool
  | file _ => false
  | directory _ => true

/-- What stands under a name in a directory. -/
def child? (name : String) : FileTree → Option FileTree
  | file _ => none
  | directory entries => entries.lookup name

/-- What stands at the end of some names. -/
def at? : List String → FileTree → Option FileTree
  | [], tree => some tree
  | name :: rest, tree => (tree.child? name).bind (at? rest)

/-- Entries with what stands under a name changed. -/
def alter (name : String) (change : Option FileTree → FileTree) :
    List (String × FileTree) → List (String × FileTree)
  | [] => [(name, change none)]
  | (other, tree) :: rest =>
    if other = name then (name, change (some tree)) :: rest
    else (other, tree) :: alter name change rest

/-- Changes what stands at the end of some names. The directories on the way are made as needed. -/
def put (change : Option FileTree → FileTree) : List String → Option FileTree → FileTree
  | [], found => change found
  | name :: rest, some (directory entries) => directory (alter name (put change rest) entries)
  | name :: rest, _ => directory [(name, put change rest none)]

/-- Adds a file at the end of some names. -/
def addFile (names : List String) (content : ByteArray) (tree : FileTree) : FileTree :=
  put (fun _ => file content) names (some tree)

/-- Adds a directory at the end of some names, unless it is there. -/
def addDirectory (names : List String) (tree : FileTree) : FileTree :=
  put
    (fun
      | some (directory entries) => directory entries
      | _ => directory [])
    names (some tree)

end FileTree

/-- A tree of files with a working directory. -/
structure FileSystem where
  root : FileTree
  workingDirectory : List String
  deriving Inhabited

namespace FileSystem

/-- Follows the pieces of a path from the place where some names lead. -/
def follow (root : FileTree) : List String → List String → Except FileError (List String)
  | names, [] => .ok names
  | names, piece :: rest =>
    match root.at? names with
    | none => .error .notFound
    | some (.file _) => .error .notADirectory
    | some (.directory entries) =>
      if Path.isStill piece then follow root names rest
      else if piece = ".." then follow root names.dropLast rest
      else if (entries.lookup piece).isSome then follow root (names ++ [piece]) rest
      else .error .notFound

/-- The names that lead from the root to the place of a path. -/
def locate (fs : FileSystem) (path : String) : Except FileError (List String) :=
  if path.isEmpty then .error .notFound
  else if path.toList.head? = some '/' then follow fs.root [] (Path.pieces path)
  else follow fs.root fs.workingDirectory (Path.pieces path)

/-- What stands at the place of a path. -/
def find (fs : FileSystem) (path : String) : Except FileError FileTree := do
  let names ← fs.locate path
  match fs.root.at? names with
  | some tree => return tree
  | none => throw .notFound

/-- The text of a file. -/
def readText (fs : FileSystem) (path : String) : Except FileError String := do
  match ← fs.find path with
  | .directory _ => throw .isADirectory
  | .file content =>
    match String.fromUTF8? content with
    | some text => return text
    | none => throw .notText

end FileSystem

end GoAtlas
