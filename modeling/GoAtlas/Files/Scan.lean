import GoAtlas.Files.Walk

/-!
# Finding source files

The files to read are found from a list of paths. A path to a file stands for that file, whatever
its name. A path to a directory stands for the Go files that a walk lists below it, without the
directories of foreign code and test data, and, unless they are asked for, without files with tests.

What is found is put in the order of paths, and of several paths with the same components the first
one is kept.
-/

namespace GoAtlas

namespace Scan

/-- The names of directories with foreign code or test data. -/
def ignoredScopes : List String :=
  ["vendor", "testdata", "node_modules"]

/-- Whether an entry at a path is passed over in a walk. -/
def isIgnoredScope (path : String) : Bool :=
  (Path.fileName? path).any ignoredScopes.contains

/-- Whether an entry that a walk lists is read. -/
def isWanted (includeTests : Bool) (entry : WalkEntry) : Bool :=
  entry.isFile && Path.isGoSource entry.path &&
    (includeTests || !Path.isTestFile entry.path)

/-- The files to read below the directory at a path. -/
def below (walker : Walker) (fs : FileSystem) (includeTests : Bool) (path : String) : List String :=
  ((walker isIgnoredScope fs path).filter (isWanted includeTests)).map WalkEntry.path

/-- The files that a path stands for, or nothing if it leads nowhere. -/
def filesAt? (walker : Walker) (fs : FileSystem) (includeTests : Bool) (path : String) :
    Option (List String) :=
  match fs.find path with
  | .error _ => none
  | .ok (.file _) => some [path]
  | .ok (.directory _) => some (below walker fs includeTests path)

/-- The files that some paths stand for, in order; or the first path that leads nowhere. -/
def gather (walker : Walker) (fs : FileSystem) (includeTests : Bool) :
    List String → Except String (List String)
  | [] => .ok []
  | path :: rest =>
    match filesAt? walker fs includeTests path with
    | none => .error path
    | some files => (gather walker fs includeTests rest).map (files ++ ·)

/-- A list of paths without those that are the same path as the one before them. -/
def withoutRepeats : List String → List String
  | [] => []
  | path :: rest => path :: dropSame path rest
where
  /-- The rest of a list behind a path. -/
  dropSame (previous : String) : List String → List String
    | [] => []
    | path :: rest =>
      if Path.same previous path then dropSame previous rest else path :: dropSame path rest

/-- The files that some paths stand for, in the order of paths and each once, under the spelling met
first; or the first path that leads nowhere. -/
def filesBy (walker : Walker) (fs : FileSystem) (includeTests : Bool) (paths : List String) :
    Except String (List String) :=
  (gather walker fs includeTests paths).map fun found => withoutRepeats (found.mergeSort Path.le)

/-- The files that some paths stand for, by the walk that minds rules. -/
def files : FileSystem → (includeTests : Bool) → (paths : List String) →
    Except String (List String) :=
  filesBy Walker.standard

/-- The message for a path that leads nowhere. -/
def missingMessage (path : String) : String :=
  "No such file or directory: " ++ path

end Scan

end GoAtlas
