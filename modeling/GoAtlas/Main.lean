import GoAtlas.Command.Run

/-!
# The command

Reads the part of the file system that the arguments can reach into a tree, runs the command on it,
prints what it answers and ends with its status. Links are not followed below a path, and a file
that cannot be opened counts as one that holds no text.
-/

namespace GoAtlas.Main

/-- What stands for the content of a file that cannot be opened. -/
def noText : ByteArray := ⟨#[0xFF]⟩

/-- The content of a file. -/
def contentAt (path : String) : IO ByteArray := do
  try IO.FS.readBinFile path
  catch _ => return noText

/-- Whether the content of a file found below a directory can matter. -/
def matters (name : String) : Bool :=
  Path.isGoSource name || [".ignore", ".gitignore", "exclude"].contains name

/-- The tree below a path. -/
partial def treeAt (path : String) : IO FileTree := do
  let here ← IO.currentDir
  let entries ← (try (here / path).readDir catch _ => pure #[])
  let mut children : List (String × FileTree) := []
  for entry in entries do
    let inner := path ++ "/" ++ entry.fileName
    match (← entry.path.symlinkMetadata).type with
    | .dir => children := (entry.fileName, ← treeAt inner) :: children
    | .file =>
      let content ← if matters entry.fileName then contentAt inner else pure ByteArray.empty
      children := (entry.fileName, .file content) :: children
    | _ => pure ()
  return .directory children

/-- The names that lead to an absolute path. -/
def namesOf (path : String) : List String :=
  (Path.pieces path).filter (!Path.isStill ·)

/-- Adds what stands at a place to a tree, if anything does. -/
def addPlace (tree : FileTree) (path : String) : IO FileTree := do
  let here ← IO.currentDir
  let place := here / path
  if !(← place.pathExists) then return tree
  let real := (← IO.FS.realPath place).toString
  if ← place.isDir then
    let below ← treeAt real
    return FileTree.put (fun _ => below) (namesOf real) (some tree)
  else return tree.addFile (namesOf real) (← contentAt real)

/-- Adds the directories that a path passes through to a tree. -/
def addWay (tree : FileTree) (path : String) : IO FileTree := do
  let here ← IO.currentDir
  let pieces := Path.pieces path
  let mut tree := tree
  for count in List.range pieces.length do
    let way := here / "/".intercalate (pieces.take (count + 1))
    if ← way.isDir then
      tree := tree.addDirectory (namesOf (← IO.FS.realPath way).toString)
  return tree

/-- Adds the files of rules in the directories above a place to a tree. -/
def addRules (tree : FileTree) (path : String) : IO FileTree := do
  let here ← IO.currentDir
  let place := here / path
  if !(← place.pathExists) then return tree
  let names := namesOf (← IO.FS.realPath place).toString
  let mut tree := tree
  for count in List.range names.length do
    let directory := "/" ++ "/".intercalate (names.take count)
    for name in [".ignore", ".gitignore", ".git/info/exclude"] do
      let file := Path.join directory name
      if (← (here / file).pathExists) && !(← (here / file).isDir) then
        tree := tree.addFile (namesOf file) (← contentAt file)
    let repository := Path.join directory ".git"
    if ← (here / repository).isDir then
      tree := tree.addDirectory (namesOf repository)
  return tree

/-- The paths that an argument can name: itself, or the value behind its equals sign. -/
def pathsIn (argument : String) : List String :=
  argument :: (Given.splitValue argument).2.toList

/-- The part of the file system that some arguments can reach. -/
def fileSystemFor (arguments : List String) : IO FileSystem := do
  let here := (← IO.FS.realPath ".").toString
  let paths := arguments.flatMap pathsIn
  let mut tree := (FileTree.directory []).addDirectory (namesOf here)
  for path in paths do
    tree ← addPlace tree path
  for path in paths do
    tree ← addRules (← addWay tree path) path
  return { root := tree, workingDirectory := namesOf here }

/-- What the command says when it fails. -/
def complaint : Outcome → List String
  | .printed _ _ => []
  | .misused e => ["error: " ++ e.message]
  | .failed e =>
    match e.causes?.getD [] with
    | [] => ["Error: " ++ e.message]
    | causes => ["Error: " ++ e.message, "", "Caused by:"] ++ causes.map ("    " ++ ·)

end GoAtlas.Main

open GoAtlas in
/-- Runs the command. -/
def main (arguments : List String) : IO UInt32 := do
  let outcome := Command.run (← Main.fileSystemFor arguments) arguments
  IO.print outcome.text
  for line in Main.complaint outcome do
    IO.eprintln line
  return UInt32.ofNat outcome.status
