import GoAtlas.Text.Lines

/-!
# Paths

A path is text. It is read as a list of components: repeated slashes, a slash at the end and the
component `.` do not count, except that `.` is kept where the path starts with it. Paths are
ordered component by component: the root comes before `.`, that before `..`, and that before names,
which are ordered by their characters. Two paths with the same components are the same path, however
they are written.
-/

namespace GoAtlas

/-- A step of a path. -/
inductive PathComponent where
  /-- The start of an absolute path. -/
  | root
  /-- The dot that a relative path starts with. -/
  | here
  | parent
  | name (text : String)
  deriving DecidableEq, Repr, Inhabited

namespace PathComponent

/-- The place of a kind of component in the order. -/
def rank : PathComponent → Nat
  | root => 0
  | here => 1
  | parent => 2
  | name _ => 3

/-- The name that a component is, or nothing. -/
def text : PathComponent → String
  | name text => text
  | _ => ""

/-- Whether a component comes before another. -/
def before (a b : PathComponent) : Bool :=
  a.rank < b.rank || (a.rank == b.rank && a.text < b.text)

end PathComponent

namespace Path

/-- The pieces of a path between its slashes. -/
def pieces (path : String) : List String :=
  (Text.pieces '/' path.toList).map String.ofList

/-- Whether a piece of a path stays where it is. -/
def isStill (piece : String) : Bool :=
  piece == "" || piece == "."

/-- The components of some pieces. -/
def componentsOf (ps : List String) : List PathComponent :=
  (ps.filter (!isStill ·)).map fun piece =>
    if piece = ".." then .parent else .name piece

/-- The components of a path. -/
def components (path : String) : List PathComponent :=
  match pieces path with
  | "" :: more :: rest => .root :: componentsOf (more :: rest)
  | "." :: rest => .here :: componentsOf rest
  | ps => componentsOf ps

/-- Whether a list of components comes before another or is the same. -/
def componentsLe : List PathComponent → List PathComponent → Bool
  | [], _ => true
  | _ :: _, [] => false
  | a :: as, b :: bs => if a = b then componentsLe as bs else a.before b

/-- The order of paths. -/
def le (p q : String) : Bool :=
  componentsLe (components p) (components q)

/-- Whether two paths have the same components. -/
def same (p q : String) : Bool :=
  components p == components q

/-- The path of an entry of a directory. -/
def join (directory name : String) : String :=
  if directory.toList.getLast? = some '/' then directory ++ name else directory ++ "/" ++ name

/-! ## File names -/

/-- The name of the file that a path leads to. -/
def fileName? (path : String) : Option String :=
  match (components path).getLast? with
  | some (.name text) => some text
  | _ => none

/-- What follows the last dot of a name, if there is something in front of the dot. -/
def extensionOf? (name : String) : Option String :=
  let cs := name.toList.reverse
  match cs.dropWhile (· ≠ '.') with
  | '.' :: _ :: _ => some (String.ofList (cs.takeWhile (· ≠ '.')).reverse)
  | _ => none

/-- Whether a path leads to a file with Go source text, by its extension. -/
def isGoSource (path : String) : Bool :=
  ((fileName? path).bind extensionOf?).any fun extension =>
    extension.toList.map Char.toLower == ['g', 'o']

/-- Whether a path leads to a file with tests. -/
def isTestFile (path : String) : Bool :=
  (fileName? path).any fun name => "_test.go".toList.isSuffixOf name.toList

end Path

end GoAtlas
