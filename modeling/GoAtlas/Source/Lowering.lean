import GoAtlas.Source.Comment
import GoAtlas.Source.Tree
import GoAtlas.Source.Unit
import GoAtlas.Source.Vocabulary

/-!
# From syntax trees to declarations

The type declarations of a source file are read off its syntax tree. Only children of the root are
looked at; what is not a type declaration is passed over, apart from an error that starts with the
word `type`, which stands for a declaration that cannot be read. Names, pointers to names, structs
and interfaces keep their structure, and every other type is kept as the text that its node spans.

The parts of a node are found by their fields or kinds, with three exceptions: the type behind a
star and the type in parentheses are the first named child, and a line of an interface is one type
if it has one named child. A comment is a named node, so a comment in such a place counts.

The functions that read a part of a type take the function that reads the types inside it as an
argument. `typeWithin` ties the knot as often as the nodes are deep, and `type_eq` says that nothing
is left of this bound.
-/

namespace GoAtlas

/-- What the nodes of a tree are read with: the text that they are places in, and its name. -/
structure Lowering where
  source : String
  unit : String

namespace Lowering

variable (l : Lowering)

/-! ## Texts and positions -/

/-- A text without as many bytes at its start. A character that is cut goes as a whole. -/
def dropBytes : Nat → List Char → List Char
  | _, [] => []
  | 0, cs => cs
  | n + 1, c :: cs => dropBytes (n + 1 - c.utf8Size) cs

/-- The first bytes of a text, as many as are asked for. -/
def takeBytes : Nat → List Char → List Char
  | _, [] => []
  | 0, _ => []
  | n + 1, c :: cs => c :: takeBytes (n + 1 - c.utf8Size) cs

/-- The text that a node spans. -/
def text (n : Node) : String :=
  String.ofList
    (takeBytes (n.stop.byte - n.start.byte) (dropBytes n.start.byte l.source.toList))

/-- The position at which a node starts. -/
def position (n : Node) : Position :=
  n.start.position l.unit

/-! ## Structs -/

section Parts

variable (type : Node → TypeExpr)

/-- The type of a field. A field whose type is left out keeps that it is missing. -/
def fieldType (n : Node) : TypeExpr :=
  match n.child? .type with
  | some t => if t.isMissing then .missing else type t
  | none => .missing

/-- A line of a struct body. Without names it embeds its type, or a pointer to it behind a star. -/
def field (n : Node) : FieldDecl :=
  let names := (n.childrenOf .name).map l.text
  let hasStar := n.children.any (·.kind == .symbol "*")
  { names
    type := if names.isEmpty && hasStar then .pointer (fieldType type n) else fieldType type n
    tag := (n.child? .tag).map l.text
    position := l.position n }

/-- The lines of a struct. -/
def fields (n : Node) : List FieldDecl :=
  match n.children.find? (·.kind == .fieldDeclarationList) with
  | none => []
  | some list => (list.children.filter (·.kind == .fieldDeclaration)).map (l.field type)

/-! ## Interfaces -/

/-- Parameters that share a type, if the node has one. -/
def param? (variadic : Bool) (n : Node) : Option Param :=
  (n.child? .type).map fun t =>
    { names := (n.childrenOf .name).map l.text, type := type t, variadic }

/-- An entry of a parameter list, if the node is one. -/
def paramOf? (n : Node) : Option Param :=
  match n.kind with
  | .parameterDeclaration => l.param? type false n
  | .variadicParameterDeclaration => l.param? type true n
  | _ => none

/-- The parameters in a list. -/
def params (list : Node) : List Param :=
  list.namedChildren.filterMap (l.paramOf? type)

/-- The results of a method: a list in parentheses, one type, or none. -/
def results (n : Node) : List Param :=
  match n.child? .result with
  | some r =>
    if r.kind = .parameterList then l.params type r
    else [{ names := [], type := type r, variadic := false }]
  | none => []

/-- A method of an interface, if it has a name. -/
def method? (n : Node) : Option Element :=
  (n.child? .name).map fun name =>
    .method (l.text name) ((n.child? .parameters).elim [] (l.params type)) (l.results type n)
      (l.position n)

/-- A line of an interface that is not a method. A lone named type is an embedded interface, and
anything else a set of types. -/
def typeElement (n : Node) : Element :=
  match n.namedChildren with
  | [term] =>
    match type term with
    | .named package name => .embed (.named package name)
    | .verbatim text =>
      if term.kind = .genericType then .embed (.verbatim text) else .constraint (l.text n)
    | _ => .constraint (l.text n)
  | _ => .constraint (l.text n)

/-- A line of an interface, if the node is one. -/
def element? (n : Node) : Option Element :=
  match n.kind with
  | .methodElem | .methodSpec => l.method? type n
  | .typeElem | .constraintElem => some (l.typeElement type n)
  | .interfaceTypeName =>
    some (.embed (n.namedChildren.head?.elim (.named none (l.text n)) type))
  | _ => none

/-- The lines of an interface. -/
def elements (n : Node) : List Element :=
  n.namedChildren.filterMap (l.element? type)

/-! ## Types -/

/-- The type that a name without package means. -/
def typeOfName (name : String) : TypeExpr :=
  if Vocabulary.isPredeclared name then .predeclared name else .named none name

/-- The type that a node stands for, when `type` reads the types inside it. -/
def typeWith (n : Node) : TypeExpr :=
  match n.kind with
  | .typeIdentifier => typeOfName (l.text n)
  | .qualifiedType =>
    match n.child? .package, n.child? .name with
    | some package, some name => .named (some (l.text package)) (l.text name)
    | _, _ => .verbatim (l.text n)
  | .pointerType =>
    match n.namedChildren.head? with
    | some target =>
      if target.kind.isTypeName then .pointer (type target) else .verbatim (l.text n)
    | none => .verbatim (l.text n)
  | .parenthesizedType =>
    match n.namedChildren.head? with
    | some inner => type inner
    | none => .verbatim (l.text n)
  | .structType => .struct (l.fields type n)
  | .interfaceType => .interface (l.elements type n)
  | _ => .verbatim (l.text n)

end Parts

/-- The type that a node stands for, when at most so many nodes are nested in it. -/
def typeWithin : Nat → Node → TypeExpr
  | 0, n => .verbatim (l.text n)
  | depth + 1, n => l.typeWith (typeWithin depth) n

/-- The type that a node stands for. -/
def type (n : Node) : TypeExpr :=
  l.typeWithin n.depth n

/-! ## Declarations -/

/-- The contents of the comments directly above a row, the nearest first, when these nodes come
before, the nearest first. A comment that starts on the row on which the named node before it ends
belongs to that one. -/
def docLines (row : Nat) : List Node → List String
  | [] => []
  | n :: before =>
    if n.kind = .comment ∧ n.stop.row + 1 = row ∧
        (before.find? Node.isNamed).all (fun m => m.stop.row ≠ n.start.row) then
      Comment.content (l.text n) :: docLines n.start.row before
    else []

/-- The doc of a node: what the comments directly above it say. -/
def doc? (before : List Node) (n : Node) : Option String :=
  match (l.docLines n.start.row before).reverse with
  | [] => none
  | lines => some ("\n".intercalate lines)

/-- A declaration of one type, under a doc. A part that the text leaves out is not there. -/
def spec (doc : Option String) (n : Node) : TypeSpec :=
  { name := ((n.child? .name).filter (!·.isMissing)).map l.text |>.filter (· ≠ "")
    doc
    typeParams := (n.child? .typeParameters).map l.text
    isAlias := n.kind == .typeAlias
    type := ((n.child? .type).filter fun t => !t.isMissing && t.kind != .error).map l.type
    position := l.position n }

/-- A type declaration behind the nodes before it, the nearest first. In a group each member has the
doc above itself. -/
def declaration? (before : List Node) (n : Node) : Option Item :=
  if n.children.any (·.kind == .symbol "(") then
    let members := (Node.withElders [] n.children).filter (·.2.kind.isSpec)
    some (.group (l.position n) (members.map fun (elders, m) => l.spec (l.doc? elders m) m))
  else
    (n.children.find? (·.kind.isSpec)).map fun m => .single (l.spec (l.doc? before n) m)

/-- Whether a text starts with the word `type`, blanks apart. -/
def startsWithType (text : String) : Bool :=
  "type".toList.isPrefixOf (text.toList.dropWhile Text.isBlank)

/-- The item that a child of the root stands for, if any. -/
def item? (before : List Node) (n : Node) : Option Item :=
  if n.kind = .typeDeclaration then l.declaration? before n
  else if n.kind = .error ∧ startsWithType (l.text n) then
    some (.single (.unreadable (l.position n)))
  else none

/-- The items of a tree. -/
def items (root : Node) : List Item :=
  (Node.withElders [] root.children).filterMap fun (before, n) => l.item? before n

end Lowering

namespace SourceUnit

/-- The unit that a tree of a source text stands for, under a name. -/
def ofTree (name source : String) (root : Node) : SourceUnit :=
  { name, items := ({ source, unit := name } : Lowering).items root }

/-- The units of some source texts under their names, as a parser reads them. -/
def ofTexts (parse : String → Node) (texts : List (String × String)) : List SourceUnit :=
  texts.map fun file => ofTree file.1 file.2 (parse file.2)

end SourceUnit

end GoAtlas
