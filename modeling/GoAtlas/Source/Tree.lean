import GoAtlas.Source.Position

/-!
# Syntax trees

A parser cuts a source text into a tree of nodes. A node knows what kind of construct it is, which
part it plays in the node around it (its field), where it starts and where it ends; what it says is
the piece of the text between these two places. Marks and reserved words are nodes as well, whose
kind is their text: they are the anonymous nodes, and all others are named. Comments are named nodes
that may stand among the children of any other node.

A node stands for a part that the text leaves out when it is missing, and for text that fits no
construct when it is an error.
-/

namespace GoAtlas

/-! ## Places -/

/-- A place in a text: the bytes before it, the line feeds before it, and the bytes between the last
of them and the place. -/
structure Place where
  byte : Nat
  row : Nat
  column : Nat
  deriving DecidableEq, Repr, Inhabited

namespace Place

/-- The place before a text. -/
def start : Place :=
  ⟨0, 0, 0⟩

/-- The place behind a character that stands at a place. -/
def step (p : Place) (c : Char) : Place :=
  if c = '\n' then ⟨p.byte + c.utf8Size, p.row + 1, 0⟩
  else ⟨p.byte + c.utf8Size, p.row, p.column + c.utf8Size⟩

/-- The place behind some characters, the first of which stands at a place. -/
def advance (p : Place) (cs : List Char) : Place :=
  cs.foldl step p

/-- The place as a position in a unit, where lines and columns count from one. -/
def position (unit : String) (p : Place) : Position :=
  { unit, line := p.row + 1, column := p.column + 1 }

theorem advance_append (p : Place) (cs ds : List Char) :
    p.advance (cs ++ ds) = (p.advance cs).advance ds :=
  List.foldl_append

end Place

/-! ## Nodes -/

/-- The kinds of node. Constructs that are of no further interest share `other`. -/
inductive NodeKind where
  /-- The root of a tree. -/
  | sourceFile
  | comment
  /-- Text that fits no construct. -/
  | error
  | typeDeclaration
  /-- A declaration that defines a type. -/
  | typeSpec
  /-- A declaration that gives a type another name. -/
  | typeAlias
  | typeParameterList
  | identifier
  | typeIdentifier
  | fieldIdentifier
  | packageIdentifier
  | qualifiedType
  | genericType
  | pointerType
  | parenthesizedType
  | structType
  | fieldDeclarationList
  | fieldDeclaration
  | interfaceType
  | methodElem
  /-- A method of an interface, in older trees. -/
  | methodSpec
  | typeElem
  /-- A set of types in an interface, in older trees. -/
  | constraintElem
  /-- The name of an embedded interface, in older trees. -/
  | interfaceTypeName
  | parameterList
  | parameterDeclaration
  | variadicParameterDeclaration
  /-- A mark or a reserved word. -/
  | symbol (text : String)
  /-- Any other construct, by its name. -/
  | other (name : String)
  deriving DecidableEq, Repr, Inhabited

namespace NodeKind

/-- Whether nodes of a kind are named. -/
def isNamed : NodeKind → Bool
  | symbol _ => false
  | _ => true

/-- Whether nodes of a kind declare one type. -/
def isSpec : NodeKind → Bool
  | typeSpec | typeAlias => true
  | _ => false

/-- Whether nodes of a kind are the name of a type, perhaps with arguments. -/
def isTypeName : NodeKind → Bool
  | typeIdentifier | qualifiedType | genericType => true
  | _ => false

end NodeKind

/-- The parts that a node can play in the node around it. -/
inductive NodeField where
  | name
  | type
  | typeParameters
  | package
  | parameters
  | result
  | tag
  /-- Any other part, by its name. -/
  | other (name : String)
  deriving DecidableEq, Repr, Inhabited

/-- A node of a syntax tree. -/
structure Node where
  kind : NodeKind
  field : Option NodeField
  /-- Whether the node stands for a part that the text leaves out. -/
  isMissing : Bool
  start : Place
  stop : Place
  children : List Node
  deriving Inhabited

namespace Node

/-- Whether a node is neither a mark nor a reserved word. -/
def isNamed (n : Node) : Bool :=
  n.kind.isNamed

/-- The children that are named. -/
def namedChildren (n : Node) : List Node :=
  n.children.filter isNamed

/-- The children in a field. -/
def childrenOf (field : NodeField) (n : Node) : List Node :=
  n.children.filter fun child => child.field == some field

/-- The first child in a field. -/
def child? (field : NodeField) (n : Node) : Option Node :=
  n.children.find? fun child => child.field == some field

mutual

/-- The number of nodes on the longest way down from a node, itself included. -/
def depth : Node → Nat
  | ⟨_, _, _, _, _, children⟩ => depthOfList children + 1

/-- The number of nodes on the longest way down from some nodes. -/
def depthOfList : List Node → Nat
  | [] => 0
  | n :: rest => max n.depth (depthOfList rest)

end

/-- Some nodes, each with those before it, the nearest first. -/
def withElders (elders : List Node) : List Node → List (List Node × Node)
  | [] => []
  | n :: rest => (elders, n) :: withElders (n :: elders) rest

end Node

end GoAtlas
