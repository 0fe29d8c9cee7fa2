import GoAtlas.Source.TypeExpr

/-!
# Units of source text

What is read from one source file: its type declarations in order, each alone or in a
parenthesised group.
-/

namespace GoAtlas

/-- A type declaration as it is written. A declaration that the source leaves unfinished lacks its
name or its type. -/
structure TypeSpec where
  name : Option String
  doc : Option String
  typeParams : Option String
  isAlias : Bool
  type : Option TypeExpr
  position : Position
  deriving DecidableEq, Inhabited

namespace TypeSpec

/-- A declaration of which only the place is known. -/
def unreadable (position : Position) : TypeSpec :=
  { name := none, doc := none, typeParams := none, isAlias := false, type := none, position }

end TypeSpec

/-- An item at the top level of a unit. -/
inductive Item where
  | single (spec : TypeSpec)
  | group (position : Position) (members : List TypeSpec)
  deriving DecidableEq, Inhabited

namespace Item

/-- The declarations of an item, in order. -/
def specs : Item → List TypeSpec
  | single spec => [spec]
  | group _ members => members

end Item

/-- The type declarations of one source file. -/
structure SourceUnit where
  name : String
  items : List Item
  deriving DecidableEq, Inhabited

namespace SourceUnit

/-- The declarations of a unit in order, whether they stand alone or in a group. -/
def specs (u : SourceUnit) : List TypeSpec :=
  u.items.flatMap Item.specs

end SourceUnit

end GoAtlas
