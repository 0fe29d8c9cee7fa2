import GoAtlas.Text.Blank
import GoAtlas.Source.Unit
import GoAtlas.Diagnostic

/-!
# Candidates for the graph

A declaration of the source is a candidate for the graph when it has a name and a type. Whether it
stood alone or in a group no longer shows. Each of the others is reported once.
-/

namespace GoAtlas

/-- A declaration with a name and a type. -/
structure Candidate where
  name : String
  doc : Option String
  typeParams : Option String
  isAlias : Bool
  type : TypeExpr
  position : Position
  deriving DecidableEq, Inhabited

namespace Candidate

/-- The report for a declaration without a name. -/
def nameless (position : Position) : Diagnostic :=
  .malformed position "type declaration has no name" none

/-- The report for a declaration without a type. -/
def typeless (name : String) (position : Position) : Diagnostic :=
  .malformed position ("type declaration " ++ name ++ " has no underlying type") (some name)

/-- The candidate that a declaration makes, or the reason why it makes none. Blanks around the name
do not count. -/
def ofSpec (s : TypeSpec) : Except Diagnostic Candidate :=
  let name := (s.name.map Text.trim).getD ""
  if name.isEmpty then
    .error (nameless s.position)
  else
    match s.type with
    | none | some .missing => .error (typeless name s.position)
    | some type =>
      .ok
        { name
          doc := s.doc
          typeParams := s.typeParams
          isAlias := s.isAlias
          type
          position := s.position }

/-- The candidates among some declarations, and the reports for the others, both in order. -/
def ofSpecs (specs : List TypeSpec) : List Candidate × List Diagnostic :=
  (specs.filterMap fun s => (ofSpec s).toOption,
    specs.filterMap fun s =>
      match ofSpec s with
      | .ok _ => none
      | .error report => some report)

/-- The candidates among the declarations of some items, and the reports for the others. -/
def ofItems (items : List Item) : List Candidate × List Diagnostic :=
  ofSpecs (items.flatMap Item.specs)

/-- Where declarations are cut into two lists makes no difference. -/
theorem ofSpecs_append (a b : List TypeSpec) :
    ofSpecs (a ++ b) =
      ((ofSpecs a).1 ++ (ofSpecs b).1, (ofSpecs a).2 ++ (ofSpecs b).2) := by
  simp [ofSpecs]

end Candidate

end GoAtlas
