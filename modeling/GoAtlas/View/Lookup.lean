import GoAtlas.Diagnostic
import GoAtlas.Graph.Basic

/-!
# Looking up declarations

A view is asked for by name. The name may not be declared, or its shape may not have the view.
-/

namespace GoAtlas

/-- Why a view cannot be given. -/
inductive QueryError where
  | notFound (name : String)
  | notAStruct (name : String)
  | notAnInterface (name : String)
  deriving DecidableEq, Repr, Inhabited

namespace QueryError

/-- The wording of an error. -/
def message : QueryError → String
  | notFound name => "Type not found: " ++ name
  | notAStruct name => "Type " ++ name ++ " is not a struct"
  | notAnInterface name => "Type " ++ name ++ " is not an interface"

/-- The diagnostic that stands for an error; only an unknown name has one. -/
def diagnostic? : QueryError → Option Diagnostic
  | notFound name => some (.undeclared name)
  | _ => none

end QueryError

namespace TypeGraph

/-- The declaration of a name. -/
def lookup (g : TypeGraph) (name : String) : Except QueryError Declaration :=
  match g.find? name with
  | some d => .ok d
  | none => .error (.notFound name)

/-- The fields of the struct of a name. -/
def lookupStruct (g : TypeGraph) (name : String) : Except QueryError (List Field) :=
  match g.find? name with
  | none => .error (.notFound name)
  | some d =>
    match d.shape with
    | .struct fields => .ok fields
    | _ => .error (.notAStruct name)

end TypeGraph

end GoAtlas
