import GoAtlas.View.Lookup

/-!
# Paths of fields

Every field of a struct has a path: the names from the direct field down to it through the structs
written in place, joined by dots. Embeddings are not followed.
-/

namespace GoAtlas

/-- A field of a struct with the path that leads to it. -/
structure FieldPath where
  path : String
  reference : Reference
  depth : Nat
  embedded : Bool
  deriving DecidableEq, Inhabited

namespace Field

/-- A path lengthened by a name. -/
def joinPath (path name : String) : String :=
  if path.isEmpty then name else path ++ "." ++ name

mutual

/-- The paths of a field and the fields inside it, the field first. -/
def paths (path : String) : Field → List FieldPath
  | ⟨name, reference, embedded, depth, _, _, children⟩ =>
    { path := joinPath path name, reference, depth, embedded } ::
      pathsOfList (joinPath path name) children

/-- The paths of some fields and the fields inside them, in order. -/
def pathsOfList (path : String) : List Field → List FieldPath
  | [] => []
  | field :: rest => field.paths path ++ pathsOfList path rest

end

end Field

namespace TypeGraph

/-- The paths of all fields of a struct. -/
def fieldPaths (g : TypeGraph) (name : String) : Except QueryError (List FieldPath) :=
  (g.lookupStruct name).map (Field.pathsOfList "")

end TypeGraph

end GoAtlas
