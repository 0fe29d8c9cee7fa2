import GoAtlas.View.Lookup

/-!
# Method sets

The method set of an interface lists its own methods and then those of the interfaces that it
embeds, one level deep. A name that is already there is not added again. The interfaces that the
embedded ones embed in turn are only named.
-/

namespace GoAtlas

/-- A method with the interface that declares it. -/
structure MethodEntry where
  signature : Signature
  origin : String
  deriving DecidableEq, Inhabited

/-- An embedded interface, and whether its methods have been added. -/
structure EmbeddedInterface where
  reference : Reference
  expanded : Bool
  deriving DecidableEq, Inhabited

/-- The methods of an interface. -/
structure MethodSet where
  interface : String
  methods : List MethodEntry
  embedded : List EmbeddedInterface
  notExpanded : List String
  deriving DecidableEq, Inhabited

namespace MethodSet

/-- The names of the methods, in order. -/
def names (s : MethodSet) : List String :=
  s.methods.map fun m => m.signature.name

/-- Adds methods of one origin whose names are not there yet. -/
def addMethods (origin : String) (methods : List MethodEntry) :
    List Signature → List MethodEntry
  | [] => methods
  | s :: rest =>
    if methods.any (·.signature.name == s.name) then addMethods origin methods rest
    else addMethods origin (methods ++ [{ signature := s, origin }]) rest

/-- Takes an embedded interface into account. Its body is given when it is to be expanded. -/
def embed (s : MethodSet) (reference : Reference) :
    Option (List Signature × List Reference) → MethodSet
  | none =>
    { interface := s.interface
      methods := s.methods
      embedded := s.embedded ++ [{ reference, expanded := false }]
      notExpanded := s.notExpanded }
  | some (methods, embeds) =>
    { interface := s.interface
      methods := addMethods (reference.simpleName?.getD "") s.methods methods
      embedded := s.embedded ++ [{ reference, expanded := true }]
      notExpanded := s.notExpanded ++ embeds.map Reference.display }

end MethodSet

namespace TypeGraph

/-- The methods and embedded interfaces of a reference that names a declared interface. -/
def interfaceBody? (g : TypeGraph) : Reference → Option (List Signature × List Reference)
  | .named none name _ =>
    match (g.find? name).map Declaration.shape with
    | some (.interface methods embeds _) => some (methods, embeds)
    | _ => none
  | _ => none

/-- The method set of an interface; with `expand`, embedded interfaces are taken into account. -/
def methodSet (g : TypeGraph) (expand : Bool) (name : String) : Except QueryError MethodSet :=
  match g.find? name with
  | none => .error (.notFound name)
  | some d =>
    match d.shape with
    | .interface methods embeds _ =>
      .ok <| embeds.foldl
        (fun s reference => s.embed reference (if expand then g.interfaceBody? reference else none))
        { interface := name
          methods := methods.map fun signature => { signature, origin := name }
          embedded := []
          notExpanded := [] }
    | _ => .error (.notAnInterface name)

end TypeGraph

end GoAtlas
