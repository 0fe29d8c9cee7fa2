import GoAtlas.Graph.Cycles
import GoAtlas.View.Lookup

/-!
# Flattened structs

The flattened view of a struct lists its direct fields and then the fields that it gets from the
types that it embeds, those from the types that these embed, and so on, level by level. A name hides
the same name on later levels, and on one level the embedding written first wins. Each type is
expanded once, where it is met first; embedded aliases are followed to the type that they name.

A struct on a cycle of embeddings is not expanded: its view has the direct fields and the cycle.
-/

namespace GoAtlas

/-- A field of a flattened struct: the type that declares it, the embedded types passed on the way
to that type, and their number. -/
structure PromotedField where
  field : Field
  owner : String
  via : List String
  level : Nat
  deriving DecidableEq, Inhabited

/-- The flattened view of a struct. The embedded types that could not be expanded are kept as
text. -/
structure Flattened where
  typeName : String
  fields : List PromotedField
  cycle : Option (List String)
  unresolved : List String
  deriving DecidableEq, Inhabited

namespace Flattened

/-- The names of the fields, in order. -/
def names (v : Flattened) : List String :=
  v.fields.map fun f => f.field.name

/-- The report of the cycle that keeps a struct from being expanded. -/
def cycleDiagnostic? (v : Flattened) : Option Diagnostic :=
  v.cycle.map fun path => .cycle path none

end Flattened

/-- A type to be expanded, with the embedded types passed on the way to it. -/
structure Visit where
  name : String
  via : List String
  deriving DecidableEq, Inhabited

/-- How far the expansion of a struct has come: the fields found, the names expanded, the embedded
types of the next level, and the text of those that could not be expanded. -/
structure Expansion where
  fields : List PromotedField
  expanded : List String
  next : List Visit
  unresolved : List String
  deriving DecidableEq, Inhabited

namespace TypeGraph

/-- The declared type that an embedding leads to and the name by which it does so; or the text of
the embedding when it leads out of the graph. -/
def embedded (g : TypeGraph) (e : Embedding) : Except String (String × String) :=
  match g.resolve e.target with
  | .external _ => .error e.target.display
  | .declared name =>
    match g.followAliases name with
    | .ok declared => .ok (name, declared)
    | .error _ => .error e.target.display

/-- The visits that the embeddings of a type ask for, when `via` was passed on the way to it. -/
def visits (g : TypeGraph) (owner : String) (via : List String) : List Visit :=
  (g.embeddingsFrom owner).filterMap fun e =>
    match g.embedded e with
    | .ok (name, declared) => some { name := declared, via := via ++ [name] }
    | .error _ => none

/-- The text of the embeddings of a type that lead out of the graph. -/
def unresolvedOf (g : TypeGraph) (owner : String) : List String :=
  (g.embeddingsFrom owner).filterMap fun e =>
    match g.embedded e with
    | .ok _ => none
    | .error text => some text

/-- The direct fields of a type as fields of a view. -/
def ownFields (owner : String) (via : List String) (level : Nat) (fields : List Field) :
    List PromotedField :=
  fields.map fun field => { field, owner, via, level }

/-- Adds the fields whose names are not there yet. -/
def promote (found : List PromotedField) : List PromotedField → List PromotedField
  | [] => found
  | f :: rest =>
    if found.any (·.field.name == f.field.name) then promote found rest
    else promote (found ++ [f]) rest

/-- Expands one type on a level, unless it has been expanded before. -/
def expandVisit (g : TypeGraph) (level : Nat) (x : Expansion) (v : Visit) : Expansion :=
  if x.expanded.contains v.name then x
  else
    match g.find? v.name with
    | none => { x with expanded := v.name :: x.expanded }
    | some d =>
      { fields := promote x.fields (ownFields d.name v.via level d.fields)
        expanded := v.name :: x.expanded
        next := x.next ++ g.visits d.name v.via
        unresolved := x.unresolved ++ g.unresolvedOf d.name }

/-- Expands the types of a level and of those below, while there are any. -/
def expandLevels (g : TypeGraph) : Nat → Nat → Expansion → Expansion
  | 0, _, x => x
  | fuel + 1, level, x =>
    if x.next.isEmpty then x
    else
      g.expandLevels fuel (level + 1)
        (x.next.foldl (g.expandVisit level) { x with next := [] })

/-- The flattened view of a struct. Every level but the last expands a type that was not expanded
before, so one level more than there are declarations is enough. -/
def flattened (g : TypeGraph) (name : String) : Except QueryError Flattened :=
  (g.lookupStruct name).map fun fields =>
    let direct := ownFields name [] 0 fields
    match g.cycleThrough? name with
    | some path =>
      { typeName := name, fields := direct, cycle := some path, unresolved := g.unresolvedOf name }
    | none =>
      let x := g.expandLevels (g.declarations.length + 1) 1
        { fields := direct
          expanded := [name]
          next := g.visits name []
          unresolved := g.unresolvedOf name }
      { typeName := name, fields := x.fields, cycle := none, unresolved := x.unresolved }

end TypeGraph

end GoAtlas
