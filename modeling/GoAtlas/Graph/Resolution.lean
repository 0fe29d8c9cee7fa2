import GoAtlas.Graph.Basic

/-!
# Resolution of references

A reference resolves to a declared name or leads out of the graph; in the second case the reason is
kept. An alias can be followed to the declaration at the end of its chain, unless the chain leaves
the graph or runs into itself.
-/

namespace GoAtlas

/-- Why a reference leads out of the graph. -/
inductive ExternalReason where
  /-- It names a type of another package. -/
  | qualified (package name : String)
  | predeclared (name : String)
  /-- It names a type that is not declared. -/
  | undeclared (name : String)
  /-- It does not name a type. -/
  | unnamed (text : String)
  deriving DecidableEq, Repr, Inhabited

/-- Where a reference leads. -/
inductive Resolution where
  | declared (name : String)
  | external (reason : ExternalReason)
  deriving DecidableEq, Repr, Inhabited

namespace Resolution

/-- The declared name that a reference leads to. -/
def declared? : Resolution → Option String
  | declared name => some name
  | external _ => none

/-- Whether the reference leads out of the graph. -/
def isExternal : Resolution → Bool
  | declared _ => false
  | external _ => true

/-- Whether the reference leads to a type that could have been declared: one of another package or
an undeclared name. -/
def isUnresolvedName : Resolution → Bool
  | external (.qualified ..) | external (.undeclared _) => true
  | _ => false

end Resolution

namespace TypeGraph

/-- Where a reference leads. -/
def resolve (g : TypeGraph) : Reference → Resolution
  | .named (some package) name _ => .external (.qualified package name)
  | .named none name _ =>
    if g.contains name then .declared name else .external (.undeclared name)
  | .predeclared name => .external (.predeclared name)
  | reference => .external (.unnamed reference.display)

/-- Where the target of an alias leads; nothing for the other shapes. -/
def resolveAlias (g : TypeGraph) (d : Declaration) : Option Resolution :=
  match d.shape with
  | .aliasType target => some (g.resolve target)
  | _ => none

/-- The end of the chain of aliases from a name, when the names in `seen` have been passed. The
chain fails with what could not be followed: a name that is not declared, a name that comes round
again, or the target that leads out of the graph. -/
def chase (g : TypeGraph) : Nat → List String → String → Except String String
  | 0, _, current => .error current
  | fuel + 1, seen, current =>
    if seen.contains current then .error current
    else
      match g.find? current with
      | none => .error current
      | some d =>
        match d.shape with
        | .aliasType target =>
          match g.resolve target with
          | .declared next => g.chase fuel (current :: seen) next
          | .external _ => .error target.display
        | _ => .ok current

/-- The declared name, not itself an alias, at the end of the chain of aliases from a name; or what
could not be followed. Each step passes a new declared name, so one step more than there are
declarations is enough. -/
def followAliases (g : TypeGraph) (name : String) : Except String String :=
  g.chase (g.declarations.length + 1) [] name

/-- The declared names that a name embeds, in order. -/
def targets (g : TypeGraph) (name : String) : List String :=
  (g.embeddingsFrom name).filterMap fun e => e.targetName?.filter g.contains

/-- The places of the declared names that a name embeds, in order. -/
def targetIndices (g : TypeGraph) (name : String) : List Nat :=
  (g.embeddingsFrom name).filterMap fun e => e.targetName?.bind g.indexOf?

/-- The embeddings between declared names, by the places of the names, in order. -/
def embeddingGraph (g : TypeGraph) : List (Nat × Nat) :=
  g.embeddings.filterMap fun e =>
    match g.indexOf? e.owner, e.targetName?.bind g.indexOf? with
    | some source, some target => some (source, target)
    | _, _ => none

end TypeGraph

end GoAtlas
