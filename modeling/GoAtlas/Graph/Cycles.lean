import GoAtlas.Diagnostic
import GoAtlas.Graph.Resolution
import GoAtlas.Graph.Walk

/-!
# Cycles of embeddings

Two declared names belong to one component when embeddings lead from each to the other. A component
is a cycle when it has several members or its only member embeds itself. Each cycle is reported
once, as a closed path that starts at the member declared first; the cycles come in the order of
these members.
-/

namespace GoAtlas.TypeGraph

/-- The declared names that embeddings lead to from a name, the name itself included. -/
def reachable (g : TypeGraph) (name : String) : List String :=
  Walk.closure g.targets (g.embeddings.length + 2) [name] []

/-- What can be reached from each declared name, in the order of declaration. -/
def reach (g : TypeGraph) : List (String × List String) :=
  g.names.map fun name => (name, g.reachable name)

/-- The names that belong to one component with a name: those that can be reached from it and from
which it can be reached. -/
def componentIn (reach : List (String × List String)) (name : String) : List String :=
  let forward := (reach.lookup name).getD []
  (reach.filter fun (other, back) => forward.contains other && back.contains name).map Prod.fst

/-- The declared names that belong to one component with a name, in the order of declaration. -/
def component (g : TypeGraph) (name : String) : List String :=
  componentIn g.reach name

/-- A closed walk of embeddings through a name. -/
def cycleThrough? (g : TypeGraph) (name : String) : Option (List String) :=
  Walk.closedWalkOnStack? g.targets (g.declarations.length + 1) name

/-- The components, each with its members in the order of declaration. -/
def components (g : TypeGraph) : List (List String) :=
  let reach := g.reach
  g.names.filterMap fun name =>
    let members := componentIn reach name
    if members.head? = some name then some members else none

/-- The member of a component that is declared first. -/
def first? (g : TypeGraph) (members : List String) : Option String :=
  g.names.find? members.contains

/-- A closed walk of embeddings through `start` that stays among some names. -/
def walkAmong? (g : TypeGraph) (start : String) (members : List String) : Option (List String) :=
  Walk.closedWalk? (fun name => (g.targets name).filter members.contains)
    (g.declarations.length + 1) start

/-- The closed path that reports the cycle of a component from its first member: a walk, or all the
members if there were none. -/
def cyclePath (g : TypeGraph) (start : String) (members : List String) : List String :=
  (g.walkAmong? start members).getD (g.names.filter members.contains ++ [start])

/-- The place of the first member of a component and the path of its cycle, if the component is a
cycle. -/
def cycleOf? (g : TypeGraph) (members : List String) : Option (Nat × List String) :=
  (g.first? members).bind fun start =>
    if 1 < members.length ∨ start ∈ g.targets start then
      some (g.names.idxOf start, g.cyclePath start members)
    else none

/-- The cycles among some components, which may come in any order. -/
def cyclesAmong (g : TypeGraph) (components : List (List String)) : List (List String) :=
  ((components.filterMap g.cycleOf?).mergeSort fun a b => a.1 ≤ b.1).map Prod.snd

/-- The cycles of embeddings, as closed paths. -/
def embeddingCycles (g : TypeGraph) : List (List String) :=
  g.cyclesAmong g.components

/-- The reports of the cycles, each at the place of the member declared first. -/
def cycleDiagnostics (g : TypeGraph) : List Diagnostic :=
  g.embeddingCycles.map fun path =>
    .cycle path ((path.head?.bind g.find?).map Declaration.position)

end GoAtlas.TypeGraph
