import GoAtlas.Config
import GoAtlas.Declaration.Shaping
import GoAtlas.Graph.Basic

/-!
# Building and joining graphs

A graph is built from candidates in order; two graphs are joined by adding the declarations of the
second to the first. In both cases a declaration whose name is taken is left out and reported, and
so are the embeddings that it would own.
-/

namespace GoAtlas.TypeGraph

/-- Adds a declaration, or reports that its name is taken. -/
def add (g : TypeGraph) (d : Declaration) : TypeGraph × List Diagnostic :=
  match g.find? d.name with
  | none => (g.insert d, [])
  | some first => (g, [.duplicate d.name d.position first.position])

/-- Adds declarations in order, with the reports of those left out. -/
def addAll (g : TypeGraph) : List Declaration → TypeGraph × List Diagnostic
  | [] => (g, [])
  | d :: rest =>
    let (g', report) := g.add d
    let (g'', reports) := g'.addAll rest
    (g'', report ++ reports)

/-- Adds the declarations of some candidates in order, with the reports of their fields and of those
left out. -/
def addCandidates (config : Config) (g : TypeGraph) :
    List Candidate → TypeGraph × List Diagnostic
  | [] => (g, [])
  | c :: rest =>
    let (d, faults) := Declaration.ofCandidate config c
    let (g', report) := g.add d
    let (g'', reports) := g'.addCandidates config rest
    (g'', faults ++ report ++ reports)

/-- The graph with the embeddings of its own declarations. -/
def withOwnEmbeddings (g : TypeGraph) : TypeGraph :=
  { declarations := g.declarations
    embeddings := g.declarations.flatMap Declaration.embeddings
    distinct := g.distinct }

/-- The graph of some candidates, with the reports. -/
def ofCandidates (config : Config) (cs : List Candidate) : TypeGraph × List Diagnostic :=
  let (g, reports) := empty.addCandidates config cs
  (g.withOwnEmbeddings, reports)

/-- Joins a second graph to a first, with the reports of the declarations left out. -/
def merge (g h : TypeGraph) : TypeGraph × List Diagnostic :=
  let (joined, reports) := g.addAll h.declarations
  ({ declarations := joined.declarations
     embeddings :=
       joined.embeddings ++ h.embeddings.filter fun e => !(h.contains e.owner && g.contains e.owner)
     distinct := joined.distinct },
    reports)

end GoAtlas.TypeGraph
