import GoAtlas.Graph.Build
import GoAtlas.Graph.Cycles

/-!
# Extraction of a graph from source units

Each unit gives a graph of its own; the graphs are joined in the order of the units, so the first
declaration of a name wins across units too. The reports come in the order in which the problems
are met, and those of cycles last.
-/

namespace GoAtlas

/-- A graph with the reports of the pass that made it. -/
structure Extraction where
  graph : TypeGraph
  diagnostics : List Diagnostic
  deriving DecidableEq, Inhabited

namespace Extraction

/-- The graph of one unit, without a search for cycles. -/
def ofItems (config : Config) (items : List Item) : Extraction :=
  let (candidates, faults) := Candidate.ofItems items
  let (graph, reports) := TypeGraph.ofCandidates config candidates
  { graph, diagnostics := faults ++ reports }

/-- Joins the graph of one more unit: first come the reports of the unit, then those of the
declarations that the join leaves out. -/
def join (x y : Extraction) : Extraction :=
  let (graph, reports) := x.graph.merge y.graph
  { graph, diagnostics := x.diagnostics ++ y.diagnostics ++ reports }

/-- The extraction with the reports of cycles, if they are asked for. -/
def finish (config : Config) (x : Extraction) : Extraction :=
  { graph := x.graph
    diagnostics :=
      x.diagnostics ++ if config.detectCycles then x.graph.cycleDiagnostics else [] }

/-- The extraction of one unit. -/
def ofUnit (s : Settings) (u : SourceUnit) : Extraction :=
  (ofItems s.toConfig u.items).finish s.toConfig

/-- Joins the graphs of some units to what is there, without a search for cycles. -/
def joinUnits (config : Config) (x : Extraction) (us : List SourceUnit) : Extraction :=
  us.foldl (fun x u => x.join (ofItems config u.items)) x

/-- The extraction of several units. -/
def ofUnits (s : Settings) (us : List SourceUnit) : Extraction :=
  (joinUnits s.toConfig { graph := .empty, diagnostics := [] } us).finish s.toConfig

end Extraction

end GoAtlas
