import GoAtlas.Proofs.Extraction.Units
import GoAtlas.Proofs.Graph.Merge

/-!
# Extraction in batches

Units can be extracted in batches and the graphs joined afterwards: that gives the graph of one run
over all units (`graph_ofUnits_append`). With the laws of a join, in `merge_monoid`, neither the
size of the batches nor the order in which their graphs are joined makes a difference, as long as
the graphs keep their places.
-/

namespace GoAtlas.Extraction

/-- **Two batches** that are extracted one by one and joined give the graph of one run. -/
theorem graph_ofUnits_append (s : Settings) (us vs : List SourceUnit) :
    (ofUnits s (us ++ vs)).graph = ((ofUnits s us).graph.merge (ofUnits s vs).graph).1 := by
  have hbatches := (sumsUp_joinUnits s.toConfig us).join (sumsUp_joinUnits s.toConfig vs)
  have hrun := sumsUp_joinUnits s.toConfig (us ++ vs)
  rw [List.flatMap_append] at hrun
  exact hrun.graph_eq hbatches

/-- **A join is a monoid that prefers the left**: well-formed graphs are joined to such a graph;
which two of three are joined first makes no difference for the graph, nor for what the reports are
about; the empty graph does nothing on either side; and a graph does nothing to itself but to have
each of its declarations reported. Graphs that are built are well formed, and so the graphs of two
batches of units are joined to the graph of all units. -/
theorem merge_monoid {a b c : TypeGraph} (ha : a.WellFormed) (hb : b.WellFormed)
    (hc : c.WellFormed) :
    (a.merge b).1.WellFormed ∧
      (∀ name, (a.merge b).1.find? name = (a.find? name).or (b.find? name)) ∧
      ((a.merge b).1.merge c).1 = (a.merge (b.merge c).1).1 ∧
      (((a.merge b).2 ++ ((a.merge b).1.merge c).2).map Diagnostic.gist).Perm
        (((b.merge c).2 ++ (a.merge (b.merge c).1).2).map Diagnostic.gist) ∧
      TypeGraph.empty.WellFormed ∧ TypeGraph.empty.merge a = (a, []) ∧
      a.merge .empty = (a, []) ∧
      (a.merge a).1 = a ∧
      (a.merge a).2.map Diagnostic.gist = a.declarations.map Declaration.duplicateGist ∧
      (∀ config cs, (TypeGraph.ofCandidates config cs).1.WellFormed) ∧
      ∀ (s : Settings) (us vs : List SourceUnit),
        (ofUnits s (us ++ vs)).graph = ((ofUnits s us).graph.merge (ofUnits s vs).graph).1 := by
  have hassoc := TypeGraph.merge_assoc (a := a) hb hc
  exact ⟨ha.merge hb, TypeGraph.find?_merge a b, hassoc, TypeGraph.gists_merge_assoc a b c,
    TypeGraph.wellFormed_empty, TypeGraph.empty_merge a, TypeGraph.merge_empty a,
    TypeGraph.merge_self ha, TypeGraph.gists_merge_self a, TypeGraph.wellFormed_ofCandidates,
    graph_ofUnits_append⟩

/-- The graph of one unit with some declarations, each alone. -/
def graphOf (specs : List TypeSpec) : TypeGraph :=
  (ofItems default (specs.map Item.single)).graph

theorem wellFormed_graphOf (specs : List TypeSpec) : (graphOf specs).WellFormed :=
  (sumsUp_ofItems (specs.map Item.single)).embeddings.wellFormed

/-- Three graphs in which `A` embeds another type each time: the first `A` stays, and the embeddings
of the other two go with them, whichever two graphs are joined first. -/
theorem merge_monoid_of_clash :
    let a := graphOf [embedder "A" "B" 1]
    let b := graphOf [embedder "A" "C" 2, embedder "B" "A" 3]
    let c := graphOf [embedder "B" "B" 4, embedder "A" "A" 5, embedder "C" "A" 6]
    a.WellFormed ∧ b.WellFormed ∧ c.WellFormed ∧
      ((a.merge b).1.merge c).1 = (a.merge (b.merge c).1).1 ∧
      ((a.merge b).1.merge c).1.embeddings.map (fun e => (e.owner, e.target.display)) =
        [("A", "B"), ("B", "A"), ("C", "A")] := by
  intro a b c
  have ha : a.WellFormed := wellFormed_graphOf _
  have hb : b.WellFormed := wellFormed_graphOf _
  have hc : c.WellFormed := wellFormed_graphOf _
  obtain ⟨-, -, hassoc, -⟩ := merge_monoid ha hb hc
  exact ⟨ha, hb, hc, hassoc, by decide⟩

end GoAtlas.Extraction
