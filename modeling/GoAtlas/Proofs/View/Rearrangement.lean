import GoAtlas.Proofs.Extraction.Units
import GoAtlas.Proofs.Graph.Rearrangement
import GoAtlas.Proofs.View.Likeness

/-!
# Views and the order of declarations

A graph and one that rearranges it answer alike, so they have the same views
(`Rearranges.flattened_eq` and the laws beside it).

Extractions of the same declarations of the source in two orders rearrange each other when no name
is declared twice, however the declarations are spread over units and groups. So the order in which
types are declared cannot be told from any answer (`ofUnits_perm`).
-/

namespace GoAtlas

namespace TypeGraph.Rearranges

variable {g h : TypeGraph} (hr : h.Rearranges g)
include hr

theorem lookup_eq (name : String) : h.lookup name = g.lookup name := by
  rw [lookup, hr.find?_eq, lookup]

/-- **The flattened view** of a name is the same, with its promoted fields in the same order: the
order in which they are found goes along the embeddings of one type. -/
theorem flattened_eq (name : String) : h.flattened name = g.flattened name :=
  hr.alike.flattened_eq name

theorem fieldPaths_eq (name : String) : h.fieldPaths name = g.fieldPaths name :=
  hr.alike.fieldPaths_eq name

/-- So is the method set, which is made from what names stand for. -/
theorem methodSet_eq (expand : Bool) (name : String) :
    h.methodSet expand name = g.methodSet expand name :=
  hr.alike.methodSet_eq expand name

end TypeGraph.Rearranges

namespace Extraction

variable {config : Config} {x y : Extraction} {specs more : List TypeSpec}

/-- The names of the candidates are the names that they declare. -/
theorem map_name_declared (config : Config) (specs : List TypeSpec) :
    (declared config specs).map Declaration.name =
      (Candidate.ofSpecs specs).1.map Candidate.name := by
  rw [declared, TypeGraph.declarationsOf, List.map_map]
  rfl

/-- The same declarations of the source in another order declare the same, in another order. -/
theorem declared_perm (h : specs.Perm more) :
    (declared config specs).Perm (declared config more) :=
  (h.filterMap _).map _

/-- Without names declared twice nothing is left out. -/
theorem SumsUp.declarations_eq (hx : SumsUp config x specs)
    (hnames : ((Candidate.ofSpecs specs).1.map Candidate.name).Nodup) :
    x.graph.declarations = declared config specs := by
  rw [hx.declarations]
  exact firsts_nil_of_nodup (map_name_declared config specs ▸ hnames)

/-- What sums up the same declarations in two orders differs in the order only. -/
theorem SumsUp.rearranges (hx : SumsUp config x specs) (hy : SumsUp config y more)
    (hperm : specs.Perm more)
    (hnames : ((Candidate.ofSpecs specs).1.map Candidate.name).Nodup) :
    y.graph.Rearranges x.graph := by
  have hcandidates : ((Candidate.ofSpecs specs).1.map Candidate.name).Perm
      ((Candidate.ofSpecs more).1.map Candidate.name) := (hperm.filterMap _).map _
  refine hx.embeddings.rearranges hy.embeddings ?_
  rw [hx.declarations_eq hnames, hy.declarations_eq (hcandidates.nodup_iff.mp hnames)]
  exact declared_perm hperm.symm

/-- The reports of cycles are those of the graph, if they are asked for. -/
theorem cycleReports_ofUnits (s : Settings) (us : List SourceUnit) :
    (ofUnits s us).cycleReports =
      if s.detectCycles then (ofUnits s us).graph.cycleDiagnostics else [] := by
  rw [ofUnits, (sumsUp_joinUnits s.toConfig us).cycleReports_finish]
  refine List.filter_eq_self.mpr fun d hd => ?_
  split at hd
  · obtain ⟨path, -, rfl⟩ := List.mem_map.mp hd
    rfl
  · cases hd

/-- **The order of declarations matters only for names declared twice.** Units that hold the same
declarations in two orders, no name twice among those that are candidates, give graphs that answer
alike: on every name, whatever is asked, and in their counters. The same types are marked with a
cycle, and as many cycles are reported. -/
theorem ofUnits_perm (s : Settings) {us vs : List SourceUnit}
    (hperm : (us.flatMap SourceUnit.specs).Perm (vs.flatMap SourceUnit.specs))
    (hnames : ((Candidate.ofSpecs (us.flatMap SourceUnit.specs)).1.map Candidate.name).Nodup) :
    let g := (ofUnits s us).graph
    let h := (ofUnits s vs).graph
    (∀ name, h.lookup name = g.lookup name) ∧
      (∀ r, h.resolve r = g.resolve r) ∧
      (∀ name, h.followAliases name = g.followAliases name) ∧
      (∀ name, h.flattened name = g.flattened name) ∧
      (∀ name, h.fieldPaths name = g.fieldPaths name) ∧
      (∀ expand name, h.methodSet expand name = g.methodSet expand name) ∧
      h.stats = g.stats ∧
      (∀ name, (∃ v, h.flattened name = .ok v ∧ v.cycle.isSome) ↔
        ∃ v, g.flattened name = .ok v ∧ v.cycle.isSome) ∧
      (ofUnits s vs).cycleReports.length = (ofUnits s us).cycleReports.length := by
  intro g h
  have hr : h.Rearranges g := by
    have hus := sumsUp_joinUnits s.toConfig us
    exact (hus.rearranges (sumsUp_joinUnits s.toConfig vs) hperm hnames :)
  refine ⟨hr.lookup_eq, hr.resolve_eq, hr.followAliases_eq, hr.flattened_eq, hr.fieldPaths_eq,
    hr.methodSet_eq, hr.stats_eq, fun name => by rw [hr.flattened_eq], ?_⟩
  rw [cycleReports_ofUnits, cycleReports_ofUnits]
  split
  · rw [TypeGraph.cycleDiagnostics, TypeGraph.cycleDiagnostics, List.length_map, List.length_map]
    exact hr.length_embeddingCycles
  · rfl

/-- Two structs that embed each other and a third that embeds one of them, in one group or in two
units the other way round: the cycle is reported from another member, and everything else is the
same. -/
theorem ofUnits_perm_of_reversed :
    let a := embedder "A" "B" 1
    let b := embedder "B" "A" 2
    let c := embedder "C" "B" 3
    let us : List SourceUnit := [⟨"all", [.group ⟨"", 1, 1⟩ [a, b, c]]⟩]
    let vs : List SourceUnit := [⟨"first", [.single c, .single b]⟩, ⟨"second", [.single a]⟩]
    let g := (ofUnits default us).graph
    let h := (ofUnits default vs).graph
    (us.flatMap SourceUnit.specs).Perm (vs.flatMap SourceUnit.specs) ∧
      ((Candidate.ofSpecs (us.flatMap SourceUnit.specs)).1.map Candidate.name).Nodup ∧
      h.flattened "C" = g.flattened "C" ∧
      g.embeddingCycles = [["A", "B", "A"]] ∧ h.embeddingCycles = [["B", "A", "B"]] := by
  intro a b c us vs g h
  have hperm : (us.flatMap SourceUnit.specs).Perm (vs.flatMap SourceUnit.specs) :=
    List.reverse_perm [c, b, a]
  have hnames : ((Candidate.ofSpecs (us.flatMap SourceUnit.specs)).1.map Candidate.name).Nodup := by
    decide +kernel
  obtain ⟨-, -, -, hflattened, -⟩ := ofUnits_perm default hperm hnames
  exact ⟨hperm, hnames, hflattened "C", by decide +kernel, by decide +kernel⟩

end Extraction

end GoAtlas
