import GoAtlas.Proofs.Graph.History
import GoAtlas.Proofs.Graph.Rearrangement
import GoAtlas.Proofs.Graph.Searches
import GoAtlas.Proofs.View.Cycles

/-!
# The mark of a cycle and the report of it

A flattened view is marked with the walk that a search finds, and `cycle_mark` says what the mark
means: it is there exactly when a closed walk leads through the struct, it is such a walk, and a
marked view lists what its own embeddings lose.

The report of all cycles looks for its paths in another way: it stays inside a component, and it
starts from the member declared first. For that member the two searches find the same walk
(`cycleThrough?_eq_walkAmong?`), so a view and the report tell of the same cycle in the same words
(`mark_eq_report`).
-/

namespace GoAtlas.TypeGraph

open Relation (ReflTransGen TransGen)

variable {g : TypeGraph} {a name start : String} {direct : List Field} {path : List String}

/-! ## The relation of the search -/

/-- One name embeds another by its text: it owns an embedding whose target is the other name,
without a package, and the other is declared. -/
def EmbedsByName (g : TypeGraph) (a b : String) : Prop :=
  ∃ e ∈ g.embeddings, e.owner = a ∧ e.targetName? = some b ∧ b ∈ g.names

theorem embedsByName_eq (g : TypeGraph) : g.EmbedsByName = g.Embeds := by
  funext a b
  exact propext (exists_congr fun _ => and_congr_right fun _ => and_congr_right fun _ =>
    targetName?_eq_some_iff)

/-! ## What the embeddings lose -/

/-- A reference is lost to a view: it leads out of the graph, or the chain of aliases from the name
that it resolves to fails. -/
def IsLost (g : TypeGraph) (r : Reference) : Prop :=
  (∃ reason, g.resolve r = .external reason) ∨
    ∃ name text, g.resolve r = .declared name ∧ g.followAliases name = .error text

instance (g : TypeGraph) : DecidablePred g.IsLost := fun r =>
  match hresolve : g.resolve r with
  | .external reason => isTrue (Or.inl ⟨reason, hresolve⟩)
  | .declared name =>
    match hfollow : g.followAliases name with
    | .error text => isTrue (Or.inr ⟨name, text, hresolve, hfollow⟩)
    | .ok _ => isFalse (by simp [IsLost, hresolve, hfollow])

/-- The text that a view keeps of an embedding, if the embedding is lost. -/
theorem embedded_eq_error_iff {e : Embedding} {text : String} :
    g.embedded e = .error text ↔ e.target.display = text ∧ g.IsLost e.target := by
  rw [embedded, IsLost]
  rcases hresolve : g.resolve e.target with name | reason
  · rcases hfollow : g.followAliases name with lost | declared
    · simp [hfollow]
    · simp [hfollow]
  · simp

/-- **What a type loses**: the text of those of its embeddings that are lost, in their order. -/
theorem unresolvedOf_eq (g : TypeGraph) (owner : String) : g.unresolvedOf owner =
    ((g.embeddingsFrom owner).filter fun e => g.IsLost e.target).map fun e => e.target.display := by
  rw [unresolvedOf, ← List.filterMap_eq_map, List.filterMap_filter]
  refine List.filterMap_congr fun e _ => ?_
  rcases hembedded : g.embedded e with text | found
  · obtain ⟨rfl, hlost⟩ := embedded_eq_error_iff.mp hembedded
    simp [hlost]
  · have hfound : ¬ g.IsLost e.target := by
      intro hlost
      rw [embedded_eq_error_iff.mpr ⟨rfl, hlost⟩] at hembedded
      cases hembedded
    simp [hfound]

/-- When the embeddings are those of the declarations, a type loses those of its fields. -/
theorem OwnsEmbeddings.unresolvedOf_eq_fieldsOf (hg : g.OwnsEmbeddings) (name : String) :
    g.unresolvedOf name =
      ((g.fieldsOf name).filter fun f => f.embedded ∧ g.IsLost f.reference).map fun f =>
        f.reference.display := by
  rw [TypeGraph.unresolvedOf_eq, hg.embeddingsFrom_eq, fieldsOf]
  rcases g.find? name with _ | d
  · rfl
  · rw [Option.toList_some, List.flatMap_singleton, Declaration.embeddings, List.filter_map,
      List.map_map, List.filter_filter, Option.map_some, Option.getD_some]
    simp [Function.comp_def, Bool.and_comm]

theorem OwnsEmbeddings.unresolvedOf_eq (hg : g.OwnsEmbeddings)
    (h : g.lookupStruct name = .ok direct) : g.unresolvedOf name =
      (direct.filter fun f => f.embedded ∧ g.IsLost f.reference).map fun f =>
        f.reference.display := by
  obtain ⟨d, hfind, hshape⟩ := exists_find?_of_lookupStruct h
  have hfields : g.fieldsOf name = direct := by
    rw [fieldsOf, hfind, Option.map_some, Option.getD_some, Declaration.fields, hshape,
      Shape.fields]
  rw [hg.unresolvedOf_eq_fieldsOf, hfields]

/-! ## The mark -/

/-- A walk that a search finds is closed, and repeats no name but the first. -/
theorem closedWalk_of_cycleThrough? (h : g.cycleThrough? name = some path) :
    (∃ inner, path = name :: inner ++ [name] ∧ (name :: inner).Nodup) ∧
      List.IsChain g.Embeds path := by
  rw [cycleThrough?, Walk.closedWalkOnStack?_eq] at h
  obtain ⟨inner, hpath, hchain, hnodup⟩ := Walk.closedWalk?_eq_some h
  rw [leads_targets] at hchain
  exact ⟨⟨inner, hpath, hnodup⟩, hchain⟩

/-- **The mark of a cycle** in a view is sound and complete: the view of a struct is marked exactly
when a closed walk of embeddings leads through the struct. The mark is such a walk, and a view that
is marked keeps the text of those of the struct's own embeddings that are lost. -/
theorem cycle_mark (h : g.lookupStruct name = .ok direct) : ∃ v, g.flattened name = .ok v ∧
    (v.cycle.isSome ↔ TransGen g.EmbedsByName name name) ∧
    ∀ path, v.cycle = some path →
      (∃ inner, path = name :: inner ++ [name] ∧ (name :: inner).Nodup) ∧
      List.IsChain g.EmbedsByName path ∧
      (v.unresolved = ((g.embeddingsFrom name).filter fun e => g.IsLost e.target).map fun e =>
        e.target.display) ∧
      (g.OwnsEmbeddings → v.unresolved =
        (direct.filter fun f => f.embedded ∧ g.IsLost f.reference).map fun f =>
          f.reference.display) := by
  rw [embedsByName_eq, ← cycleThrough?_isSome_iff, flattened_eq h]
  rcases hcycle : g.cycleThrough? name with _ | path
  · exact ⟨_, rfl, Iff.rfl, nofun⟩
  · refine ⟨_, rfl, Iff.rfl, fun path' hpath => ?_⟩
    obtain rfl := Option.some.inj hpath
    obtain ⟨hclosed, hchain⟩ := closedWalk_of_cycleThrough? hcycle
    exact ⟨hclosed, hchain, unresolvedOf_eq g name, fun hg => hg.unresolvedOf_eq h⟩

/-- A struct `A` on a cycle with `B`. Both embed `D`, which embeds itself, and `A` embeds a name
that is not declared. -/
def entangled : TypeGraph :=
  (ofCandidates default
    [structOf "A" 1 [embeddingOf "D" 2, embeddingOf "B" 3, embeddingOf "X" 4],
      structOf "B" 5 [embeddingOf "D" 6, embeddingOf "A" 7],
      structOf "D" 8 [embeddingOf "D" 9]]).1

theorem cycle_mark_entangled : ∃ direct v, entangled.lookupStruct "A" = .ok direct ∧
    entangled.flattened "A" = .ok v ∧ v.cycle = some ["A", "B", "A"] ∧ v.unresolved = ["X"] ∧
      TransGen entangled.EmbedsByName "A" "A" ∧
        List.IsChain entangled.EmbedsByName ["A", "B", "A"] := by
  obtain ⟨direct, hdirect⟩ : ∃ direct, entangled.lookupStruct "A" = .ok direct := ⟨_, rfl⟩
  obtain ⟨v, hv, hmark, hpath⟩ := cycle_mark hdirect
  have hview : (entangled.flattened "A").map (fun v => (v.cycle, v.unresolved)) =
      .ok (some ["A", "B", "A"], ["X"]) := by decide
  rw [hv] at hview
  obtain ⟨hcycle, hlost⟩ := Prod.mk.inj (Except.ok.inj hview)
  obtain ⟨-, hchain, -⟩ := hpath _ hcycle
  exact ⟨direct, v, hdirect, hv, hcycle, hlost, hmark.mp (by rw [hcycle]; rfl), hchain⟩

/-! ## The report -/

/-- **The two searches agree** on the component of a name that is declared. -/
theorem cycleThrough?_eq_walkAmong? (hs : start ∈ g.names) :
    g.cycleThrough? start = g.walkAmong? start (g.component start) := by
  have hwithin : ∀ x, (g.component start).contains x = true ↔
      ReflTransGen (Walk.Leads g.targets) start x ∧
        ReflTransGen (Walk.Leads g.targets) x start := by
    intro x
    rw [List.contains_iff_mem, mem_component_iff hs, leads_targets]
    exact Iff.rfl
  rw [cycleThrough?, walkAmong?, Walk.closedWalkOnStack?_eq, Walk.closedWalk?_filter hwithin]

/-- A path that is reported is what the search from its first name finds. -/
theorem cycleThrough?_of_mem_embeddingCycles (hpath : path ∈ g.embeddingCycles)
    (hhead : path.head? = some name) : g.cycleThrough? name = some path := by
  obtain ⟨start, hs, hfirst, hcycle, rfl⟩ :=
    (mem_cyclesAmong_iff g.isComponents_components).mp hpath
  have hstart := (isCyclePath_cyclePath hs hfirst hcycle).head?
  obtain rfl : start = name := Option.some.inj (hstart.symm.trans hhead)
  obtain ⟨path, hwalk⟩ := Option.isSome_iff_exists.mp
    (walkAmong?_isSome (fun _ => mem_component_iff hs) hcycle)
  rw [cycleThrough?_eq_walkAmong? hs, cyclePath, hwalk, Option.getD_some]

/-- **The mark is the report**: when the first name of a reported cycle is that of a struct, the
view of the struct is marked with the path of the report. So the diagnostic that the view gives is
that of the report, less the place of the declaration. -/
theorem mark_eq_report {i : Nat} (hpath : g.embeddingCycles[i]? = some path)
    (hhead : path.head? = some name) (h : g.lookupStruct name = .ok direct) :
    ∃ v declaration reported derived, g.flattened name = .ok v ∧ v.cycle = some path ∧
      g.find? name = some declaration ∧ g.cycleDiagnostics[i]? = some reported ∧
      v.cycleDiagnostic? = some derived ∧
      reported.position = some declaration.position ∧ derived = { reported with position := none } := by
  obtain ⟨d, hfind, -⟩ := isPlain_of_lookupStruct h
  have hcycle := cycleThrough?_of_mem_embeddingCycles (List.mem_of_getElem? hpath) hhead
  refine ⟨_, d, .cycle path (some d.position), .cycle path none, flattened_eq h, ?_, hfind, ?_, ?_,
    rfl, rfl⟩
  · rw [hcycle]
  · rw [cycleDiagnostics, List.getElem?_map, hpath, Option.map_some, hhead, Option.bind_some, hfind]
    rfl
  · rw [hcycle]
    rfl

theorem mark_eq_report_entangled :
    entangled.embeddingCycles = [["A", "B", "A"], ["D", "D"]] ∧
      ∃ v d, entangled.flattened "A" = .ok v ∧ v.cycle = some ["A", "B", "A"] ∧
        entangled.cycleDiagnostics[0]? = some d ∧
        v.cycleDiagnostic? = some { d with position := none } := by
  have hentries : entangled.components.filterMap entangled.cycleOf? =
      [(0, ["A", "B", "A"]), (2, ["D", "D"])] := by decide +kernel
  have hcycles : entangled.embeddingCycles = [["A", "B", "A"], ["D", "D"]] := by
    rw [embeddingCycles, cyclesAmong, hentries, List.mergeSort_of_pairwise (by decide)]
    rfl
  obtain ⟨direct, hdirect⟩ : ∃ direct, entangled.lookupStruct "A" = .ok direct := ⟨_, rfl⟩
  have hfirst : entangled.embeddingCycles[0]? = some ["A", "B", "A"] := by rw [hcycles]; rfl
  obtain ⟨v, declaration, d, derived, hv, hcycle, -, hd, hderived, -, rfl⟩ :=
    mark_eq_report hfirst rfl hdirect
  exact ⟨hcycles, v, d, hv, hcycle, hd, hderived⟩

end GoAtlas.TypeGraph
