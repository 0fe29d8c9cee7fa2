import GoAtlas.Proofs.Extraction.Units
import GoAtlas.Proofs.Graph.Searches
import GoAtlas.Proofs.View.Expansion

/-!
# Which cycles a flattened view marks

A flattened view is marked with a cycle when embeddings lead from the struct back to it by the names
that they resolve to (`cycleThrough?_isSome_iff`). The expansion, however, follows aliases. In a
graph that comes from source text the mark stands for those cycles of the expansion that pass no
alias (`cycle_marks_direct`): there every embedding is owned by a struct, so every name that a
marked cycle passes is a struct and no alias.

A cycle that passes an alias is therefore not marked, and the fields of its types are promoted as if
there were none (`cycle_through_alias_unmarked`).
-/

namespace GoAtlas

namespace TypeGraph

open Relation (ReflTransGen TransGen)

variable {g : TypeGraph} {a b name : String} {direct : List Field}

/-- One type is expanded to another without an alias between them. -/
def ExpandsDirectly (g : TypeGraph) (a b : String) : Prop :=
  ∃ e ∈ g.embeddingsFrom a, g.resolve e.target = .declared b ∧ g.followAliases b = .ok b

/-- A type is expanded to those that its embeddings ask to visit. -/
theorem expands_of_mem_visits {v : Visit} {via : List String} (h : v ∈ g.visits a via) :
    g.Expands a v.name := by
  obtain ⟨e, he, hvisit⟩ := List.mem_filterMap.mp h
  split at hvisit
  · rename_i name declared hembedded
    obtain rfl := Option.some.inj hvisit
    exact ⟨e, he, name, embedded_eq_ok_iff.mp hembedded⟩
  · cases hvisit

/-- **A cycle is found** through a name exactly when embeddings lead from the name back to it. -/
theorem cycleThrough?_isSome_iff : (g.cycleThrough? a).isSome ↔ TransGen g.Embeds a a := by
  rw [cycleThrough?, Walk.closedWalkOnStack?_eq,
    Walk.closedWalk?_isSome_iff g.targets_subset_names, leads_targets]
  rw [length_names]
  exact Nat.lt_succ_self _

/-! ## Cycles without aliases -/

theorem ExpandsDirectly.embeds (h : g.ExpandsDirectly a b) : g.Embeds a b := by
  obtain ⟨e, he, hresolve, -⟩ := h
  obtain ⟨hmem, howner⟩ := mem_embeddingsFrom_iff.mp he
  exact ⟨e, hmem, howner, hresolve⟩

theorem Embeds.expandsDirectly (h : g.Embeds a b) (hb : g.IsPlain b) : g.ExpandsDirectly a b := by
  obtain ⟨e, hmem, howner, hresolve⟩ := h
  exact ⟨e, mem_embeddingsFrom_iff.mpr ⟨hmem, howner⟩, hresolve, followAliases_of_isPlain hb⟩

/-- When the embeddings are those of the declarations, only structs own any. -/
theorem OwnsEmbeddings.isPlain_owner (hg : g.OwnsEmbeddings) {e : Embedding}
    (he : e ∈ g.embeddings) : g.IsPlain e.owner := by
  rw [hg] at he
  obtain ⟨d, hd, he⟩ := List.mem_flatMap.mp he
  rw [owner_of_mem_embeddings he]
  refine ⟨d, find?_of_mem hd, fun target htarget => ?_⟩
  have hnone : d.embeddings = [] := by
    rw [Declaration.embeddings, Declaration.fields, htarget]
    rfl
  rw [hnone] at he
  cases he

theorem OwnsEmbeddings.isPlain (hg : g.OwnsEmbeddings) (h : g.Embeds a b) : g.IsPlain a := by
  obtain ⟨e, he, rfl, -⟩ := h
  exact hg.isPlain_owner he

/-- A way that ends at a struct passes structs only, since from each name that it passes an
embedding leads on. -/
theorem OwnsEmbeddings.transGen_expandsDirectly (hg : g.OwnsEmbeddings)
    (h : TransGen g.Embeds a b) : g.IsPlain b → TransGen g.ExpandsDirectly a b := by
  induction h with
  | single hl =>
    intro hb
    exact .single (hl.expandsDirectly hb)
  | tail _ hl ih =>
    intro hc
    exact (ih (hg.isPlain hl)).tail (hl.expandsDirectly hc)

/-- The cycles through a struct are the cycles of its expansion that pass no alias. -/
theorem OwnsEmbeddings.transGen_embeds_iff (hg : g.OwnsEmbeddings) (ha : g.IsPlain a) :
    TransGen g.Embeds a a ↔ TransGen g.ExpandsDirectly a a :=
  ⟨fun h => hg.transGen_expandsDirectly h ha,
    fun h => TransGen.mono (fun _ _ hl => ExpandsDirectly.embeds hl) _ _ h⟩

/-- A view is marked when a cycle is found, and has the direct fields only when it is marked. -/
theorem flattened_marked (h : g.lookupStruct name = .ok direct) : ∃ v, g.flattened name = .ok v ∧
    (v.cycle.isSome ↔ TransGen g.Embeds name name) ∧
    (v.cycle.isSome → v.fields = ownFields name [] 0 direct) := by
  rw [flattened_eq h, ← cycleThrough?_isSome_iff]
  rcases g.cycleThrough? name with _ | path
  · exact ⟨_, rfl, Iff.rfl, nofun⟩
  · exact ⟨_, rfl, Iff.rfl, fun _ => rfl⟩

end TypeGraph

namespace Extraction

open Relation (TransGen)

/-- The graph of several units has the embeddings of its own declarations. -/
theorem ownsEmbeddings_ofUnits (s : Settings) (us : List SourceUnit) :
    (ofUnits s us).graph.OwnsEmbeddings :=
  (sumsUp_joinUnits s.toConfig us).embeddings

/-- **What the mark of a flattened view stands for**: in a graph that is extracted from units, the
view of a struct is marked with a cycle, and has the direct fields only, exactly when embeddings
lead from the struct back to it without passing an alias. -/
theorem cycle_marks_direct (s : Settings) (us : List SourceUnit) {name : String}
    {direct : List Field} (h : (ofUnits s us).graph.lookupStruct name = .ok direct) :
    ∃ v, (ofUnits s us).graph.flattened name = .ok v ∧
      (v.cycle.isSome ↔ TransGen (ofUnits s us).graph.ExpandsDirectly name name) ∧
      (v.cycle.isSome → v.fields = TypeGraph.ownFields name [] 0 direct) := by
  obtain ⟨v, hv, hcycle, hfields⟩ := TypeGraph.flattened_marked h
  rw [(ownsEmbeddings_ofUnits s us).transGen_embeds_iff
    (TypeGraph.isPlain_of_lookupStruct h)] at hcycle
  exact ⟨v, hv, hcycle, hfields⟩

/-- A struct `T` that embeds `B`, the alias `B` of `C`, and the struct `C` that embeds `T`. -/
def aliasedCycle : List SourceUnit :=
  let renamed : TypeSpec :=
    { name := some "B"
      doc := none
      typeParams := none
      isAlias := true
      type := some (.named none "C")
      position := ⟨"", 2, 1⟩ }
  [⟨"", [.single (embedder "T" "B" 1), .single renamed, .single (embedder "C" "T" 3)]⟩]

theorem cycle_marks_direct_aliasedCycle :
    let g := (ofUnits default aliasedCycle).graph
    ∃ direct, g.lookupStruct "T" = .ok direct ∧ ∃ v, g.flattened "T" = .ok v ∧
      (v.cycle.isSome ↔ TransGen g.ExpandsDirectly "T" "T") := by
  intro g
  obtain ⟨direct, hdirect⟩ : ∃ direct, g.lookupStruct "T" = .ok direct := ⟨_, rfl⟩
  obtain ⟨v, hv, hcycle, -⟩ := cycle_marks_direct default aliasedCycle hdirect
  exact ⟨direct, hdirect, v, hv, hcycle⟩

/-- A cycle that passes an alias is a cycle of the expansion, but the view is not marked. -/
theorem cycle_through_alias_unmarked :
    let g := (ofUnits default aliasedCycle).graph
    TransGen g.Expands "T" "T" ∧ ∃ v, g.flattened "T" = .ok v ∧ v.cycle = none := by
  intro g
  have hfirst : ⟨"C", ["B"]⟩ ∈ (ofUnits default aliasedCycle).graph.visits "T" [] := by decide
  have hsecond : ⟨"T", ["T"]⟩ ∈ (ofUnits default aliasedCycle).graph.visits "C" [] := by decide
  have hcycle : ((ofUnits default aliasedCycle).graph.flattened "T").map Flattened.cycle =
      .ok none := by decide
  have hloop : TransGen g.Expands "T" "T" :=
    .tail (.single (TypeGraph.expands_of_mem_visits hfirst))
      (TypeGraph.expands_of_mem_visits hsecond)
  refine ⟨hloop, ?_⟩
  rcases hv : g.flattened "T" with e | v
  · rw [hv] at hcycle
    cases hcycle
  · rw [hv] at hcycle
    exact ⟨v, rfl, Except.ok.inj hcycle⟩

end Extraction

end GoAtlas
