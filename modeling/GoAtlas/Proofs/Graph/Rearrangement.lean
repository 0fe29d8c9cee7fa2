import GoAtlas.Graph.Stats
import GoAtlas.Proofs.Graph.Build
import GoAtlas.Proofs.Graph.Cycles
import GoAtlas.Proofs.Graph.Likeness

/-!
# Graphs with the same declarations in another order

A graph `Rearranges` another when it has the same declarations in any order and each name owns the
same embeddings in the same order. Two graphs that have the embeddings of their own declarations do
so as soon as their declarations are the same up to order (`OwnsEmbeddings.rearranges`), since the
declaration of a name tells what the name owns.

Each name stands for the same in both graphs, so they answer alike (`Rearranges.alike`), and what is
asked by name is the same. What is counted is the same since the lists counted are the same up to
order.

Components are listed, and reported, in the order of declaration, so the reports of cycles may
differ in their order and in the member from which each cycle is walked. What does not change is
which names make up a component and which components are cycles; therefore the same number of cycles
is reported (`Rearranges.length_embeddingCycles`).
-/

namespace GoAtlas.TypeGraph

variable {g h : TypeGraph} {a b : String} {members : List String}
  {components : List (List String)}

/-- The embeddings of a name are those of its declaration, if there is one. -/
theorem OwnsEmbeddings.embeddingsFrom_eq (hg : g.OwnsEmbeddings) (name : String) :
    g.embeddingsFrom name = (g.find? name).toList.flatMap Declaration.embeddings := by
  have hfilter : g.declarations.filter (fun d => d.name == name) = (g.find? name).toList := by
    rcases hd : g.find? name with _ | d
    · refine List.filter_eq_nil_iff.mpr fun d hd' hname => ?_
      exact find?_eq_none_iff.mp hd (List.mem_map.mpr ⟨d, hd', beq_iff_eq.mp hname⟩)
    · obtain ⟨hmem, rfl⟩ := find?_eq_some_iff.mp hd
      exact filter_name_eq hmem
  rw [embeddingsFrom, hg, filter_flatMap_embeddings (fun owner => owner == name), hfilter]

/-- A graph has the declarations of another in some order, and each name owns the same embeddings in
both. -/
structure Rearranges (h g : TypeGraph) : Prop where
  /-- the declarations are the same up to order -/
  declarations : h.declarations.Perm g.declarations
  /-- so are the embeddings -/
  embeddings : h.embeddings.Perm g.embeddings
  /-- the embeddings of one name keep their order -/
  embeddingsFrom_eq : ∀ name, h.embeddingsFrom name = g.embeddingsFrom name

/-- Of keyed elements with distinct keys the one with a key is found in any order. -/
theorem find?_eq_of_perm (hperm : h.declarations.Perm g.declarations) (name : String) :
    h.find? name = g.find? name := by
  refine Option.ext fun d => ?_
  rw [find?_eq_some_iff, find?_eq_some_iff, hperm.mem_iff]

/-- **The order of declarations** is all that tells apart two graphs that have the embeddings of
their own declarations. -/
theorem OwnsEmbeddings.rearranges (hg : g.OwnsEmbeddings) (hh : h.OwnsEmbeddings)
    (hperm : h.declarations.Perm g.declarations) : h.Rearranges g := by
  refine ⟨hperm, ?_, fun name => ?_⟩
  · rw [hg, hh]
    exact hperm.flatMap_right _
  · rw [hh.embeddingsFrom_eq, hg.embeddingsFrom_eq, find?_eq_of_perm hperm]

namespace Rearranges

variable (hr : h.Rearranges g)
include hr

/-! ## What is asked by name

Names are distinct in both graphs, so the order of the declarations makes no difference to what a
name stands for, and to nothing that is found by names. -/

theorem length_eq : h.declarations.length = g.declarations.length :=
  hr.declarations.length_eq

/-- **A name stands for the same declaration**, since the names are distinct. -/
theorem find?_eq (name : String) : h.find? name = g.find? name :=
  find?_eq_of_perm hr.declarations name

theorem mem_names_iff : a ∈ h.names ↔ a ∈ g.names :=
  (hr.declarations.map Declaration.name).mem_iff

/-- Each name stands for the same declaration in both graphs. -/
theorem alike : h.Alike g where
  length_eq := hr.length_eq
  shape_eq name := by rw [hr.find?_eq]
  embeddingsFrom_eq := hr.embeddingsFrom_eq

theorem resolve_eq (r : Reference) : h.resolve r = g.resolve r :=
  hr.alike.resolve_eq r

theorem followAliases_eq (name : String) : h.followAliases name = g.followAliases name :=
  hr.alike.followAliases_eq name

/-! ## What is counted -/

/-- Counting does not mind the order. -/
theorem stats_eq : h.stats = g.stats := by
  have hshape : ∀ tag, h.countShape tag = g.countShape tag := fun tag =>
    hr.declarations.countP_eq _
  have hresolve : h.resolve = g.resolve := funext hr.resolve_eq
  have halias : h.resolveAlias = g.resolveAlias := by
    funext d
    simp only [resolveAlias, hresolve]
  simp only [stats, hshape, hresolve, halias, hr.length_eq, hr.embeddings.length_eq,
    hr.embeddings.countP_eq, hr.declarations.countP_eq]

/-! ## Cycles -/

/-- The same types embed each other, whichever embedding comes first. -/
theorem embeds_eq : h.Embeds = g.Embeds := by
  rw [← leads_targets, hr.alike.targets_eq, leads_targets]

/-- So the same types are connected. -/
theorem connected_iff : h.Connected a b ↔ g.Connected a b := by
  rw [Connected, hr.embeds_eq, Connected]

theorem onCycle_iff : h.OnCycle a ↔ g.OnCycle a := by
  simp only [OnCycle, hr.connected_iff, hr.embeds_eq]

/-- The components of one graph are those of the other. -/
theorem isComponents (hc : g.IsComponents components) : h.IsComponents components where
  nodup := hc.nodup
  covers a := (hc.covers a).trans hr.mem_names_iff.symm
  joins members hm a ha b := by
    have hmem : a ∈ h.names := hr.mem_names_iff.mpr (hc.mem_names hm ha)
    rw [linked_both_iff hmem, hr.connected_iff]
    exact hc.mem_iff hm ha

end Rearranges

/-- A component gives an entry of the report when it has a member on a cycle. -/
theorem IsComponents.isSome_cycleOf?_iff (hc : g.IsComponents components)
    (hm : members ∈ components) :
    (g.cycleOf? members).isSome ↔ ∃ a ∈ members, g.OnCycle a := by
  rw [Option.isSome_iff_exists]
  constructor
  · rintro ⟨entry, hentry⟩
    obtain ⟨start, hs, -, hcycle, -⟩ := (cycleOf?_eq_some_iff hc hm).mp hentry
    exact ⟨start, hs, hcycle⟩
  · rintro ⟨a, ha, hcycle⟩
    obtain ⟨start, hconn, hfirst⟩ := exists_isFirst (hc.mem_names hm ha)
    exact ⟨_, (cycleOf?_eq_some_iff hc hm).mpr
      ⟨start, (hc.mem_iff hm ha).mpr hconn, hfirst, hcycle.of_connected hconn, rfl⟩⟩

/-- The number of cycles that are reported is the number of components that are cycles. -/
theorem length_cyclesAmong (g : TypeGraph) (components : List (List String)) :
    (g.cyclesAmong components).length =
      components.countP fun members => (g.cycleOf? members).isSome := by
  rw [cyclesAmong, List.length_map, List.length_mergeSort, List.length_filterMap_eq_countP]

/-- **As many cycles are reported** in any order of the declarations: the components are the same,
and the same ones are cycles. -/
theorem Rearranges.length_embeddingCycles (hr : h.Rearranges g) :
    h.embeddingCycles.length = g.embeddingCycles.length := by
  have hg := g.isComponents_components
  have hh := hr.isComponents hg
  have hlisted : h.embeddingCycles = h.cyclesAmong g.components :=
    cyclesAmong_congr h.isComponents_components hh
  rw [hlisted, embeddingCycles, length_cyclesAmong, length_cyclesAmong]
  refine List.countP_congr fun members hm => ?_
  rw [hh.isSome_cycleOf?_iff hm, hg.isSome_cycleOf?_iff hm]
  simp only [hr.onCycle_iff]

end GoAtlas.TypeGraph
