import GoAtlas.Graph.Cycles
import GoAtlas.Proofs.Graph.Embedding
import Mathlib.Data.List.Nodup
import Mathlib.Data.List.Perm.Basic

/-!
# Strongly connected components

Two names are `Connected` when embeddings lead from each to the other. `IsComponents` says what a
search for strongly connected components of `embeddingGraph` has to answer: every declared name in
exactly one component, and connected names in one. The order of the components, and of the names in
one, is left open. The list `components` is such an answer (`isComponents_components`).
-/

namespace GoAtlas.TypeGraph

open Relation (ReflTransGen)

variable {g : TypeGraph} {a b c : String}

/-- Embeddings lead from each of two names to the other. -/
def Connected (g : TypeGraph) (a b : String) : Prop :=
  ReflTransGen g.Embeds a b ∧ ReflTransGen g.Embeds b a

theorem Connected.refl (a : String) : g.Connected a a := ⟨.refl, .refl⟩

theorem Connected.symm (h : g.Connected a b) : g.Connected b a := ⟨h.2, h.1⟩

theorem Connected.trans (h : g.Connected a b) (h' : g.Connected b c) : g.Connected a c :=
  ⟨h.1.trans h'.1, h'.2.trans h.2⟩

/-- Connected names are connected to the same names. -/
theorem Connected.iff (h : g.Connected a b) : g.Connected a c ↔ g.Connected b c :=
  ⟨h.symm.trans, h.trans⟩

theorem Connected.mem_names (h : g.Connected a b) (ha : a ∈ g.names) : b ∈ g.names :=
  mem_names_of_reflTransGen h.1 ha

/-! ## What a search for components answers -/

/-- An edge of the graph by places, as two names. -/
def Linked (g : TypeGraph) (a b : String) : Prop :=
  ∃ i j, (i, j) ∈ g.embeddingGraph ∧ g.names[i]? = some a ∧ g.names[j]? = some b

/-- A list of the strongly connected components of the graph by places, in any order. -/
structure IsComponents (g : TypeGraph) (components : List (List String)) : Prop where
  /-- no name stands twice, neither in one component nor in two -/
  nodup : components.flatten.Nodup
  /-- the names are the declared names -/
  covers : ∀ a, a ∈ components.flatten ↔ a ∈ g.names
  /-- a component holds the names that can be reached from a member and lead back to it -/
  joins : ∀ members ∈ components, ∀ a ∈ members, ∀ b,
    b ∈ members ↔ ReflTransGen g.Linked a b ∧ ReflTransGen g.Linked b a

/-- Only declared types are vertices. -/
theorem linked_iff : g.Linked a b ↔ a ∈ g.names ∧ g.Embeds a b := by
  constructor
  · rintro ⟨i, j, hij, hi, hj⟩
    obtain ⟨a', b', hi', hj', hl⟩ := mem_embeddingGraph_iff.mp hij
    rw [hi] at hi'
    rw [hj] at hj'
    obtain rfl := Option.some.inj hi'
    obtain rfl := Option.some.inj hj'
    exact ⟨List.mem_of_getElem? hi, hl⟩
  · rintro ⟨ha, hl⟩
    have hi := getElem?_names_eq_some_iff.mpr ⟨ha, rfl⟩
    have hj := getElem?_names_eq_some_iff.mpr ⟨hl.mem_names, rfl⟩
    exact ⟨_, _, mem_embeddingGraph_iff.mpr ⟨a, b, hi, hj, hl⟩, hi, hj⟩

/-- From a declared name the edges by places lead where the embeddings lead. -/
theorem reflTransGen_linked_iff (ha : a ∈ g.names) :
    ReflTransGen g.Linked a b ↔ ReflTransGen g.Embeds a b := by
  constructor
  · intro h
    exact ReflTransGen.mono (fun _ _ hl => (linked_iff.mp hl).2) _ _ h
  · intro h
    induction h with
    | refl => exact .refl
    | tail hab hl ih => exact ih.tail (linked_iff.mpr ⟨mem_names_of_reflTransGen hab ha, hl⟩)

/-- For declared types, walks both ways among the vertices are walks both ways in the graph. -/
theorem linked_both_iff (ha : a ∈ g.names) :
    (ReflTransGen g.Linked a b ∧ ReflTransGen g.Linked b a) ↔ g.Connected a b := by
  rw [reflTransGen_linked_iff ha]
  refine and_congr_right fun hab => ?_
  rw [reflTransGen_linked_iff (mem_names_of_reflTransGen hab ha)]

namespace IsComponents

variable {components : List (List String)} {members : List String}

/-- Components are made of declared types. -/
theorem mem_names (h : g.IsComponents components) (hm : members ∈ components) (ha : a ∈ members) :
    a ∈ g.names :=
  (h.covers a).mp (List.mem_flatten.mpr ⟨members, hm, ha⟩)

/-- The members of a component are the names connected to one of them. -/
theorem mem_iff (h : g.IsComponents components) (hm : members ∈ components) (ha : a ∈ members) :
    b ∈ members ↔ g.Connected a b :=
  (h.joins members hm a ha b).trans (linked_both_iff (h.mem_names hm ha))

theorem nodup_members (h : g.IsComponents components) (hm : members ∈ components) :
    members.Nodup :=
  (List.nodup_flatten.mp h.nodup).1 members hm

/-- Two components at different places share no name. -/
theorem pairwise_disjoint (h : g.IsComponents components) :
    components.Pairwise List.Disjoint :=
  (List.nodup_flatten.mp h.nodup).2

/-- Every declared name stands in a component. -/
theorem exists_mem (h : g.IsComponents components) (ha : a ∈ g.names) :
    ∃ members ∈ components, a ∈ members :=
  List.mem_flatten.mp ((h.covers a).mpr ha)

end IsComponents

/-! ## The components by reachability -/

/-- The search of the closure finds what can be reached. -/
theorem mem_reachable_iff : b ∈ g.reachable a ↔ ReflTransGen g.Embeds a b := by
  rw [← leads_targets]
  exact Walk.mem_closure_iff g.length_targets_le (by omega)

/-- The component of a declared name, as a part of the declared names. -/
theorem component_eq (ha : a ∈ g.names) :
    g.component a =
      g.names.filter fun b => (g.reachable a).contains b && (g.reachable b).contains a := by
  have hlookup : g.reach.lookup a = some (g.reachable a) := List.lookup_graph g.reachable ha
  unfold component componentIn
  rw [hlookup]
  dsimp only [Option.getD_some]
  rw [reach, List.filter_map, List.map_map]
  exact List.map_id' _

/-- The component of a type is what it is connected to. -/
theorem mem_component_iff (ha : a ∈ g.names) : b ∈ g.component a ↔ g.Connected a b := by
  rw [component_eq ha]
  simp only [List.mem_filter, Bool.and_eq_true, List.contains_iff_mem, mem_reachable_iff]
  exact ⟨fun h => h.2, fun h => ⟨h.mem_names ha, h⟩⟩

/-- Connected names have the same component. -/
theorem component_congr (ha : a ∈ g.names) (h : g.Connected a b) :
    g.component a = g.component b := by
  have hb := h.mem_names ha
  rw [component_eq ha, component_eq hb]
  refine List.filter_congr fun x hx => ?_
  rw [Bool.eq_iff_iff]
  simp only [Bool.and_eq_true, List.contains_iff_mem, mem_reachable_iff]
  exact h.iff

theorem nodup_component (ha : a ∈ g.names) : (g.component a).Nodup := by
  rw [component_eq ha]
  exact g.nodup_names.filter _

/-- Each component is listed once, for the first of its members. -/
theorem mem_components_iff {members : List String} :
    members ∈ g.components ↔ ∃ a ∈ g.names, (g.component a).head? = some a ∧
      members = g.component a := by
  simp only [components, List.mem_filterMap, Option.ite_none_right_eq_some, Option.some.injEq]
  constructor
  · rintro ⟨a, ha, hhead, rfl⟩
    exact ⟨a, ha, hhead, rfl⟩
  · rintro ⟨a, ha, hhead, rfl⟩
    exact ⟨a, ha, hhead, rfl⟩

/-- The components listed by reachability are an answer to the search. -/
theorem isComponents_components (g : TypeGraph) : g.IsComponents g.components where
  nodup := by
    refine List.nodup_flatten.mpr ⟨?_, ?_⟩
    · intro members hm
      obtain ⟨a, ha, -, rfl⟩ := mem_components_iff.mp hm
      exact nodup_component ha
    · refine List.pairwise_filterMap.mpr (List.Pairwise.imp_of_mem ?_ g.nodup_names)
      -- a common member makes the two components equal, and so their heads
      intro a b ha hb hne ca hca cb hcb x hxa hxb
      obtain ⟨hheada, hca⟩ := Option.ite_none_right_eq_some.mp hca
      obtain ⟨hheadb, hcb⟩ := Option.ite_none_right_eq_some.mp hcb
      obtain rfl := Option.some.inj hca
      obtain rfl := Option.some.inj hcb
      have hab : g.Connected a b :=
        ((mem_component_iff ha).mp hxa).trans ((mem_component_iff hb).mp hxb).symm
      have hheads : some a = some b := by
        rw [← hheada, ← hheadb]
        exact congrArg List.head? (component_congr ha hab)
      exact hne (Option.some.inj hheads)
  covers := by
    intro a
    rw [List.mem_flatten]
    constructor
    · rintro ⟨members, hm, hin⟩
      obtain ⟨c, hc, -, rfl⟩ := mem_components_iff.mp hm
      exact ((mem_component_iff hc).mp hin).mem_names hc
    · intro ha
      have hself : a ∈ g.component a := (mem_component_iff ha).mpr (Connected.refl a)
      obtain ⟨c, hc⟩ : ∃ c, (g.component a).head? = some c := by
        cases h : g.component a with
        | nil =>
          rw [h] at hself
          cases hself
        | cons c rest => exact ⟨c, rfl⟩
      have hac : g.Connected a c := (mem_component_iff ha).mp (List.mem_of_mem_head? hc)
      refine ⟨g.component a, mem_components_iff.mpr ⟨c, hac.mem_names ha, ?_, ?_⟩, hself⟩
      · rw [← component_congr ha hac, hc]
      · exact component_congr ha hac
  joins := by
    intro members hm a hin b
    obtain ⟨c, hc, -, rfl⟩ := mem_components_iff.mp hm
    have hca := (mem_component_iff hc).mp hin
    rw [linked_both_iff (hca.mem_names hc), mem_component_iff hc]
    exact hca.iff

end GoAtlas.TypeGraph
