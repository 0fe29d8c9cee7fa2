import GoAtlas.Proofs.Graph.Aliases
import GoAtlas.Proofs.Graph.Embedding
import GoAtlas.Proofs.Graph.Merge

/-!
# Graphs that extend others

A join has the declarations of its first graph in front, and a name that is declared there owns the
same embeddings as before, since whatever the second graph declares under this name is left out with
its embeddings. This is what it takes for answers to last, so it is a relation of its own
(`Extends`, `extends_merge`).

In a graph that extends another, declarations are found as before, references that led to a declared
name lead to it still, chains of aliases that ended end where they did, and embeddings lead from
each declared name at least as far (`Extends.find?_eq`, `Extends.resolve_eq`,
`Extends.followAliases_eq`, `Extends.transGen_embeds`). What led out of the graph may now lead into
it.
-/

namespace GoAtlas.TypeGraph

open Relation (TransGen)

variable {g m h : TypeGraph} {a b name : String}

/-- A graph extends another when it has the declarations of the other in front and no more
embeddings of the names declared there. -/
structure Extends (m g : TypeGraph) : Prop where
  declarations : g.declarations <+: m.declarations
  embeddingsFrom_eq : ∀ name ∈ g.names, m.embeddingsFrom name = g.embeddingsFrom name

/-- **A join extends** its first graph, if every embedding of the second has its owner there. -/
theorem extends_merge (g : TypeGraph) (hh : h.WellFormed) : (g.merge h).1.Extends g := by
  refine ⟨⟨_, (declarations_merge g h).symm⟩, fun name hname => ?_⟩
  have hnone : (h.embeddings.filter fun e => e.owner ∉ g.names).filter (·.owner == name) = [] := by
    rw [List.filter_filter]
    refine List.filter_eq_nil_iff.mpr fun e _ he => ?_
    rw [Bool.and_eq_true, beq_iff_eq, decide_eq_true_eq] at he
    obtain ⟨rfl, hfree⟩ := he
    exact hfree hname
  rw [embeddingsFrom, embeddings_merge hh, List.filter_append, hnone, List.append_nil]
  rfl

namespace Extends

variable (hm : m.Extends g)
include hm

/-! ## Declarations and references -/

theorem length_le : g.declarations.length ≤ m.declarations.length :=
  hm.declarations.length_le

theorem names_subset : g.names ⊆ m.names :=
  List.map_subset _ hm.declarations.subset

/-- A name that is declared stands for the same declaration. -/
theorem find?_eq {d : Declaration} (hd : g.find? a = some d) : m.find? a = some d := by
  rw [find?_eq_some_iff] at hd ⊢
  exact ⟨hm.declarations.subset hd.1, hd.2⟩

/-- Among the names of the smaller graph, lookups agree, whether or not they find anything. -/
theorem find?_eq_of_mem (ha : a ∈ g.names) : m.find? a = g.find? a := by
  rcases hd : g.find? a with _ | d
  · exact absurd ha (find?_eq_none_iff.mp hd)
  · exact hm.find?_eq hd

/-- A reference that leads to a declared name leads there still. -/
theorem resolve_eq {r : Reference} (hr : g.resolve r = .declared b) :
    m.resolve r = .declared b := by
  rw [resolve_eq_declared_iff] at hr ⊢
  exact ⟨hr.1, hm.names_subset hr.2⟩

/-! ## Aliases -/

/-- A type that is no alias stays one. -/
theorem isPlain (ha : g.IsPlain a) : m.IsPlain a := by
  obtain ⟨d, hd, hshape⟩ := ha
  exact ⟨d, hm.find?_eq hd, hshape⟩

/-- A chain of aliases that is followed to its end has the same end, also with more fuel. -/
theorem chase_eq {fuel more : Nat} {seen : List String} (hle : fuel ≤ more) :
    g.chase fuel seen a = .ok b → m.chase more seen a = .ok b := by
  induction fuel generalizing more seen a with
  | zero => intro hchase; cases hchase
  | succ fuel ih =>
    intro hchase
    obtain ⟨more, rfl⟩ : ∃ n, more = n + 1 := ⟨more - 1, by omega⟩
    obtain ⟨hseen, hstep⟩ := chase_succ_eq_ok_iff.mp hchase
    refine chase_succ_eq_ok_iff.mpr ⟨hseen, ?_⟩
    rcases hstep with ⟨rfl, hplain⟩ | ⟨d, target, next, hd, hshape, hnext, hrest⟩
    · exact Or.inl ⟨rfl, hm.isPlain hplain⟩
    · exact Or.inr ⟨d, target, next, hm.find?_eq hd, hshape, hm.resolve_eq hnext,
        ih (Nat.le_of_succ_le_succ hle) hrest⟩

/-- A chain of aliases that ends still ends, at the same type. -/
theorem followAliases_eq (ha : g.followAliases a = .ok b) : m.followAliases a = .ok b :=
  hm.chase_eq (Nat.succ_le_succ hm.length_le) ha

/-! ## Embeddings -/

/-- The embeddings of a type that is declared are kept. -/
theorem embeds (ha : a ∈ g.names) (hab : g.Embeds a b) : m.Embeds a b := by
  obtain ⟨e, he, howner, hresolve⟩ := hab
  have hfrom := mem_embeddingsFrom_iff.mpr ⟨he, howner⟩
  rw [← hm.embeddingsFrom_eq a ha] at hfrom
  obtain ⟨he, howner⟩ := mem_embeddingsFrom_iff.mp hfrom
  exact ⟨e, he, howner, hm.resolve_eq hresolve⟩

/-- Embeddings lead from a declared name wherever they led before. -/
theorem transGen_embeds (ha : a ∈ g.names) (hab : TransGen g.Embeds a b) :
    TransGen m.Embeds a b := by
  induction hab with
  | single hl => exact .single (hm.embeds ha hl)
  | tail hway hl ih =>
    have hmem := mem_names_of_reflTransGen hway.to_reflTransGen ha
    exact ih.tail (hm.embeds hmem hl)

end Extends

end GoAtlas.TypeGraph
