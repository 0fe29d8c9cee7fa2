import GoAtlas.Proofs.Graph.Build
import GoAtlas.Proofs.Graph.Embedding

/-!
# Joining several graphs

A join is associative, with the empty graph on either side of it, and a graph that is joined to
itself stays as it is (`merge_assoc`, `empty_merge`, `merge_empty`, `merge_self`). The first graph
has the last word: what a name stands for in a join is what it stands for there, if it is declared
there at all (`find?_merge`).

For the embeddings this rests on `WellFormed`. The embeddings that a join leaves out are those of
the names declared on both sides; only when every embedding has a declared owner are they those of
the names declared on the first side (`embeddings_merge`), and only then does it not matter which
two graphs are joined before the third. A join keeps graphs well formed (`WellFormed.merge`).
-/

namespace GoAtlas.TypeGraph

variable {a b c g h : TypeGraph} {name : String}

theorem wellFormed_empty : empty.WellFormed :=
  nofun

/-- A graph that is built from candidates is well formed. -/
theorem wellFormed_ofCandidates (config : Config) (cs : List Candidate) :
    (ofCandidates config cs).1.WellFormed :=
  (ownsEmbeddings_withOwnEmbeddings _).wellFormed

/-! ## What a join holds -/

theorem names_merge (g h : TypeGraph) : (g.merge h).1.names =
    g.names ++ (firsts Declaration.name g.names h.declarations).map Declaration.name := by
  rw [names, declarations_merge, List.map_append]
  rfl

/-- A join declares the names of both sides. -/
theorem mem_names_merge_iff :
    name ∈ (g.merge h).1.names ↔ name ∈ g.names ∨ name ∈ h.names := by
  rw [names_merge, List.mem_append, mem_map_firsts_iff]
  constructor
  · rintro (hg | ⟨-, hh⟩)
    · exact Or.inl hg
    · exact Or.inr hh
  · rintro (hg | hh)
    · exact Or.inl hg
    · by_cases hg : name ∈ g.names
      · exact Or.inl hg
      · exact Or.inr ⟨hg, hh⟩

/-- **The first graph has the last word** on the names that it declares. -/
theorem find?_merge (g h : TypeGraph) (name : String) :
    (g.merge h).1.find? name = (g.find? name).or (h.find? name) := by
  refine Option.ext fun d => ?_
  rw [Option.or_eq_some_iff, find?_eq_some_iff, find?_eq_some_iff, find?_eq_some_iff,
    find?_eq_none_iff, declarations_merge, List.mem_append, firsts_eq_filter h.distinct,
    List.mem_filter, decide_eq_true_eq]
  constructor
  · rintro ⟨hd | ⟨hd, hfree⟩, rfl⟩
    · exact Or.inl ⟨hd, rfl⟩
    · exact Or.inr ⟨hfree, hd, rfl⟩
  · rintro (⟨hd, rfl⟩ | ⟨hfree, hd, rfl⟩)
    · exact ⟨Or.inl hd, rfl⟩
    · exact ⟨Or.inr ⟨hd, hfree⟩, rfl⟩

theorem WellFormed.merge (hg : g.WellFormed) (hh : h.WellFormed) : (g.merge h).1.WellFormed := by
  intro e he
  rw [embeddings_merge hh, List.mem_append, List.mem_filter] at he
  rcases he with he | ⟨he, -⟩
  · exact mem_names_merge_iff.mpr (Or.inl (hg e he))
  · exact mem_names_merge_iff.mpr (Or.inr (hh e he))

/-! ## Three graphs -/

/-- The names that the first two of three graphs declare are those that the first declares, and
those that it takes from the second. -/
theorem names_subset_names_merge (a b : TypeGraph) : b.names ⊆ (a.merge b).1.names :=
  fun _ hname => mem_names_merge_iff.mpr (Or.inr hname)

/-- **A join is associative**. -/
theorem merge_assoc (hb : b.WellFormed) (hc : c.WellFormed) :
    ((a.merge b).1.merge c).1 = (a.merge (b.merge c).1).1 := by
  refine eq_of_parts ?_ ?_
  · -- what the second graph takes from the third is chosen once more by the first
    rw [declarations_merge, declarations_merge, declarations_merge, declarations_merge,
      firsts_append, ← names_merge, firsts_firsts (names_subset_names_merge a b),
      List.append_assoc]
  · -- an owner is undeclared in a join when it is undeclared on both sides
    have howner : ∀ e : Embedding, decide (e.owner ∉ (a.merge b).1.names) =
        (decide (e.owner ∉ a.names) && decide (e.owner ∉ b.names)) := by
      intro e
      rw [← Bool.decide_and, decide_eq_decide, mem_names_merge_iff, not_or]
    rw [embeddings_merge hc, embeddings_merge hb, embeddings_merge (hb.merge hc),
      embeddings_merge hc, List.filter_append, List.filter_filter, List.append_assoc,
      List.filter_congr fun e _ => howner e]

/-- The declarations left out of three graphs are the same, whichever two are joined first. -/
theorem gists_merge_assoc (a b c : TypeGraph) :
    (((a.merge b).2 ++ ((a.merge b).1.merge c).2).map Diagnostic.gist).Perm
      (((b.merge c).2 ++ (a.merge (b.merge c).1).2).map Diagnostic.gist) := by
  have hout : (repeats Declaration.name b.names c.declarations ++
      repeats Declaration.name (a.merge b).1.names
        (firsts Declaration.name b.names c.declarations)).Perm
      (repeats Declaration.name (a.merge b).1.names c.declarations) :=
    repeats_append_perm (names_subset_names_merge a b)
  rw [List.map_append, List.map_append, gists_merge, gists_merge, gists_merge, gists_merge,
    declarations_merge, repeats_append, ← names_merge, ← List.map_append, ← List.map_append]
  refine List.Perm.map _ ((hout.symm.append_left _).trans ?_)
  exact List.perm_append_comm_assoc _ _ _

/-! ## The empty graph, and one graph twice -/

/-- A graph to which the empty graph is joined stays as it is, without reports. -/
theorem merge_empty (g : TypeGraph) : g.merge empty = (g, []) := by
  refine Prod.ext (eq_of_parts ?_ ?_) rfl
  · rw [declarations_merge]
    exact List.append_nil _
  · rw [embeddings_merge wellFormed_empty]
    exact List.append_nil _

theorem name_mem_names {d : Declaration} (hd : d ∈ g.declarations) : d.name ∈ g.names :=
  List.mem_map_of_mem hd

/-- A well-formed graph that is joined to itself stays as it is. -/
theorem merge_self (hg : g.WellFormed) : (g.merge g).1 = g := by
  refine eq_of_parts ?_ ?_
  · rw [declarations_merge, firsts_eq_nil fun _ => name_mem_names, List.append_nil]
  · have hnone : g.embeddings.filter (fun e => e.owner ∉ g.names) = [] :=
      List.filter_eq_nil_iff.mpr fun e he => by simpa using hg e he
    rw [embeddings_merge hg, hnone, List.append_nil]

/-- Each declaration of a graph that is joined to itself is reported. -/
theorem gists_merge_self (g : TypeGraph) :
    (g.merge g).2.map Diagnostic.gist = g.declarations.map Declaration.duplicateGist := by
  rw [gists_merge, repeats_eq_self fun _ => name_mem_names]

end GoAtlas.TypeGraph
