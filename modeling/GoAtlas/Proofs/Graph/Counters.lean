import GoAtlas.Graph.Stats
import GoAtlas.Proofs.Graph.Extension
import GoAtlas.Proofs.Graph.History

/-!
# Embeddings, resolved and counted

Where an embedding leads is asked in three ways: a reference is resolved to a declared name, the
name of a target is looked up for its place, and the counters tell how many embeddings lead nowhere.
They agree (`targetIndex?_eq`): the graph by places has one edge for each embedding that resolves
(`embeddingGraph_eq`), the places of a name's targets are those of the names that its embeddings
resolve to (`targetIndices_eq`), and the edges and the unresolved embeddings add up to all
embeddings (`counters_agree`).

A join counts the declarations of both graphs but for those that it reports
(`length_declarations_merge`), and what was resolved in the first graph stays so.
-/

namespace GoAtlas.TypeGraph

variable {g h : TypeGraph} {name : String}

/-! ## Edges -/

/-- A declared name is looked up at its place. -/
theorem indexOf?_of_mem (h : name ∈ g.names) : g.indexOf? name = some (g.names.idxOf name) :=
  indexOf?_eq_some_iff.mpr (getElem?_names_eq_some_iff.mpr ⟨h, rfl⟩)

theorem indexOf?_of_not_mem (h : name ∉ g.names) : g.indexOf? name = none := by
  rw [Option.eq_none_iff_forall_ne_some]
  intro i hi
  exact h (List.mem_of_getElem? (indexOf?_eq_some_iff.mp hi))

/-- **Looking up the target** of an embedding is resolving it: the place found is that of the name
that the embedding resolves to. -/
theorem targetIndex?_eq (g : TypeGraph) (e : Embedding) :
    e.targetName?.bind g.indexOf? = (g.resolve e.target).declared?.map g.names.idxOf := by
  rcases hresolve : g.resolve e.target with name | reason
  · obtain ⟨htarget, hmem⟩ := targetName?_eq_some_iff.mpr hresolve
    rw [htarget, Option.bind_some, indexOf?_of_mem hmem]
    rfl
  · refine Option.bind_eq_none_iff.mpr fun name htarget => indexOf?_of_not_mem fun hmem => ?_
    rw [targetName?_eq_some_iff.mp ⟨htarget, hmem⟩] at hresolve
    cases hresolve

/-- The places of the targets of a name are those of the names that its embeddings resolve to. -/
theorem targetIndices_eq (g : TypeGraph) (name : String) :
    g.targetIndices name = (g.embeddingsFrom name).filterMap fun e =>
      (g.resolve e.target).declared?.map g.names.idxOf :=
  List.filterMap_congr fun e _ => g.targetIndex?_eq e

/-- **The graph by places** has one edge for each embedding that resolves, in order. -/
theorem embeddingGraph_eq (hg : g.WellFormed) :
    g.embeddingGraph = g.embeddings.filterMap fun e =>
      (g.resolve e.target).declared?.map fun n => (g.names.idxOf e.owner, g.names.idxOf n) := by
  refine List.filterMap_congr fun e he => ?_
  rw [indexOf?_of_mem (hg e he), targetIndex?_eq]
  cases (g.resolve e.target).declared? <;> rfl

/-- An embedding gives an edge or counts as unresolved. -/
theorem length_embeddingGraph_add (hg : g.WellFormed) :
    g.embeddingGraph.length + g.stats.unresolvedEmbeddings = g.stats.embeddings := by
  have hedge : ∀ e : Embedding, ((g.resolve e.target).declared?.map fun n =>
      (g.names.idxOf e.owner, g.names.idxOf n)).isSome =
        decide ¬(g.resolve e.target).isExternal = true := by
    intro e
    cases g.resolve e.target <;> rfl
  rw [embeddingGraph_eq hg, List.length_filterMap_eq_countP, funext hedge, Nat.add_comm]
  exact (List.length_eq_countP_add_countP _).symm

/-- Every declaration has one of the three shapes. -/
theorem countShape_add (g : TypeGraph) :
    g.countShape .aliasType + g.countShape .struct + g.countShape .interface =
      g.declarations.length := by
  unfold countShape
  induction g.declarations with
  | nil => rfl
  | cons d rest ih =>
    simp only [List.countP_cons, List.length_cons]
    cases d.shape.tag <;> simp <;> omega

/-- What resolves, as the edges of a graph, the targets of its names and its counters tell it. -/
structure CountsUp (g : TypeGraph) : Prop where
  /-- there is one edge for each embedding that resolves, in order, between the places of its names -/
  edges : g.embeddingGraph = g.embeddings.filterMap fun e =>
    (g.resolve e.target).declared?.map fun n => (g.names.idxOf e.owner, g.names.idxOf n)
  /-- an embedding gives an edge or counts as unresolved -/
  edges_add_unresolved :
    g.embeddingGraph.length + g.stats.unresolvedEmbeddings = g.stats.embeddings
  /-- the targets of a name are what its own embeddings resolve to -/
  targets : ∀ name, g.targetIndices name = (g.embeddingsFrom name).filterMap fun e =>
    (g.resolve e.target).declared?.map g.names.idxOf
  /-- a declaration counts for its shape -/
  shapes : g.stats.aliases + g.stats.structs + g.stats.interfaces = g.stats.declarations

/-- **The ways to ask where an embedding leads agree** in a well-formed graph. -/
theorem WellFormed.countsUp (hg : g.WellFormed) : g.CountsUp where
  edges := embeddingGraph_eq hg
  edges_add_unresolved := length_embeddingGraph_add hg
  targets := g.targetIndices_eq
  shapes := g.countShape_add

/-! ## Joins -/

/-- The declarations that a graph takes from another in a join. -/
def accepted (g h : TypeGraph) : List Declaration :=
  h.declarations.filter fun d => d.name ∉ g.names

/-- How a graph `m` and some reports add up to a graph `g` and a graph `h` that is joined to it. -/
structure AddsUp (g h m : TypeGraph) (reports : List Diagnostic) : Prop where
  declarations : m.declarations = g.declarations ++ g.accepted h
  /-- declarations count once for each graph, but for the duplicates that are reported -/
  count_declarations :
    m.stats.declarations + reports.length = g.stats.declarations + h.stats.declarations
  reported : ∀ d ∈ reports, d.kind = .duplicateTypeName
  /-- embeddings are taken with the declarations that own them -/
  embeddings : m.embeddings = g.embeddings ++
    h.embeddings.filter fun e => e.owner ∈ (g.accepted h).map Declaration.name
  count_embeddings : m.stats.embeddings = g.stats.embeddings +
    h.embeddings.countP fun e => e.owner ∈ (g.accepted h).map Declaration.name
  /-- what was resolved stays resolved -/
  resolved : ∀ e ∈ g.embeddings, ∀ n,
    g.resolve e.target = .declared n → m.resolve e.target = .declared n

theorem declarations_merge_accepted (g h : TypeGraph) :
    (g.merge h).1.declarations = g.declarations ++ g.accepted h := by
  rw [declarations_merge, firsts_eq_filter h.distinct, accepted]

/-- In a well-formed graph an embedding is owned by a declaration that is taken when its owner is
not declared in the first graph. -/
theorem mem_map_accepted_iff {e : Embedding} (hh : h.WellFormed) (he : e ∈ h.embeddings) :
    e.owner ∈ (g.accepted h).map Declaration.name ↔ e.owner ∉ g.names := by
  rw [accepted, ← firsts_eq_filter h.distinct, mem_map_firsts_iff]
  exact and_iff_left (hh e he)

theorem embeddings_merge_accepted (hh : h.WellFormed) :
    (g.merge h).1.embeddings = g.embeddings ++
      h.embeddings.filter fun e => e.owner ∈ (g.accepted h).map Declaration.name := by
  rw [embeddings_merge hh]
  refine congrArg _ (List.filter_congr fun e he => ?_)
  exact decide_eq_decide.mpr (mem_map_accepted_iff hh he).symm

/-- **A join** has the declarations of both graphs but for those that it reports. -/
theorem length_declarations_merge (g h : TypeGraph) :
    (g.merge h).1.declarations.length + (g.merge h).2.length =
      g.declarations.length + h.declarations.length := by
  have hreports : (g.merge h).2.length =
      (repeats Declaration.name g.names h.declarations).length := by
    rw [← List.length_map (f := Diagnostic.gist), gists_merge, List.length_map]
  have hboth : (firsts Declaration.name g.names h.declarations ++
      repeats Declaration.name g.names h.declarations).length = h.declarations.length :=
    firsts_append_repeats_perm.length_eq
  rw [List.length_append] at hboth
  rw [declarations_merge, List.length_append, hreports, Nat.add_assoc, hboth]

theorem addsUp_merge (g : TypeGraph) (hh : h.WellFormed) :
    g.AddsUp h (g.merge h).1 (g.merge h).2 where
  declarations := declarations_merge_accepted g h
  count_declarations := length_declarations_merge g h
  reported _ := kind_of_mem_merge
  embeddings := embeddings_merge_accepted hh
  count_embeddings := by
    change (g.merge h).1.embeddings.length = g.embeddings.length + _
    rw [embeddings_merge_accepted hh, List.length_append, List.countP_eq_length_filter]
  resolved e _ n he := (extends_merge g hh).resolve_eq he

/-- **The counters agree** with what resolves, in every well-formed graph: the edges by places and
the targets of the names are those of the embeddings that resolve, and the numbers add up. They add
up also when a well-formed graph is joined to another, which is well formed again. -/
theorem counters_agree (hg : g.WellFormed) (hh : h.WellFormed) :
    g.CountsUp ∧ (g.merge h).1.CountsUp ∧ g.AddsUp h (g.merge h).1 (g.merge h).2 :=
  ⟨hg.countsUp, (hg.merge hh).countsUp, addsUp_merge g hh⟩

/-- A struct `A` that embeds `B` twice, and a type for each reason why an embedding may lead out of
the graph: one of another package, a predeclared one, one that is not declared, and one without a
name. -/
def mixedTargets : TypeGraph :=
  let line (type : TypeExpr) : FieldDecl := ⟨[], type, none, ⟨"", 1, 2⟩⟩
  (ofCandidates default
    [structOf "A" 1
      [embeddingOf "B" 1, line (.named (some "p") "B"), line (.predeclared "int"), embeddingOf "C" 1,
        line (.verbatim "chan int"), line (.pointer (.named none "B"))],
      structOf "B" 2 []]).1

/-- Another struct `A`, and a struct `C` that embeds it. -/
def anotherOwner : TypeGraph :=
  (ofCandidates default [structOf "A" 3 [embeddingOf "C" 3], structOf "C" 4 [embeddingOf "A" 4]]).1

/-- Four of six embeddings lead out of the first graph. The join leaves out the second `A` with its
embedding, and declares what the first `A` embeds as `C`. -/
theorem counters_agree_mixedTargets : mixedTargets.WellFormed ∧ anotherOwner.WellFormed ∧
    mixedTargets.embeddingGraph = [(0, 1), (0, 1)] ∧ mixedTargets.stats.unresolvedEmbeddings = 4 ∧
      (mixedTargets.merge anotherOwner).1.embeddingGraph = [(0, 1), (0, 2), (0, 1), (2, 0)] ∧
      (mixedTargets.merge anotherOwner).2.length = 1 ∧ mixedTargets.CountsUp ∧
      mixedTargets.AddsUp anotherOwner (mixedTargets.merge anotherOwner).1
        (mixedTargets.merge anotherOwner).2 := by
  have hg : mixedTargets.WellFormed := wellFormed_ofCandidates _ _
  have hh : anotherOwner.WellFormed := wellFormed_ofCandidates _ _
  obtain ⟨hcounts, -, hjoin⟩ := counters_agree hg hh
  exact ⟨hg, hh, by decide, by decide, by decide, by decide, hcounts, hjoin⟩

end GoAtlas.TypeGraph
