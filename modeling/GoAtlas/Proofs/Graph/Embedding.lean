import GoAtlas.Graph.Resolution
import GoAtlas.Proofs.Graph.Walk
import Mathlib.Data.List.Nodup

/-!
# Which names embed which

`Embeds` is the relation of the embeddings that resolve. It is what `targets` lists for a name and
what `embeddingGraph` lists by places, so the two readings of the embeddings agree
(`mem_targets_iff`, `mem_embeddingGraph_iff`). A name and its place tell each other because declared
names are distinct (`indexOf?_eq_some_iff`).
-/

namespace GoAtlas.TypeGraph

open Relation (ReflTransGen)

variable {g : TypeGraph} {a b : String}

/-! ## Names and places

The names of a graph are listed in the order of the declarations, so a name has one place in the
list and the place has one name. -/

theorem nodup_names (g : TypeGraph) : g.names.Nodup := g.distinct

@[simp] theorem length_names (g : TypeGraph) : g.names.length = g.declarations.length :=
  List.length_map ..

/-- A name stands at the place that it is looked up at. -/
theorem indexOf?_eq_some_iff {i : Nat} : g.indexOf? a = some i ↔ g.names[i]? = some a := by
  simp only [indexOf?, names, List.findIdx?_eq_some_iff_getElem, List.getElem?_eq_some_iff,
    List.length_map, List.getElem_map, beq_iff_eq]
  constructor
  · rintro ⟨hi, hname, -⟩
    exact ⟨hi, hname⟩
  · rintro ⟨hi, hname⟩
    refine ⟨hi, hname, fun j hj hsame => ?_⟩
    have hi' : i < g.names.length := by rwa [length_names]
    have hj' : j < g.names.length := Nat.lt_trans hj hi'
    have hplace : g.names[j] = g.names[i] := by
      simp only [names, List.getElem_map, hsame, hname]
    exact Nat.ne_of_lt hj ((List.Nodup.getElem_inj_iff g.nodup_names).mp hplace)

/-- A declared name stands at its first place. -/
theorem getElem?_names_eq_some_iff {i : Nat} :
    g.names[i]? = some a ↔ a ∈ g.names ∧ i = g.names.idxOf a := by
  constructor
  · intro h
    obtain ⟨hi, ha⟩ := List.getElem?_eq_some_iff.mp h
    refine ⟨List.mem_of_getElem? h, ?_⟩
    rw [← ha, List.Nodup.idxOf_getElem g.nodup_names]
  · rintro ⟨ha, rfl⟩
    rw [List.getElem?_eq_some_iff]
    exact ⟨List.idxOf_lt_length_of_mem ha, List.getElem_idxOf _⟩

/-- A declaration is looked up by its name. -/
theorem find?_of_mem {d : Declaration} (h : d ∈ g.declarations) : g.find? d.name = some d := by
  obtain ⟨found, hfound⟩ : ∃ found, g.find? d.name = some found :=
    Option.isSome_iff_exists.mp (List.find?_isSome.mpr ⟨d, h, beq_self_eq_true _⟩)
  have hsame : found = d :=
    List.inj_on_of_nodup_map g.distinct (List.mem_of_find?_eq_some hfound) h (name_of_find? hfound)
  rw [hfound, hsame]

/-- What a name stands for is the declaration that has this name. -/
theorem find?_eq_some_iff {d : Declaration} :
    g.find? a = some d ↔ d ∈ g.declarations ∧ d.name = a := by
  constructor
  · intro h
    exact ⟨List.mem_of_find?_eq_some h, name_of_find? h⟩
  · rintro ⟨h, rfl⟩
    exact find?_of_mem h

/-- A declaration is alone under its name. -/
theorem filter_name_eq {d : Declaration} (h : d ∈ g.declarations) :
    g.declarations.filter (fun e => e.name = d.name) = [d] := by
  have hsame : ∀ e ∈ g.declarations, decide (e.name = d.name) = decide (e = d) := fun e he =>
    decide_eq_decide.mpr ⟨List.inj_on_of_nodup_map g.distinct he h, congrArg Declaration.name⟩
  rw [List.filter_congr hsame, List.filter_eq, List.count_eq_one_of_mem g.distinct.of_map h]
  rfl

/-! ## The relation

An embedding counts when what it leads to is declared. Only then is it an edge; what else is
embedded is lost to the walks, and reported elsewhere. -/

/-- One name embeds another: it owns an embedding that resolves to the other. -/
def Embeds (g : TypeGraph) (a b : String) : Prop :=
  ∃ e ∈ g.embeddings, e.owner = a ∧ g.resolve e.target = .declared b

/-- The embeddings of a name are those that it owns. -/
theorem mem_embeddingsFrom_iff {e : Embedding} :
    e ∈ g.embeddingsFrom a ↔ e ∈ g.embeddings ∧ e.owner = a := by
  rw [embeddingsFrom, List.mem_filter, beq_iff_eq]

/-- A reference resolves to a name when it is the plain name and the name is declared. -/
theorem resolve_eq_declared_iff {r : Reference} :
    g.resolve r = .declared b ↔ (∃ pointer, r = .named none b pointer) ∧ b ∈ g.names := by
  rcases r with ⟨_ | package, name, pointer⟩ | name | _ | _ | text
  · simp only [resolve]
    split
    · rename_i h
      have h := contains_iff.mp h
      constructor
      · intro heq
        obtain rfl := Resolution.declared.inj heq
        exact ⟨⟨pointer, rfl⟩, h⟩
      · rintro ⟨⟨p, hp⟩, -⟩
        obtain ⟨-, rfl, -⟩ := Reference.named.inj hp
        rfl
    · rename_i h
      constructor
      · intro heq
        cases heq
      · rintro ⟨⟨p, hp⟩, hb⟩
        obtain ⟨-, rfl, -⟩ := Reference.named.inj hp
        exact absurd (contains_iff.mpr hb) h
  all_goals simp [resolve]

/-- The name of an embedding that is looked up among the declared names is the name that the
embedding resolves to. -/
theorem targetName?_eq_some_iff {e : Embedding} :
    (e.targetName? = some b ∧ b ∈ g.names) ↔ g.resolve e.target = .declared b := by
  rw [resolve_eq_declared_iff]
  refine and_congr_left fun _ => ?_
  unfold Embedding.targetName?
  split
  · rename_i name pointer h
    rw [h]
    constructor
    · rintro heq
      exact ⟨pointer, by rw [Option.some.inj heq]⟩
    · rintro ⟨p, hp⟩
      rw [(Reference.named.inj hp).2.1]
  · rename_i h
    constructor
    · intro heq
      cases heq
    · rintro ⟨p, hp⟩
      exact absurd hp (h _ _)

/-- The targets of a name are the names that it embeds. -/
theorem mem_targets_iff : b ∈ g.targets a ↔ g.Embeds a b := by
  simp only [targets, embeddingsFrom, List.mem_filterMap, List.mem_filter, beq_iff_eq, Embeds,
    Option.filter_eq_some_iff, contains_iff, targetName?_eq_some_iff, and_assoc]

/-- The relation of a walk along the targets is the one of embedding. -/
theorem leads_targets (g : TypeGraph) : Walk.Leads g.targets = g.Embeds := by
  funext a b
  exact propext mem_targets_iff

theorem Embeds.mem_names (h : g.Embeds a b) : b ∈ g.names := by
  obtain ⟨e, -, -, he⟩ := h
  exact (resolve_eq_declared_iff.mp he).2

/-- What is embedded is declared. -/
theorem targets_subset_names (g : TypeGraph) (a : String) : g.targets a ⊆ g.names :=
  fun _ h => (mem_targets_iff.mp h).mem_names

/-- A name has no more targets than embeddings. -/
theorem length_targets_le (g : TypeGraph) (a : String) :
    (g.targets a).length ≤ g.embeddings.countP fun e => e.owner = a := by
  rw [List.countP_eq_length_filter]
  exact List.length_filterMap_le ..

/-- Where embeddings lead from a declared name is declared. -/
theorem mem_names_of_reflTransGen (h : ReflTransGen g.Embeds a b) (ha : a ∈ g.names) :
    b ∈ g.names := by
  induction h with
  | refl => exact ha
  | tail _ hl _ => exact hl.mem_names

/-- The graph by places has the embeddings between declared names. -/
theorem mem_embeddingGraph_iff {i j : Nat} :
    (i, j) ∈ g.embeddingGraph ↔
      ∃ a b, g.names[i]? = some a ∧ g.names[j]? = some b ∧ g.Embeds a b := by
  simp only [embeddingGraph, List.mem_filterMap]
  constructor
  · rintro ⟨e, he, hm⟩
    split at hm
    · rename_i source target hsource htarget
      obtain ⟨rfl, rfl⟩ := Prod.mk.inj (Option.some.inj hm)
      obtain ⟨b, hb, hplace⟩ := Option.bind_eq_some_iff.mp htarget
      have hplace := indexOf?_eq_some_iff.mp hplace
      exact ⟨e.owner, b, indexOf?_eq_some_iff.mp hsource, hplace, e, he, rfl,
        targetName?_eq_some_iff.mp ⟨hb, List.mem_of_getElem? hplace⟩⟩
    · cases hm
  · rintro ⟨a, b, hi, hj, e, he, rfl, hb⟩
    refine ⟨e, he, ?_⟩
    rw [indexOf?_eq_some_iff.mpr hi, (targetName?_eq_some_iff.mpr hb).1, Option.bind_some,
      indexOf?_eq_some_iff.mpr hj]

end GoAtlas.TypeGraph
