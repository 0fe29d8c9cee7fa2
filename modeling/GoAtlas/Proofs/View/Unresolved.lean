import GoAtlas.Proofs.Graph.AliasChains
import GoAtlas.Proofs.View.Marks

/-!
# What a view leaves unresolved

A flattened view tells the embeddings that it could not expand. `unresolved_of_discovery` says that
nothing is lost on the way: the view goes through the types that can be reached, each once and
breadth first (`IsDiscovery`), and tells of each its embeddings that lead nowhere (`LeadsNowhere`),
in their order. Any other embedding of these types leads to one of them.

Breadth first means two things here, and the types that are met have both: the first chains to them
come in their order, and the types are a queue, to which each adds at the end those that it is
expanded to and that were not there yet. By the first alone there is only one such list
(`IsDiscovery.unique`).
-/

namespace GoAtlas.TypeGraph

open Relation (ReflTransGen TransGen)

variable {g : TypeGraph} {root x y name : String} {order others : List String} {t : Trail} {n : Nat}
  {direct : List Field} {ref : Reference}

/-! ## Embeddings that lead nowhere -/

/-- The chain of aliases from a name comes to an alias that leads out of the graph, or to a loop. -/
def Strands (g : TypeGraph) (name : String) : Prop :=
  ∃ b, ReflTransGen g.AliasStep name b ∧
    ((∃ target, g.LeadsOut b target) ∨ TransGen g.AliasStep b b)

/-- A reference leads nowhere: it leads out of the graph, or the chain of aliases from the name that
it resolves to does or runs into a loop. -/
def LeadsNowhere (g : TypeGraph) (r : Reference) : Prop :=
  (∃ reason, g.resolve r = .external reason) ∨
    ∃ name, g.resolve r = .declared name ∧ g.Strands name

/-- The chain from a declared name cannot be followed exactly when it strands. -/
theorem exists_followAliases_eq_error_iff (h : name ∈ g.names) :
    (∃ text, g.followAliases name = .error text) ↔ g.Strands name := by
  constructor
  · rintro ⟨text, htext⟩
    rcases followAliases_eq_error_iff.mp htext with ⟨hnone, -⟩ | ⟨b, target, hb, hout, -⟩ | hloop
    · exact absurd h hnone
    · exact ⟨b, hb, Or.inl ⟨target, hout⟩⟩
    · exact ⟨text, hloop.reaches, Or.inr hloop.loop⟩
  · rintro ⟨b, hb, ⟨target, hout⟩ | hloop⟩
    · exact ⟨_, followAliases_of_leadsOut_of_reflTransGen hb hout⟩
    · obtain ⟨e, he⟩ := exists_entersLoop hb hloop
      exact ⟨e, followAliases_of_entersLoop he⟩

/-- What is lost to a view are the references that lead nowhere. -/
theorem isLost_iff : g.IsLost ref ↔ g.LeadsNowhere ref := by
  refine or_congr Iff.rfl (exists_congr fun name => ?_)
  rw [exists_and_left]
  refine and_congr_right fun hresolve => ?_
  exact exists_followAliases_eq_error_iff (resolve_eq_declared_iff.mp hresolve).2

instance (g : TypeGraph) : DecidablePred g.LeadsNowhere := fun _ =>
  decidable_of_iff _ isLost_iff

/-- What a type leaves unresolved: the texts of those of its embeddings that lead nowhere. -/
theorem unresolvedOf_eq_leadsNowhere (g : TypeGraph) (owner : String) : g.unresolvedOf owner =
    ((g.embeddingsFrom owner).filter fun e => g.LeadsNowhere e.target).map fun e =>
      e.target.display := by
  rw [unresolvedOf_eq]
  exact congrArg _ (List.filter_congr fun e _ => decide_eq_decide.mpr isLost_iff)

/-- An embedding that does not lead nowhere leads to a type. -/
theorem exists_of_not_leadsNowhere (h : ¬ g.LeadsNowhere ref) :
    ∃ name y, g.resolve ref = .declared name ∧ g.followAliases name = .ok y := by
  rw [← isLost_iff, IsLost, not_or] at h
  obtain ⟨hinside, hfollowed⟩ := h
  rcases hresolve : g.resolve ref with name | reason
  · rcases hfollow : g.followAliases name with text | y
    · exact absurd ⟨name, text, hresolve, hfollow⟩ hfollowed
    · exact ⟨name, y, rfl, hfollow⟩
  · exact absurd ⟨reason, hresolve⟩ hinside

/-! ## The types that are met -/

/-- The types that a type is expanded to, in the order of its embeddings. -/
def expansions (g : TypeGraph) (owner : String) : List String :=
  (g.visits owner []).map Visit.name

/-- One type is met before another: the first chain to it comes earlier. -/
def MetBefore (g : TypeGraph) (root x y : String) : Prop :=
  ∃ ranks via others viaOthers, g.IsFirstChain root x ranks via ∧
    g.IsFirstChain root y others viaOthers ∧ Earlier ranks others

/-- The types that the view of a struct expands, breadth first. -/
structure IsDiscovery (g : TypeGraph) (root : String) (order : List String) : Prop where
  /-- they are the struct itself and all types that it is expanded to -/
  members : ∀ x, x ∈ order ↔ ReflTransGen g.Expands root x
  /-- each is there once -/
  once : order.Nodup
  /-- they come in the order in which they are met -/
  ordered : order.Pairwise (g.MetBefore root)
  /-- they are a queue: the struct, and then what the types of the queue are expanded to, each where
  it comes first -/
  queued : order = firsts id [] (root :: order.flatMap g.expansions)

theorem MetBefore.asymm (h : g.MetBefore root x y) : ¬ g.MetBefore root y x := by
  obtain ⟨ranks, via, others, viaOthers, hx, hy, hearlier⟩ := h
  rintro ⟨others', _, ranks', _, hy', hx', hearlier'⟩
  rw [(hx.unique hx').1, (hy.unique hy').1] at hearlier
  exact hearlier.asymm hearlier'

/-- **There is one such list** for each struct. -/
theorem IsDiscovery.unique (h : g.IsDiscovery root order) (h' : g.IsDiscovery root others) :
    order = others := by
  have hperm : order.Perm others :=
    (List.perm_ext_iff_of_nodup h.once h'.once).mpr fun x => (h.members x).trans (h'.members x).symm
  exact hperm.eq_of_pairwise (fun _ _ _ _ hxy hyx => absurd hyx hxy.asymm) h.ordered h'.ordered

/-- What has been visited are the struct and the types below. -/
theorem visited_eq (g : TypeGraph) (root : String) (n : Nat) :
    (g.stage root n).visited = root :: (g.discovered root n).map fun t => t.name := by
  induction n with
  | zero => rfl
  | succ n ih =>
    have hvisited : (g.stage root (n + 1)).visited =
        (g.stage root n).visited ++ (g.stage root (n + 1)).trails.map fun t => t.name := rfl
    rw [hvisited, ih, discovered, List.map_append, List.cons_append]

/-- The trails one embedding further lead to the types that a type is expanded to. -/
theorem map_name_extend (g : TypeGraph) (t : Trail) :
    (g.extend t).map (fun t => t.name) = g.expansions t.name := by
  have hvisits : (g.visits t.name t.via).map Visit.name = g.expansions t.name := by
    rw [expansions, visits, visits, List.map_filterMap, List.map_filterMap]
    refine List.filterMap_congr fun e _ => ?_
    rcases g.embedded e with text | ⟨name, declared⟩ <;> rfl
  rw [← hvisits, ← map_toVisit_extend, List.map_map]
  rfl

/-- **What has been visited is a queue**: after each level, the types of the levels before have
added what they are expanded to. -/
theorem visited_succ (g : TypeGraph) (root : String) (n : Nat) :
    (g.stage root (n + 1)).visited =
      firsts id [] (root :: (g.stage root n).visited.flatMap g.expansions) := by
  have hlevel : ∀ n, (g.stage root (n + 1)).visited = (g.stage root n).visited ++
      firsts id (g.stage root n).visited
        (((g.stage root n).trails.map fun t => t.name).flatMap g.expansions) := by
    intro n
    have hnext : ((g.stage root n).trails.map fun t => t.name).flatMap g.expansions =
        ((g.stage root n).trails.flatMap g.extend).map fun t => t.name := by
      rw [List.map_flatMap, List.flatMap_map]
      exact List.flatMap_congr fun t _ => (map_name_extend g t).symm
    rw [hnext, ← map_firsts (fun t : Trail => t.name) fun _ => rfl]
    rfl
  induction n with
  | zero =>
    rw [hlevel]
    change [root] ++ firsts id [root] ([root].flatMap g.expansions) =
      firsts id [] (root :: [root].flatMap g.expansions)
    rw [firsts_cons_of_not_mem List.not_mem_nil]
    rfl
  | succ n ih =>
    have hvisited : (g.stage root (n + 1)).visited =
        (g.stage root n).visited ++ (g.stage root (n + 1)).trails.map fun t => t.name := rfl
    rw [hlevel, hvisited, List.flatMap_append, ← List.cons_append, firsts_append, ← hvisited, ← ih,
      List.map_id, List.nil_append]

/-- **The types that a view goes through** are the types that can be reached, breadth first. -/
theorem isDiscovery_trails (hroot : g.IsPlain root) :
    g.IsDiscovery root (root :: (g.trails root).map fun t => t.name) := by
  have hvisited : (g.stage root (g.declarations.length + 1)).visited =
      root :: (g.trails root).map fun t => t.name := visited_eq g root _
  refine ⟨fun x => ?_, ?_, ?_, ?_⟩
  · constructor
    · intro hx
      rcases List.mem_cons.mp hx with rfl | hx
      · exact .refl
      · obtain ⟨t, ht, rfl⟩ := List.mem_map.mp hx
        exact reaches_of_mem_trails ht
    · intro hx
      by_cases hne : x = root
      · exact hne ▸ List.mem_cons_self ..
      · obtain ⟨t, ht, rfl⟩ := exists_mem_discovered hroot (Nat.le_succ _) hx hne
        exact List.mem_cons_of_mem _ (List.mem_map_of_mem ht)
  · exact hvisited ▸ nodup_visited g root _
  · rw [List.pairwise_cons, List.pairwise_map]
    have hstart : g.IsFirstChain root root [] [] :=
      isFirstChain_of_mem_stage (n := 0) (List.mem_singleton_self _)
    constructor
    · intro x hx
      obtain ⟨t, ht, rfl⟩ := List.mem_map.mp hx
      obtain ⟨m, -, hm⟩ := mem_discovered_iff.mp ht
      refine ⟨_, _, _, _, hstart, isFirstChain_of_mem_discovered ht, earlier_iff.mpr (Or.inl ?_)⟩
      rw [(chain_of_mem_stage hm).2]
      exact Nat.succ_pos m
    · refine (pairwise_discovered g root _).imp_of_mem fun ht hu hearlier => ?_
      exact ⟨_, _, _, _, isFirstChain_of_mem_discovered ht, isFirstChain_of_mem_discovered hu,
        hearlier⟩
  · -- one level further nothing is added
    have hlast : (g.stage root (g.declarations.length + 1 + 1)).visited =
        (g.stage root (g.declarations.length + 1)).visited := by
      rw [visited_eq, visited_eq, discovered, trails_eq_nil hroot (by omega), List.append_nil]
    rw [← hvisited]
    exact hlast.symm.trans (visited_succ g root _)

/-! ## The view -/

/-- **No embedding is lost without a word**: the view of a struct that is not marked with a cycle
tells, for the types that it expands, breadth first and each once, the texts of those of their
embeddings that lead nowhere, in order. Any other embedding of these types leads to one of them.
When the embeddings are those of the declarations, they come in the order of the fields. -/
theorem unresolved_of_discovery (h : g.lookupStruct root = .ok direct) :
    ∃ v, g.flattened root = .ok v ∧ (v.cycle = none →
      ∃ order, g.IsDiscovery root order ∧ (∀ others, g.IsDiscovery root others → others = order) ∧
        (v.unresolved = order.flatMap fun x =>
          ((g.embeddingsFrom x).filter fun e => g.LeadsNowhere e.target).map fun e =>
            e.target.display) ∧
        (∀ x ∈ order, ∀ e ∈ g.embeddingsFrom x, ¬ g.LeadsNowhere e.target →
          ∃ name, ∃ y ∈ order, g.resolve e.target = .declared name ∧
            g.followAliases name = .ok y) ∧
        (g.OwnsEmbeddings → v.unresolved = order.flatMap fun x =>
          ((g.fieldsOf x).filter fun f => f.embedded ∧ g.LeadsNowhere f.reference).map fun f =>
            f.reference.display)) := by
  rw [flattened_eq h]
  rcases g.cycleThrough? root with _ | path
  · have hdiscovery := isDiscovery_trails (isPlain_of_lookupStruct h)
    refine ⟨_, rfl, fun _ => ⟨_, hdiscovery, fun _ hothers => hothers.unique hdiscovery, ?_, ?_, ?_⟩⟩
    · simp only [List.flatMap_cons, List.flatMap_map, ← unresolvedOf_eq_leadsNowhere]
    · intro x hx e he hleads
      obtain ⟨name, y, hresolve, hfollow⟩ := exists_of_not_leadsNowhere hleads
      refine ⟨name, y, (hdiscovery.members y).mpr ?_, hresolve, hfollow⟩
      exact ((hdiscovery.members x).mp hx).tail ⟨e, he, name, hresolve, hfollow⟩
    · intro hg
      simp only [List.flatMap_cons, List.flatMap_map, hg.unresolvedOf_eq_fieldsOf, isLost_iff]
  · exact ⟨_, rfl, fun hnone => nomatch hnone⟩

/-- A struct `T` that embeds `A` and `B`, which both embed `D`. That embeds itself, a name that is
not declared, and `L`, an alias of an alias of itself. -/
def looseEnds : TypeGraph :=
  let renamed (name target : String) : Candidate :=
    { name
      doc := none
      typeParams := none
      isAlias := true
      type := .named none target
      position := ⟨"", 5, 1⟩ }
  (ofCandidates default
    [structOf "T" 1 [embeddingOf "A" 1, embeddingOf "B" 1], structOf "A" 2 [embeddingOf "D" 2],
      structOf "B" 3 [embeddingOf "D" 3],
      structOf "D" 4 [embeddingOf "D" 4, embeddingOf "X" 4, embeddingOf "L" 4], renamed "L" "M",
      renamed "M" "L"]).1

/-- `D` is met twice, and what it embeds to no end is told once. -/
theorem unresolved_of_discovery_looseEnds : ∃ direct v order,
    looseEnds.lookupStruct "T" = .ok direct ∧ looseEnds.flattened "T" = .ok v ∧ v.cycle = none ∧
      v.unresolved = ["X", "L"] ∧ looseEnds.IsDiscovery "T" order ∧
        ["X", "L"] = order.flatMap fun x =>
          ((looseEnds.embeddingsFrom x).filter fun e => looseEnds.LeadsNowhere e.target).map fun e =>
            e.target.display := by
  obtain ⟨direct, hdirect⟩ : ∃ direct, looseEnds.lookupStruct "T" = .ok direct := ⟨_, rfl⟩
  obtain ⟨v, hv, hdiscovery⟩ := unresolved_of_discovery hdirect
  have hview : (looseEnds.flattened "T").map (fun v => (v.cycle, v.unresolved)) =
      .ok (none, ["X", "L"]) := by decide
  rw [hv] at hview
  obtain ⟨hcycle, hlost⟩ := Prod.mk.inj (Except.ok.inj hview)
  obtain ⟨order, horder, -, htold, -⟩ := hdiscovery hcycle
  exact ⟨direct, v, order, hdirect, hv, hcycle, hlost, horder, hlost.symm.trans htold⟩

end GoAtlas.TypeGraph
