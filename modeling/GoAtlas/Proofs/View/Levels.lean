import GoAtlas.Proofs.Firsts
import GoAtlas.Proofs.Graph.Embedding
import GoAtlas.Proofs.View.Chains

/-!
# Level by level

The expansion of a struct visits types in levels: the types of a level are those that the types of
the level before are expanded to and that have not been visited, each where it is met first. Here
the levels are described with the chain that leads to each type (`Trail`, `stage`), which the
expansion itself does not keep.

The chains of a level come in their order, and each is the first chain to its type
(`isFirstChain_of_mem_stage`). That rests on `exists_trail`: whatever chain leads to a type, the
type is visited by a chain that is not later, since what is met first is expanded first. After as
many levels as there are declarations there is nothing left to visit (`trails_eq_nil`).
-/

namespace GoAtlas

/-- A visit to a type with the ranks of the embeddings on the way. -/
structure Trail extends Visit where
  ranks : List Nat

namespace TypeGraph

open Relation (ReflTransGen)

variable {g : TypeGraph} {root x y : String} {ranks : List Nat} {via : List String} {n m : Nat}
  {t u : Trail}

/-! ## One embedding further -/

/-- The trail that an embedding adds to another, unless it leads out of the graph. -/
def step? (g : TypeGraph) (t : Trail) (e : Embedding) (r : Nat) : Option Trail :=
  match g.embedded e with
  | .ok (name, declared) =>
    some { name := declared, via := t.via ++ [name], ranks := t.ranks ++ [r] }
  | .error _ => none

/-- The trails that lead one embedding further, in the order of the embeddings. -/
def extend (g : TypeGraph) (t : Trail) : List Trail :=
  (g.embeddingsFrom t.name).zipIdx.filterMap fun p => g.step? t p.1 p.2

/-- Without their ranks these are the visits that the embeddings ask for. -/
theorem map_toVisit_extend (g : TypeGraph) (t : Trail) :
    (g.extend t).map Trail.toVisit = g.visits t.name t.via := by
  have hstep : ∀ p : Embedding × Nat, (g.step? t p.1 p.2).map Trail.toVisit =
      match g.embedded p.1 with
      | .ok (name, declared) => some { name := declared, via := t.via ++ [name] }
      | .error _ => none := by
    intro p
    rw [step?]
    split <;> rfl
  rw [visits, ← List.zipIdx_map_fst 0 (g.embeddingsFrom t.name), List.filterMap_map, extend,
    List.map_filterMap]
  exact List.filterMap_congr fun p _ => hstep p

/-- Inversion for one embedding further. -/
theorem step?_eq_some {e : Embedding} {r : Nat} (h : g.step? t e r = some u) :
    u.ranks = t.ranks ++ [r] ∧ ∃ name, g.resolve e.target = .declared name ∧
      g.followAliases name = .ok u.name ∧ u.via = t.via ++ [name] := by
  rw [step?] at h
  split at h
  · rename_i name declared hembedded
    obtain rfl := Option.some.inj h
    obtain ⟨hresolve, hfollow⟩ := embedded_eq_ok_iff.mp hembedded
    exact ⟨rfl, name, hresolve, hfollow, rfl⟩
  · cases h

/-- A trail leads one embedding further by the rank of the embedding. -/
theorem mem_extend_iff : u ∈ g.extend t ↔
    ∃ e r, (g.embeddingsFrom t.name)[r]? = some e ∧ g.step? t e r = some u := by
  rw [extend, List.mem_filterMap]
  constructor
  · rintro ⟨⟨e, r⟩, hmem, hstep⟩
    exact ⟨e, r, List.mem_zipIdx_iff_getElem?.mp hmem, hstep⟩
  · rintro ⟨e, r, hrank, hstep⟩
    exact ⟨(e, r), List.mem_zipIdx_iff_getElem?.mpr hrank, hstep⟩

/-- One embedding further, a chain is one longer. -/
theorem Chain.extend (h : g.Chain root t.ranks t.via t.name) (hu : u ∈ g.extend t) :
    g.Chain root u.ranks u.via u.name ∧ u.ranks.length = t.ranks.length + 1 := by
  obtain ⟨e, r, hrank, hstep⟩ := mem_extend_iff.mp hu
  obtain ⟨hranks, name, hresolve, hfollow, hvia⟩ := step?_eq_some hstep
  rw [hranks, hvia, List.length_append]
  exact ⟨h.snoc hrank hresolve hfollow, rfl⟩

/-- The trails from one type come in the order of their chains. -/
theorem pairwise_extend (g : TypeGraph) (t : Trail) :
    (g.extend t).Pairwise fun u v => Earlier u.ranks v.ranks := by
  have hranks : (g.embeddingsFrom t.name).zipIdx.Pairwise fun p q => p.2 < q.2 := by
    rw [← List.pairwise_map, List.zipIdx_map_snd]
    exact List.pairwise_lt_range'
  refine List.pairwise_filterMap.mpr (hranks.imp ?_)
  intro p q hlt u hu v hv
  rw [(step?_eq_some hu).1, (step?_eq_some hv).1]
  exact earlier_snoc_of_lt hlt

/-- So do the trails from several types, if the chains to these do. -/
theorem pairwise_flatMap_extend {ts : List Trail}
    (h : ts.Pairwise fun t u => Earlier t.ranks u.ranks) :
    (ts.flatMap g.extend).Pairwise fun t u => Earlier t.ranks u.ranks := by
  refine List.pairwise_flatMap.mpr ⟨fun t _ => pairwise_extend g t, h.imp ?_⟩
  intro t u hearlier t' ht' u' hu'
  obtain ⟨e, r, -, ht'⟩ := mem_extend_iff.mp ht'
  obtain ⟨e', r', -, hu'⟩ := mem_extend_iff.mp hu'
  rw [(step?_eq_some ht').1, (step?_eq_some hu').1]
  exact hearlier.snoc

/-! ## The levels -/

/-- How far the expansion of a struct has come on a level: the types visited so far, and the trails
to those that are visited on this level. -/
structure Stage where
  visited : List String
  trails : List Trail

/-- The stage of each level. On level zero only the struct itself is visited. -/
def stage (g : TypeGraph) (root : String) : Nat → Stage
  | 0 => { visited := [root], trails := [{ name := root, via := [], ranks := [] }] }
  | n + 1 =>
    let s := g.stage root n
    let fresh := firsts (fun t => t.name) s.visited (s.trails.flatMap g.extend)
    { visited := s.visited ++ fresh.map fun t => t.name, trails := fresh }

/-- The trails of a level come from those of the level before, and lead to types that are visited
for the first time. -/
theorem mem_stage_succ (h : u ∈ (g.stage root (n + 1)).trails) :
    u.name ∉ (g.stage root n).visited ∧ ∃ t ∈ (g.stage root n).trails, u ∈ g.extend t :=
  ⟨(mem_firsts_iff.mp h).1, List.mem_flatMap.mp (firsts_sublist.subset h)⟩

/-- **The trails of a level** are chains of that length. -/
theorem chain_of_mem_stage : ∀ {n t}, t ∈ (g.stage root n).trails →
    g.Chain root t.ranks t.via t.name ∧ t.ranks.length = n := by
  intro n
  induction n with
  | zero =>
    intro t ht
    rw [List.mem_singleton.mp ht]
    exact ⟨.nil, rfl⟩
  | succ n ih =>
    intro u hu
    obtain ⟨-, t, ht, hext⟩ := mem_stage_succ hu
    obtain ⟨hchain, hlength⟩ := ih ht
    rw [← hlength]
    exact hchain.extend hext

/-- The trails of a level come in the order of their chains. -/
theorem pairwise_stage (g : TypeGraph) (root : String) (n : Nat) :
    (g.stage root n).trails.Pairwise fun t u => Earlier t.ranks u.ranks := by
  induction n with
  | zero => exact List.pairwise_singleton _ _
  | succ n ih => exact (pairwise_flatMap_extend ih).sublist firsts_sublist

theorem visited_mono : m ≤ n → (g.stage root m).visited ⊆ (g.stage root n).visited := by
  intro h
  induction h with
  | refl => exact List.Subset.refl _
  | step _ ih => exact List.Subset.trans ih (List.subset_append_left _ _)

theorem name_mem_visited (h : t ∈ (g.stage root n).trails) :
    t.name ∈ (g.stage root n).visited := by
  cases n with
  | zero =>
    rw [List.mem_singleton.mp h]
    exact List.mem_singleton_self _
  | succ n => exact List.mem_append_right _ (List.mem_map_of_mem (f := fun t => t.name) h)

/-- A type that has been visited was visited on some level. -/
theorem exists_mem_stage (h : x ∈ (g.stage root n).visited) :
    ∃ m ≤ n, ∃ t ∈ (g.stage root m).trails, t.name = x := by
  induction n with
  | zero => exact ⟨0, le_rfl, _, List.mem_singleton_self _, (List.mem_singleton.mp h).symm⟩
  | succ n ih =>
    rcases List.mem_append.mp h with h | h
    · obtain ⟨m, hm, ht⟩ := ih h
      exact ⟨m, Nat.le_succ_of_le hm, ht⟩
    · obtain ⟨t, ht, hname⟩ := List.mem_map.mp h
      exact ⟨n + 1, le_rfl, t, ht, hname⟩

theorem nodup_visited (g : TypeGraph) (root : String) (n : Nat) :
    (g.stage root n).visited.Nodup := by
  induction n with
  | zero => exact List.nodup_singleton root
  | succ n ih =>
    refine List.nodup_append.mpr ⟨ih, nodup_map_firsts, ?_⟩
    rintro x hx _ hy rfl
    exact (mem_map_firsts_iff.mp hy).1 hx

/-- On a later level a type was not visited before. -/
theorem name_not_mem_visited (hlt : n < m) (h : t ∈ (g.stage root m).trails) :
    t.name ∉ (g.stage root n).visited := by
  obtain ⟨k, rfl⟩ := Nat.exists_eq_succ_of_ne_zero (Nat.ne_zero_of_lt hlt)
  exact fun hn => (mem_stage_succ h).1 (visited_mono (Nat.le_of_lt_succ hlt) hn)

/-- No level visits a type twice. -/
theorem nodup_level (g : TypeGraph) (root : String) (n : Nat) :
    ((g.stage root n).trails.map fun t => t.name).Nodup := by
  cases n with
  | zero => exact List.nodup_singleton root
  | succ n => exact nodup_map_firsts

/-- **No type is visited twice**, on whatever levels. -/
theorem eq_of_name_eq (ht : t ∈ (g.stage root n).trails) (hu : u ∈ (g.stage root m).trails)
    (h : t.name = u.name) : n = m ∧ t = u := by
  rcases Nat.lt_trichotomy n m with hlt | rfl | hlt
  · exact absurd (h ▸ name_mem_visited ht) (name_not_mem_visited hlt hu)
  · exact ⟨rfl, List.inj_on_of_nodup_map (nodup_level g root n) ht hu h⟩
  · exact absurd (h ▸ name_mem_visited hu) (name_not_mem_visited hlt ht)

/-- **Whatever chain leads to a type**, the type is visited by a chain that is not later. The
induction is on the chain: the type before the last is visited by a chain that is not later, and
what it leads to is met on the next level, if it was not visited before. -/
theorem exists_trail (h : g.Chain root ranks via y) : ∃ m ≤ ranks.length,
    ∃ t ∈ (g.stage root m).trails, t.name = y ∧ (t.ranks = ranks ∨ Earlier t.ranks ranks) := by
  induction h with
  | nil => exact ⟨0, le_rfl, _, List.mem_singleton_self _, rfl, Or.inl rfl⟩
  | @snoc ranks via x r e name y _ hrank hresolve hfollow ih =>
    obtain ⟨m, hm, t, ht, rfl, hearlier⟩ := ih
    rw [List.length_append, List.length_singleton]
    by_cases hy : y ∈ (g.stage root m).visited
    · obtain ⟨k, hk, u, hu, hname⟩ := exists_mem_stage hy
      refine ⟨k, by omega, u, hu, hname, Or.inr (earlier_iff.mpr (Or.inl ?_))⟩
      rw [(chain_of_mem_stage hu).2, List.length_append, List.length_singleton]
      omega
    · have hstep : g.step? t e r =
          some { name := y, via := t.via ++ [name], ranks := t.ranks ++ [r] } := by
        rw [step?, embedded_eq_ok_iff.mpr ⟨hresolve, hfollow⟩]
      have hmet := List.mem_flatMap.mpr ⟨t, ht, mem_extend_iff.mpr ⟨e, r, hrank, hstep⟩⟩
      have hvisit : ∃ u ∈ (g.stage root (m + 1)).trails,
          u.name = y ∧ (u = _ ∨ Earlier u.ranks (t.ranks ++ [r])) :=
        exists_firsts_of_mem (pairwise_flatMap_extend (pairwise_stage g root m)) hmet hy
      obtain ⟨u, hu, hname, hfirst⟩ := hvisit
      refine ⟨m + 1, by omega, u, hu, hname, ?_⟩
      -- the chain through `t` is not later than the given one, and what is met first not later
      -- than the chain through `t`
      have hle : t.ranks ++ [r] = ranks ++ [r] ∨ Earlier (t.ranks ++ [r]) (ranks ++ [r]) :=
        hearlier.imp (congrArg (· ++ [r])) Earlier.snoc
      rcases hfirst with rfl | hlt
      · exact hle
      · rcases hle with heq | hlt'
        · exact Or.inr (heq ▸ hlt)
        · exact Or.inr (hlt.trans hlt')

/-- **The trails are first chains**: each type is visited by the first chain to it. -/
theorem isFirstChain_of_mem_stage (h : t ∈ (g.stage root n).trails) :
    g.IsFirstChain root t.name t.ranks t.via := by
  refine ⟨(chain_of_mem_stage h).1, fun hchain => ?_⟩
  obtain ⟨m, -, u, hu, hname, hearlier⟩ := exists_trail hchain
  obtain ⟨-, rfl⟩ := eq_of_name_eq h hu hname.symm
  exact hearlier

/-! ## The last level -/

/-- Whatever is visited is declared. -/
theorem visited_subset_names (hroot : g.IsPlain root) : (g.stage root n).visited ⊆ g.names := by
  intro x hx
  obtain ⟨m, -, t, ht, rfl⟩ := exists_mem_stage hx
  exact ((chain_of_mem_stage ht).1.isPlain hroot).mem_names

/-- When a level is empty, so are those behind it. -/
theorem trails_succ_eq_nil (h : (g.stage root n).trails = []) :
    (g.stage root (n + 1)).trails = [] := by
  rw [stage]
  dsimp only
  rw [h]
  rfl

/-- Each level with something to visit adds to what has been visited. -/
theorem lt_length_visited (g : TypeGraph) (root : String) (n : Nat) :
    (g.stage root n).trails = [] ∨ n < (g.stage root n).visited.length := by
  induction n with
  | zero => exact Or.inr Nat.one_pos
  | succ n ih =>
    rcases ih with hnil | hlt
    · exact Or.inl (trails_succ_eq_nil hnil)
    · rcases heq : (g.stage root (n + 1)).trails with _ | ⟨t, rest⟩
      · exact Or.inl rfl
      · refine Or.inr ?_
        have hlength : (g.stage root (n + 1)).visited.length =
            (g.stage root n).visited.length + (g.stage root (n + 1)).trails.length := by
          rw [stage, List.length_append, List.length_map]
        rw [hlength, heq, List.length_cons]
        omega

/-- **After as many levels as there are declarations** nothing is left to visit. -/
theorem trails_eq_nil (hroot : g.IsPlain root) (h : g.declarations.length ≤ n) :
    (g.stage root n).trails = [] := by
  refine (lt_length_visited g root n).resolve_right fun hlt => ?_
  -- otherwise more types were visited than there are declarations
  have hle := (List.subperm_of_subset (nodup_visited g root n)
    (visited_subset_names hroot)).length_le
  rw [length_names] at hle
  omega

/-! ## All levels -/

/-- The trails of the levels below the struct itself, down to level `n`. -/
def discovered (g : TypeGraph) (root : String) : Nat → List Trail
  | 0 => []
  | n + 1 => g.discovered root n ++ (g.stage root (n + 1)).trails

theorem mem_discovered_iff :
    t ∈ g.discovered root n ↔ ∃ m < n, t ∈ (g.stage root (m + 1)).trails := by
  induction n with
  | zero => simp [discovered]
  | succ n ih =>
    rw [discovered, List.mem_append, ih]
    constructor
    · rintro (⟨m, hm, ht⟩ | ht)
      · exact ⟨m, Nat.lt_succ_of_lt hm, ht⟩
      · exact ⟨n, Nat.lt_succ_self n, ht⟩
    · rintro ⟨m, hm, ht⟩
      rcases Nat.lt_succ_iff_lt_or_eq.mp hm with hlt | rfl
      · exact Or.inl ⟨m, hlt, ht⟩
      · exact Or.inr ht

/-- All trails come in the order of their chains. -/
theorem pairwise_discovered (g : TypeGraph) (root : String) (n : Nat) :
    (g.discovered root n).Pairwise fun t u => Earlier t.ranks u.ranks := by
  induction n with
  | zero => exact List.Pairwise.nil
  | succ n ih =>
    refine List.pairwise_append.mpr ⟨ih, pairwise_stage g root (n + 1), fun t ht u hu => ?_⟩
    obtain ⟨m, hm, ht⟩ := mem_discovered_iff.mp ht
    refine earlier_iff.mpr (Or.inl ?_)
    rw [(chain_of_mem_stage ht).2, (chain_of_mem_stage hu).2]
    omega

theorem isFirstChain_of_mem_discovered (h : t ∈ g.discovered root n) :
    g.IsFirstChain root t.name t.ranks t.via := by
  obtain ⟨m, -, ht⟩ := mem_discovered_iff.mp h
  exact isFirstChain_of_mem_stage ht

/-- The struct itself is not visited again. -/
theorem name_ne_root (h : t ∈ g.discovered root n) : t.name ≠ root := by
  obtain ⟨m, -, ht⟩ := mem_discovered_iff.mp h
  intro heq
  refine name_not_mem_visited (Nat.succ_pos m) ht ?_
  rw [heq]
  exact List.mem_singleton_self root

/-- **Every type that can be reached** is visited on some level. -/
theorem exists_mem_discovered (hroot : g.IsPlain root) (hn : g.declarations.length ≤ n)
    (h : ReflTransGen g.Expands root y) (hne : y ≠ root) :
    ∃ t ∈ g.discovered root n, t.name = y := by
  obtain ⟨ranks, via, hchain⟩ := exists_chain_iff.mpr h
  obtain ⟨m, -, t, ht, rfl, -⟩ := exists_trail hchain
  cases m with
  | zero => exact absurd (congrArg (fun t => t.name) (List.mem_singleton.mp ht)) hne
  | succ m =>
    refine ⟨t, mem_discovered_iff.mpr ⟨m, ?_, ht⟩, rfl⟩
    refine Nat.lt_of_not_le fun hle => ?_
    rw [trails_eq_nil hroot (by omega)] at ht
    cases ht

end TypeGraph

end GoAtlas
