import GoAtlas.Proofs.Graph.Components

/-!
# The report of the cycles

`embeddingCycles` gives one closed path for each component that is a cycle (`OnCycle`), from the
member declared first, in the order of these members; this is `IsCycleReport`, and
`embeddingCycles_report` says that the report is of this form for every graph.

The path is found by a depth-first walk that stays inside the component. Such a walk exists because
every name on a way from a member back to it is a member too (`transGen_within`); so the list of all
members, which stands for a path that is not found, is never used (`walkAmong?_isSome`).
-/

namespace GoAtlas.TypeGraph

open Relation (ReflTransGen TransGen)

variable {g : TypeGraph} {a b start : String} {members path : List String}

/-- The component of a name is a cycle: it has another member, or the name embeds itself. -/
def OnCycle (g : TypeGraph) (a : String) : Prop :=
  (∃ b, b ≠ a ∧ g.Connected a b) ∨ g.Embeds a a

/-- A name is declared first among those of its component. -/
def IsFirst (g : TypeGraph) (start : String) : Prop :=
  ∀ a, g.Connected start a → g.names.idxOf start ≤ g.names.idxOf a

/-- A closed path that reports the cycle of a component from its first member. -/
structure IsCyclePath (g : TypeGraph) (start : String) (path : List String) : Prop where
  /-- it ends where it starts, and repeats no other name -/
  closed : ∃ inner, path = start :: inner ++ [start] ∧ (start :: inner).Nodup
  /-- each name embeds the next -/
  joined : List.IsChain g.Embeds path
  /-- it stays inside the component -/
  inside : ∀ a ∈ path, g.Connected start a
  /-- it starts at the member declared first -/
  first : g.IsFirst start

/-- A report of all cycles: one path for each component that is a cycle, in the order of
declaration. -/
structure IsCycleReport (g : TypeGraph) (cycles : List (List String)) : Prop where
  /-- each path reports a component that is a cycle -/
  paths : ∀ path ∈ cycles, ∃ start ∈ g.names, g.OnCycle start ∧ g.IsCyclePath start path
  /-- each component that is a cycle is reported by exactly one path -/
  once : ∀ a ∈ g.names, g.OnCycle a →
    ∃! path, path ∈ cycles ∧ ∃ start, path.head? = some start ∧ g.Connected start a
  /-- the first names of the paths come in the order of declaration -/
  ordered : cycles.Pairwise fun p q =>
    ∃ a ∈ p.head?, ∃ b ∈ q.head?, g.names.idxOf a < g.names.idxOf b

/-! ## Cycles and closed walks -/

/-- A name is on a cycle when embeddings lead from it to itself. -/
theorem onCycle_iff : g.OnCycle a ↔ TransGen g.Embeds a a := by
  constructor
  · rintro (⟨b, hne, hab, hba⟩ | h)
    · rcases Relation.reflTransGen_iff_eq_or_transGen.mp hab with heq | hab
      · exact absurd heq hne
      · exact hab.trans_left hba
    · exact .single h
  · intro h
    obtain ⟨b, hl, hba⟩ := Relation.TransGen.head'_iff.mp h
    by_cases heq : b = a
    · exact Or.inr (heq ▸ hl)
    · exact Or.inl ⟨b, heq, .single hl, hba⟩

/-- The members of a component are all on a cycle or none is. -/
theorem OnCycle.of_connected (h : g.OnCycle a) (hab : g.Connected a b) : g.OnCycle b := by
  rw [onCycle_iff] at h ⊢
  exact (h.trans_right hab.2).trans_left hab.1

/-- One step of the walk that stays among some names. -/
theorem leads_within_iff :
    Walk.Leads (fun name => (g.targets name).filter members.contains) a b ↔
      g.Embeds a b ∧ b ∈ members := by
  simp only [Walk.Leads, List.mem_filter, List.contains_iff_mem, mem_targets_iff]

/-- A way out of a name and back to it stays inside the component. -/
theorem transGen_within (hmem : ∀ b, b ∈ members ↔ g.Connected start b) :
    TransGen g.Embeds start a → ReflTransGen g.Embeds a start →
      TransGen (Walk.Leads fun name => (g.targets name).filter members.contains) start a := by
  intro h
  induction h with
  | single hl =>
    intro hback
    exact .single (leads_within_iff.mpr ⟨hl, (hmem _).mpr ⟨.single hl, hback⟩⟩)
  | tail hto hl ih =>
    intro hback
    have hthere := hto.to_reflTransGen.tail hl
    exact (ih (hback.head hl)).tail (leads_within_iff.mpr ⟨hl, (hmem _).mpr ⟨hthere, hback⟩⟩)

/-- **A cycle is walked**: inside a component that is a cycle there is a closed walk from each
member. -/
theorem walkAmong?_isSome (hmem : ∀ b, b ∈ members ↔ g.Connected start b)
    (hcycle : g.OnCycle start) : (g.walkAmong? start members).isSome := by
  have hnodes : ∀ x, (g.targets x).filter members.contains ⊆ g.names := fun x =>
    List.Subset.trans List.filter_sublist.subset (g.targets_subset_names x)
  refine (Walk.closedWalk?_isSome_iff hnodes (by rw [length_names]; omega)).mpr ?_
  exact transGen_within hmem (onCycle_iff.mp hcycle) .refl

/-- All names of a chain but the first are where some step ends. -/
theorem forall_mem_of_isChain {r : String → String → Prop} {p : String → Prop}
    (hr : ∀ {x y}, r x y → p y) :
    ∀ {l : List String} {x : String}, List.IsChain r (x :: l) → ∀ y ∈ l, p y := by
  intro l
  induction l with
  | nil => intro x _ y hy; cases hy
  | cons z rest ih =>
    intro x h
    obtain ⟨hxz, hrest⟩ := List.isChain_cons_cons.mp h
    exact List.forall_mem_cons.mpr ⟨hr hxz, ih hrest⟩

/-- A walk inside a component, from its first member, reports its cycle. -/
theorem isCyclePath_of_walkAmong? (hmem : ∀ b, b ∈ members ↔ g.Connected start b)
    (hfirst : g.IsFirst start) (h : g.walkAmong? start members = some path) :
    g.IsCyclePath start path := by
  obtain ⟨inner, rfl, hchain, hnodup⟩ := Walk.closedWalk?_eq_some h
  refine ⟨⟨inner, rfl, hnodup⟩, hchain.imp fun _ _ hl => (leads_within_iff.mp hl).1, ?_, hfirst⟩
  refine List.forall_mem_cons.mpr ⟨Connected.refl _, ?_⟩
  exact forall_mem_of_isChain (fun {_ y} hl => (hmem y).mp (leads_within_iff.mp hl).2) hchain

/-! ## The cycle of one component -/

/-- Whatever is found in a list comes before everything else that could have been found. -/
theorem idxOf_le_of_find? {p : String → Bool} : ∀ {l : List String},
    l.find? p = some a → b ∈ l → p b → l.idxOf a ≤ l.idxOf b := by
  intro l
  induction l with
  | nil => intro h; cases h
  | cons x rest ih =>
    intro h hb hpb
    rw [List.find?_cons] at h
    split at h
    · obtain rfl := Option.some.inj h
      rw [List.idxOf_cons_self]
      exact Nat.zero_le _
    · rename_i hx
      have hpa : p a = true := List.find?_some h
      have hxa : x ≠ a := fun heq => by rw [heq, hpa] at hx; cases hx
      have hxb : x ≠ b := fun heq => by rw [heq, hpb] at hx; cases hx
      rw [List.idxOf_cons_ne _ hxa, List.idxOf_cons_ne _ hxb]
      exact Nat.succ_le_succ (ih h ((List.mem_cons.mp hb).resolve_left (Ne.symm hxb)) hpb)

/-- A component has one first member, since names stand at different places. -/
theorem IsFirst.unique (ha : g.IsFirst a) (hb : g.IsFirst b) (h : g.Connected a b)
    (hmem : a ∈ g.names) : a = b :=
  (List.idxOf_inj hmem).mp (Nat.le_antisymm (ha b h) (hb a h.symm))

/-- A declared name that is found to be a member is the first of its component. -/
theorem first?_eq_some_iff (hmem : ∀ b, b ∈ members ↔ g.Connected a b) (ha : a ∈ g.names) :
    g.first? members = some start ↔ g.Connected a start ∧ g.IsFirst start := by
  have hfound : ∀ {s}, g.first? members = some s → g.Connected a s ∧ g.IsFirst s := by
    intro s h
    have hs : g.Connected a s := (hmem s).mp (List.contains_iff_mem.mp (List.find?_some h))
    refine ⟨hs, fun b hb => ?_⟩
    exact idxOf_le_of_find? h ((hs.trans hb).mem_names ha)
      (List.contains_iff_mem.mpr ((hmem b).mpr (hs.trans hb)))
  constructor
  · exact hfound
  · rintro ⟨hs, hfirst⟩
    obtain ⟨s, h⟩ : ∃ s, g.first? members = some s := by
      refine Option.isSome_iff_exists.mp (List.find?_isSome.mpr ⟨a, ha, ?_⟩)
      exact List.contains_iff_mem.mpr ((hmem a).mpr (Connected.refl a))
    obtain ⟨hs', hfirst'⟩ := hfound h
    rw [h, hfirst'.unique hfirst (hs'.symm.trans hs) (hs'.mem_names ha)]

/-- Each component has a first member. -/
theorem exists_isFirst (ha : a ∈ g.names) : ∃ start, g.Connected a start ∧ g.IsFirst start := by
  have hmem : ∀ b, b ∈ g.component a ↔ g.Connected a b := fun _ => mem_component_iff ha
  obtain ⟨start, hstart⟩ : ∃ start, g.first? (g.component a) = some start := by
    refine Option.isSome_iff_exists.mp (List.find?_isSome.mpr ⟨a, ha, ?_⟩)
    exact List.contains_iff_mem.mpr ((hmem a).mpr (Connected.refl a))
  exact ⟨start, (first?_eq_some_iff hmem ha).mp hstart⟩

/-- The test for a cycle: several members, or a member that embeds itself. -/
theorem isCycle_iff (hmem : ∀ b, b ∈ members ↔ g.Connected start b) (hnodup : members.Nodup) :
    (1 < members.length ∨ start ∈ g.targets start) ↔ g.OnCycle start := by
  refine or_congr ?_ mem_targets_iff
  have hself : start ∈ members := (hmem start).mpr (Connected.refl start)
  constructor
  · intro hlen
    by_contra hnone
    have hsub : members ⊆ [start] := by
      intro b hb
      by_contra hne
      exact hnone ⟨b, fun heq => hne (List.mem_singleton.mpr heq), (hmem b).mp hb⟩
    have hle := (List.subperm_of_subset hnodup hsub).length_le
    rw [List.length_singleton] at hle
    omega
  · rintro ⟨b, hne, hb⟩
    have hsub : [b, start] ⊆ members :=
      List.cons_subset.mpr ⟨(hmem b).mpr hb, List.cons_subset.mpr ⟨hself, List.nil_subset _⟩⟩
    exact (List.subperm_of_subset (by simpa using hne) hsub).length_le

theorem IsCyclePath.head? (h : g.IsCyclePath start path) : path.head? = some start := by
  obtain ⟨inner, rfl, -⟩ := h.closed
  rfl

/-- The path of a component that is a cycle, from its first member, reports the cycle. -/
theorem isCyclePath_cyclePath (hs : start ∈ g.names) (hfirst : g.IsFirst start)
    (hcycle : g.OnCycle start) : g.IsCyclePath start (g.cyclePath start (g.component start)) := by
  have hmem : ∀ b, b ∈ g.component start ↔ g.Connected start b := fun _ => mem_component_iff hs
  obtain ⟨path, hpath⟩ := Option.isSome_iff_exists.mp (walkAmong?_isSome hmem hcycle)
  rw [cyclePath, hpath, Option.getD_some]
  exact isCyclePath_of_walkAmong? hmem hfirst hpath

/-- The path depends on the members only, not on their order. -/
theorem cyclePath_congr {others : List String} (h : ∀ b, b ∈ members ↔ b ∈ others) :
    g.cyclePath start members = g.cyclePath start others := by
  have hcontains : members.contains = others.contains := by
    funext b
    rw [Bool.eq_iff_iff, List.contains_iff_mem, List.contains_iff_mem]
    exact h b
  rw [cyclePath, cyclePath, walkAmong?, walkAmong?, hcontains]

/-! ## The cycles of all components -/

section Components

variable {components : List (List String)} {entry : Nat × List String}

/-- A component gives an entry of the report when it is a cycle: the place of its first member and a
path. -/
theorem cycleOf?_eq_some_iff (h : g.IsComponents components) (hm : members ∈ components) :
    g.cycleOf? members = some entry ↔
      ∃ start ∈ members, g.IsFirst start ∧ g.OnCycle start ∧
        entry = (g.names.idxOf start, g.cyclePath start (g.component start)) := by
  have hentry : ∀ {start}, start ∈ members →
      (1 < members.length ∨ start ∈ g.targets start ↔ g.OnCycle start) ∧
        (g.first? members = some start ↔ g.IsFirst start) ∧
        g.cyclePath start members = g.cyclePath start (g.component start) := by
    intro start hs
    have hmem : ∀ b, b ∈ members ↔ g.Connected start b := fun _ => h.mem_iff hm hs
    refine ⟨isCycle_iff hmem (h.nodup_members hm), ?_, ?_⟩
    · rw [first?_eq_some_iff hmem (h.mem_names hm hs)]
      exact and_iff_right (Connected.refl start)
    · exact cyclePath_congr fun b => (hmem b).trans (mem_component_iff (h.mem_names hm hs)).symm
  simp only [cycleOf?, Option.bind_eq_some_iff, Option.ite_none_right_eq_some, Option.some.injEq]
  constructor
  · rintro ⟨start, hfound, hcycle, rfl⟩
    have hs : start ∈ members := List.contains_iff_mem.mp (List.find?_some hfound)
    obtain ⟨hiff, hfirst, hpath⟩ := hentry hs
    exact ⟨start, hs, hfirst.mp hfound, hiff.mp hcycle, by rw [hpath]⟩
  · rintro ⟨start, hs, hfound, hcycle, rfl⟩
    obtain ⟨hiff, hfirst, hpath⟩ := hentry hs
    exact ⟨start, hfirst.mpr hfound, hiff.mpr hcycle, by rw [hpath]⟩

/-- The entries of the report do not depend on the order in which the components are listed. -/
theorem mem_entries_iff (h : g.IsComponents components) :
    entry ∈ components.filterMap g.cycleOf? ↔
      ∃ start ∈ g.names, g.IsFirst start ∧ g.OnCycle start ∧
        entry = (g.names.idxOf start, g.cyclePath start (g.component start)) := by
  rw [List.mem_filterMap]
  constructor
  · rintro ⟨members, hm, hentry⟩
    obtain ⟨start, hs, hrest⟩ := (cycleOf?_eq_some_iff h hm).mp hentry
    exact ⟨start, h.mem_names hm hs, hrest⟩
  · rintro ⟨start, hs, hrest⟩
    obtain ⟨members, hm, hin⟩ := h.exists_mem hs
    exact ⟨members, hm, (cycleOf?_eq_some_iff h hm).mpr ⟨start, hin, hrest⟩⟩

/-- Different components have different first members. -/
theorem pairwise_entries (h : g.IsComponents components) :
    (components.filterMap g.cycleOf?).Pairwise fun x y => x.1 ≠ y.1 := by
  refine List.pairwise_filterMap.mpr (h.pairwise_disjoint.imp_of_mem ?_)
  intro members others hm ho hdisjoint x hx y hy hplace
  obtain ⟨start, hs, -, -, rfl⟩ := (cycleOf?_eq_some_iff h hm).mp hx
  obtain ⟨start', hs', -, -, rfl⟩ := (cycleOf?_eq_some_iff h ho).mp hy
  obtain rfl := (List.idxOf_inj (h.mem_names hm hs)).mp hplace
  exact hdisjoint hs hs'

/-- Put in order, the entries stand at increasing places. -/
theorem pairwise_lt_mergeSort {entries : List (Nat × List String)}
    (h : entries.Pairwise fun x y => x.1 ≠ y.1) :
    (entries.mergeSort fun x y => x.1 ≤ y.1).Pairwise fun x y => x.1 < y.1 := by
  have hle : (entries.mergeSort fun x y => x.1 ≤ y.1).Pairwise fun x y => decide (x.1 ≤ y.1) := by
    refine List.pairwise_mergeSort ?_ ?_ entries
    · intro x y z hxy hyz
      simp only [decide_eq_true_eq] at hxy hyz ⊢
      omega
    · intro x y
      simp only [Bool.or_eq_true, decide_eq_true_eq]
      omega
  have hne := (List.mergeSort_perm entries fun x y => decide (x.1 ≤ y.1)).pairwise_iff
    (R := fun x y => x.1 ≠ y.1) (fun hxy => Ne.symm hxy)
  refine (hle.and (hne.mpr h)).imp ?_
  rintro x y ⟨hxy, hxy'⟩
  exact Nat.lt_of_le_of_ne (of_decide_eq_true hxy) hxy'

/-- Two lists of the components give the same report. -/
theorem cyclesAmong_congr {others : List (List String)} (h : g.IsComponents components)
    (h' : g.IsComponents others) : g.cyclesAmong components = g.cyclesAmong others := by
  have hnodup : ∀ {cs}, g.IsComponents cs → (cs.filterMap g.cycleOf?).Nodup := fun hcs =>
    (pairwise_entries hcs).imp fun hne heq => hne (congrArg Prod.fst heq)
  have hperm : (components.filterMap g.cycleOf?).Perm (others.filterMap g.cycleOf?) :=
    (List.perm_ext_iff_of_nodup (hnodup h) (hnodup h')).mpr fun _ =>
      (mem_entries_iff h).trans (mem_entries_iff h').symm
  refine congrArg (List.map Prod.snd) (List.Perm.eq_of_pairwise ?_
    (pairwise_lt_mergeSort (pairwise_entries h)) (pairwise_lt_mergeSort (pairwise_entries h')) ?_)
  · intro x y _ _ hxy hyx
    omega
  · exact (List.mergeSort_perm _ _).trans (hperm.trans (List.mergeSort_perm _ _).symm)

/-- The paths that are reported, by their first members. -/
theorem mem_cyclesAmong_iff (h : g.IsComponents components) :
    path ∈ g.cyclesAmong components ↔ ∃ start ∈ g.names, g.IsFirst start ∧ g.OnCycle start ∧
      path = g.cyclePath start (g.component start) := by
  simp only [cyclesAmong, List.mem_map, List.mem_mergeSort, mem_entries_iff h]
  constructor
  · rintro ⟨_, ⟨start, hs, hfirst, hcycle, rfl⟩, rfl⟩
    exact ⟨start, hs, hfirst, hcycle, rfl⟩
  · rintro ⟨start, hs, hfirst, hcycle, rfl⟩
    exact ⟨_, ⟨start, hs, hfirst, hcycle, rfl⟩, rfl⟩

/-- A component that is a cycle is reported by one path: that from its first member. -/
theorem existsUnique_mem_cyclesAmong (h : g.IsComponents components) (ha : a ∈ g.names)
    (hcycle : g.OnCycle a) : ∃! path, path ∈ g.cyclesAmong components ∧
      ∃ start, path.head? = some start ∧ g.Connected start a := by
  obtain ⟨start, hconn, hfirst⟩ := exists_isFirst ha
  have hs := hconn.mem_names ha
  have hcycle' := hcycle.of_connected hconn
  refine ⟨g.cyclePath start (g.component start), ⟨(mem_cyclesAmong_iff h).mpr
    ⟨start, hs, hfirst, hcycle', rfl⟩, start, ?_, hconn.symm⟩, ?_⟩
  · exact (isCyclePath_cyclePath hs hfirst hcycle').head?
  · rintro path ⟨hp, other, hhead, hconn'⟩
    obtain ⟨first, hs', hfirst', hcycle'', rfl⟩ := (mem_cyclesAmong_iff h).mp hp
    have hsame := (isCyclePath_cyclePath hs' hfirst' hcycle'').head?
    obtain rfl : first = other := Option.some.inj (hsame.symm.trans hhead)
    rw [hfirst'.unique hfirst (hconn'.trans hconn) hs']

/-- Whatever list of the components is given, the cycles among them are reported. -/
theorem isCycleReport_cyclesAmong (h : g.IsComponents components) :
    g.IsCycleReport (g.cyclesAmong components) := by
  refine ⟨?_, fun a => existsUnique_mem_cyclesAmong h, ?_⟩
  · intro path hp
    obtain ⟨start, hs, hfirst, hcycle, rfl⟩ := (mem_cyclesAmong_iff h).mp hp
    exact ⟨start, hs, hcycle, isCyclePath_cyclePath hs hfirst hcycle⟩
  · rw [cyclesAmong, List.pairwise_map]
    refine (pairwise_lt_mergeSort (pairwise_entries h)).imp_of_mem ?_
    intro x y hx hy hlt
    obtain ⟨a, ha, hfa, hca, rfl⟩ := (mem_entries_iff h).mp (List.mem_mergeSort.mp hx)
    obtain ⟨b, hb, hfb, hcb, rfl⟩ := (mem_entries_iff h).mp (List.mem_mergeSort.mp hy)
    exact ⟨a, (isCyclePath_cyclePath ha hfa hca).head?, b, (isCyclePath_cyclePath hb hfb hcb).head?,
      hlt⟩

end Components

/-! ## The report -/

/-- **The cycles that are reported** are exactly the components that are cycles, for every graph:
each by one closed path from its first member, in the order of declaration, and each with one
diagnostic.

The first two parts say what the report rests on. The components may be listed in any order by
whatever finds them; and in a component that is a cycle a walk is always found, so no path is made
up from the list of members. -/
theorem embeddingCycles_report (g : TypeGraph) :
    g.IsComponents g.components ∧
      (∀ components, g.IsComponents components →
        g.cyclesAmong components = g.embeddingCycles ∧
          ∀ members ∈ components, ∀ start, g.first? members = some start →
            (1 < members.length ∨ start ∈ g.targets start) →
              (g.walkAmong? start members).isSome) ∧
      g.IsCycleReport g.embeddingCycles ∧
      List.Forall₂
        (fun (d : Diagnostic) path =>
          d.kind = .embeddingCycle ∧ d.related = path ∧ d.subject = path.head?)
        g.cycleDiagnostics g.embeddingCycles := by
  have hcomponents := g.isComponents_components
  refine ⟨hcomponents, ?_, isCycleReport_cyclesAmong hcomponents, ?_⟩
  · intro components h
    refine ⟨cyclesAmong_congr h hcomponents, ?_⟩
    intro members hm start hstart hcycle
    have hs : start ∈ members := List.contains_iff_mem.mp (List.find?_some hstart)
    have hmem : ∀ b, b ∈ members ↔ g.Connected start b := fun _ => h.mem_iff hm hs
    exact walkAmong?_isSome hmem ((isCycle_iff hmem (h.nodup_members hm)).mp hcycle)
  · rw [cycleDiagnostics, List.forall₂_map_left_iff]
    exact List.forall₂_same.mpr fun path _ => ⟨rfl, rfl, rfl⟩

end GoAtlas.TypeGraph
