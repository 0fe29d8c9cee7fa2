import GoAtlas.Proofs.Graph.AliasChains
import GoAtlas.Proofs.Graph.Entries
import GoAtlas.Proofs.Graph.History
import GoAtlas.Proofs.View.Expansion

/-!
# How long a query takes

The queries have a bound on their steps only so that it is plain that they end. Here they are taken
without it: as relations between what is asked, a record of the steps and what comes out (`Levels`
for the levels of a view, `Chases` for aliases, `Walk.Looks` for cycles). On every graph, cyclic or
not, each of them has one run, which takes one step more than there are declarations at the most;
and with any bound from there on the query gives what comes out of this run (`Ends`, `queries_end`).
-/

namespace GoAtlas

/-- A query ends with an outcome: `run` is the query without a bound on its steps, and `bounded` the
query with one. -/
structure Ends {α β : Type} (run : List α → β → Prop) (bounded : Nat → β) (limit : Nat)
    (log : List α) (outcome : β) : Prop where
  /-- the steps of `log` lead to the outcome -/
  ends : run log outcome
  /-- nothing else can be run -/
  only : ∀ others other, run others other → others = log ∧ other = outcome
  /-- there are no more steps than the limit -/
  length_le : log.length ≤ limit
  /-- a bound that is not below the limit makes no difference -/
  bounded_eq : ∀ fuel, limit ≤ fuel → bounded fuel = outcome

namespace TypeGraph

variable {g : TypeGraph} {root name : String} {level n k : Nat} {x y z : Expansion}
  {direct : List Field} {log others : List (List Visit)} {members : List String} {p : PromotedField}

/-! ## Levels without a bound -/

/-- Expands the types of a level and of those below, while there are any: the visits that are
planned for each level, and the expansion after the last. -/
inductive Levels (g : TypeGraph) : Nat → Expansion → List (List Visit) → Expansion → Prop
  | done {level : Nat} {x : Expansion} : x.next = [] → Levels g level x [] x
  | next {level : Nat} {x y : Expansion} {log : List (List Visit)} : x.next ≠ [] →
      Levels g (level + 1) (x.next.foldl (g.expandVisit level) { x with next := [] }) log y →
      Levels g level x (x.next :: log) y

/-- An expansion has one log and one end. -/
theorem Levels.unique (h : g.Levels level x log y) (h' : g.Levels level x others z) :
    others = log ∧ z = y := by
  induction h generalizing others z with
  | done hnil =>
    cases h' with
    | done => exact ⟨rfl, rfl⟩
    | next hne => exact absurd hnil hne
  | next hne _ ih =>
    cases h' with
    | done hnil => exact absurd hnil hne
    | next _ hrest =>
      obtain ⟨rfl, rfl⟩ := ih hrest
      exact ⟨rfl, rfl⟩

/-- **Levels with a bound** come to what the levels come to, if the bound leaves room for them. -/
theorem Levels.expandLevels_eq (h : g.Levels level x log y) {fuel : Nat}
    (hfuel : log.length ≤ fuel) : g.expandLevels fuel level x = y := by
  induction h generalizing fuel with
  | done hnil => exact expandLevels_of_next_eq_nil fuel hnil
  | next hne _ ih =>
    rw [List.length_cons] at hfuel
    obtain ⟨fuel, rfl⟩ := Nat.exists_eq_add_of_le' (Nat.le_trans (Nat.le_add_left 1 _) hfuel)
    rw [expandLevels, if_neg (mt List.isEmpty_iff.mp hne)]
    exact ih (Nat.le_of_add_le_add_right hfuel)

/-- Without trails on a level no visits are planned after it. -/
theorem next_eq_nil (h : (g.stage root n).trails = []) :
    (g.expansionAt root direct n).next = [] := by
  rw [expansionAt, h]
  rfl

/-- **The levels come to an end**: from each level on there are at most those that are left when
there are as many levels as declarations. -/
theorem exists_levels (hroot : g.IsPlain root) (direct : List Field) :
    ∀ {k n}, g.declarations.length ≤ n + k → ∃ log m, log.length ≤ k ∧
      g.Levels (n + 1) (g.expansionAt root direct n) log (g.expansionAt root direct m) := by
  intro k
  induction k with
  | zero =>
    intro n hn
    exact ⟨[], n, le_rfl, .done (next_eq_nil (trails_eq_nil hroot hn))⟩
  | succ k ih =>
    intro n hn
    by_cases hnext : (g.expansionAt root direct n).next = []
    · exact ⟨[], n, Nat.zero_le _, .done hnext⟩
    · -- the next level is run, and what comes after it has one level less
      obtain ⟨log, m, hlength, hlevels⟩ := @ih (n + 1) (by omega)
      rw [← foldl_next] at hlevels
      exact ⟨_ :: log, m, Nat.succ_le_succ hlength, .next hnext hlevels⟩

/-- **No level is above** the number of declarations, since nothing is left to visit after as many
levels. -/
theorem level_le_of_mem_expansionAt (hroot : g.IsPlain root)
    (hp : p ∈ (g.expansionAt root direct n).fields) : p.level ≤ g.declarations.length := by
  rw [expansionAt] at hp
  dsimp only at hp
  rw [promote_eq, List.mem_append] at hp
  rcases hp with hp | hp
  · obtain ⟨field, -, rfl⟩ := List.mem_map.mp hp
    exact Nat.zero_le _
  · obtain ⟨t, ht, hp⟩ := List.mem_flatMap.mp (firsts_sublist.subset hp)
    obtain ⟨field, -, rfl⟩ := List.mem_map.mp hp
    obtain ⟨m, -, ht⟩ := mem_discovered_iff.mp ht
    refine Nat.le_of_lt (Nat.lt_of_not_le fun hle => ?_)
    have hlength : t.ranks.length = m + 1 := (chain_of_mem_stage ht).2
    rw [trails_eq_nil hroot (hlength ▸ hle)] at ht
    cases ht

/-! ## The queries -/

theorem followAliases_ends (g : TypeGraph) (name : String) : ∃ log,
    Ends (g.Chases [] name) (fun fuel => g.chase fuel [] name) (g.declarations.length + 1) log
      (g.followAliases name) := by
  obtain ⟨log, r, h⟩ : ∃ log r, g.Chases [] name log r := g.exists_chases le_rfl
  rw [h.followAliases_eq]
  exact ⟨log, h, fun _ _ h' => h.unique h', h.length_le, fun fuel hfuel =>
    h.chase_eq (h.length_le.trans hfuel)⟩

/-- The search for a cycle through a type visits no type twice. -/
theorem cycleThrough?_ends (h : name ∈ g.names) : ∃ log,
    Ends (Walk.Looks g.targets .onLeaving name)
        (fun fuel => Walk.closedWalkOnStack? g.targets fuel name) g.declarations.length log
        (g.cycleThrough? name) ∧
      log.Nodup ∧ log ⊆ g.names := by
  obtain ⟨log, walk?, hlooks⟩ := Walk.exists_looks g.targets_subset_names .onLeaving name
  have hlength : log.length ≤ g.declarations.length :=
    length_names g ▸ hlooks.length_le g.targets_subset_names h
  rw [cycleThrough?, hlooks.closedWalkOnStack?_eq (Nat.le_succ_of_le hlength)]
  exact ⟨log, ⟨hlooks, fun _ _ h' => hlooks.unique h', hlength, fun fuel hfuel =>
    hlooks.closedWalkOnStack?_eq (hlength.trans hfuel)⟩, hlooks.nodup,
    hlooks.subset g.targets_subset_names h⟩

theorem walkAmong?_ends (h : name ∈ g.names) (hname : name ∈ members) : ∃ log,
    Ends (Walk.Looks (fun x => (g.targets x).filter members.contains) .onEntry name)
        (fun fuel => Walk.closedWalk? (fun x => (g.targets x).filter members.contains) fuel name)
        members.length log (g.walkAmong? name members) ∧
      log.Nodup ∧ log ⊆ members := by
  have hmembers : ∀ x, (g.targets x).filter members.contains ⊆ members := fun x y hy =>
    List.contains_iff_mem.mp (List.mem_filter.mp hy).2
  have hnames : ∀ x, (g.targets x).filter members.contains ⊆ g.names := fun x =>
    List.Subset.trans List.filter_sublist.subset (g.targets_subset_names x)
  obtain ⟨log, walk?, hlooks⟩ := Walk.exists_looks hnames .onEntry name
  -- the nodes entered are both declared names, which pay for the fuel, and members
  have hall : log.length ≤ g.declarations.length :=
    length_names g ▸ hlooks.length_le hnames h
  have hlength : log.length ≤ members.length := hlooks.length_le hmembers hname
  rw [walkAmong?, hlooks.closedWalk?_eq (Nat.le_succ_of_le hall)]
  exact ⟨log, ⟨hlooks, fun _ _ h' => hlooks.unique h', hlength, fun fuel hfuel =>
    hlooks.closedWalk?_eq (hlength.trans hfuel)⟩, hlooks.nodup, hlooks.subset hmembers hname⟩

/-- **An expansion ends**: each level takes types that none before it has taken. -/
theorem expandLevels_ends (h : g.lookupStruct root = .ok direct) : ∃ log x,
    Ends (g.Levels 1 (g.outset root direct))
        (fun fuel => g.expandLevels fuel 1 (g.outset root direct)) g.declarations.length log x ∧
      x.expanded.Nodup ∧ x.expanded ⊆ g.names ∧
      ∀ p ∈ x.fields, p.level ≤ g.declarations.length := by
  have hroot := isPlain_of_lookupStruct h
  obtain ⟨log, m, hlength, hlevels⟩ :=
    exists_levels hroot direct (n := 0) (Nat.le_of_eq (Nat.zero_add _).symm)
  rw [expansionAt_zero, Nat.zero_add] at hlevels
  refine ⟨log, g.expansionAt root direct m, ⟨hlevels, fun _ _ h' => hlevels.unique h', hlength,
    fun fuel hfuel => hlevels.expandLevels_eq (hlength.trans hfuel)⟩,
    List.nodup_reverse.mpr (nodup_visited g root m), ?_, fun p => level_le_of_mem_expansionAt hroot⟩
  exact fun y hy => visited_subset_names hroot (List.mem_reverse.mp hy)

/-- **Every query ends**, on every graph and for every name. Following aliases looks at no more
names than are declared and one. The search for a cycle through a declared name enters each name
once at most, and so does the search that stays among the members of a component. The levels of a
view are no more than there are declarations, expand each declared name once at most, and promote no
field on a higher level. -/
theorem queries_end (g : TypeGraph) (name : String) :
    (∃ log, Ends (g.Chases [] name) (fun fuel => g.chase fuel [] name)
      (g.declarations.length + 1) log (g.followAliases name)) ∧
    (name ∈ g.names → ∃ log,
      Ends (Walk.Looks g.targets .onLeaving name)
          (fun fuel => Walk.closedWalkOnStack? g.targets fuel name) g.declarations.length log
          (g.cycleThrough? name) ∧
        log.Nodup ∧ log ⊆ g.names) ∧
    (∀ members, name ∈ g.names → name ∈ members → ∃ log,
      Ends (Walk.Looks (fun x => (g.targets x).filter members.contains) .onEntry name)
          (fun fuel => Walk.closedWalk? (fun x => (g.targets x).filter members.contains) fuel name)
          members.length log (g.walkAmong? name members) ∧
        log.Nodup ∧ log ⊆ members) ∧
    (∀ direct, g.lookupStruct name = .ok direct → ∃ log x v,
      Ends (g.Levels 1 (g.outset name direct))
          (fun fuel => g.expandLevels fuel 1 (g.outset name direct)) g.declarations.length log x ∧
        x.expanded.Nodup ∧ x.expanded ⊆ g.names ∧
        g.flattened name = .ok v ∧ v.cycle = g.cycleThrough? name ∧
        (v.cycle = none → v.fields = x.fields ∧ v.unresolved = x.unresolved) ∧
        ∀ p ∈ v.fields, p.level ≤ g.declarations.length) := by
  refine ⟨g.followAliases_ends name, cycleThrough?_ends, fun _ => walkAmong?_ends,
    fun direct h => ?_⟩
  obtain ⟨log, x, hends, hnodup, hsubset, hlevels⟩ := expandLevels_ends h
  rw [flattened_eq_expandLevels h, hends.bounded_eq _ (Nat.le_succ _)]
  rcases g.cycleThrough? name with _ | path
  · exact ⟨log, x, _, hends, hnodup, hsubset, rfl, rfl, fun _ => ⟨rfl, rfl⟩, hlevels⟩
  · refine ⟨log, x, _, hends, hnodup, hsubset, rfl, rfl, nofun, fun p hp => ?_⟩
    obtain ⟨field, -, rfl⟩ := List.mem_map.mp hp
    exact Nat.zero_le _

/-- A struct `T` that embeds `A` and `B`, which embed each other; and `A` embeds itself too. -/
def knotted : TypeGraph :=
  (ofCandidates default
    [structOf "T" 1 [embeddingOf "A" 1, embeddingOf "B" 1],
      structOf "A" 2 [embeddingOf "B" 2, embeddingOf "A" 2],
      structOf "B" 3 [embeddingOf "A" 3]]).1

theorem queries_end_knotted :
    (∃ log, Ends (Walk.Looks knotted.targets .onLeaving "A")
      (fun fuel => Walk.closedWalkOnStack? knotted.targets fuel "A") 3 log
        (some ["A", "B", "A"])) ∧
    (∃ log, Ends
      (Walk.Looks (fun x => (knotted.targets x).filter ["B", "A"].contains) .onEntry "A")
      (fun fuel =>
        Walk.closedWalk? (fun x => (knotted.targets x).filter ["B", "A"].contains) fuel "A")
      2 log (some ["A", "B", "A"])) ∧
    ∃ direct log x, knotted.lookupStruct "T" = .ok direct ∧
      Ends (knotted.Levels 1 (knotted.outset "T" direct))
        (fun fuel => knotted.expandLevels fuel 1 (knotted.outset "T" direct)) 3 log x := by
  obtain ⟨-, hstack, hamong, -⟩ := queries_end knotted "A"
  obtain ⟨-, -, -, hlevels⟩ := queries_end knotted "T"
  have hfound : knotted.cycleThrough? "A" = some ["A", "B", "A"] := by decide
  have hinside : knotted.walkAmong? "A" ["B", "A"] = some ["A", "B", "A"] := by decide
  obtain ⟨direct, hdirect⟩ : ∃ direct, knotted.lookupStruct "T" = .ok direct := ⟨_, rfl⟩
  obtain ⟨log, hlog, -⟩ := hstack (by decide)
  obtain ⟨log', hlog', -⟩ := hamong ["B", "A"] (by decide) (by decide)
  obtain ⟨log'', x, v, hx, -⟩ := hlevels direct hdirect
  rw [hfound] at hlog
  rw [hinside] at hlog'
  exact ⟨⟨log, hlog⟩, ⟨log', hlog'⟩, direct, log'', x, hdirect, hx⟩

end TypeGraph

end GoAtlas
