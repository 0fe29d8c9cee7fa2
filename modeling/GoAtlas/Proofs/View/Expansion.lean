import GoAtlas.Proofs.View.Levels

/-!
# The expansion of a struct

The expansion goes through the levels: after level `n` it has promoted the fields of the types
discovered down to that level, and the visits that it plans are those of the next level
(`expandLevels_expansionAt`). So the fields of a view are the direct fields and, of each other name,
the first field among those of all types in the order of their discovery (`flattened_eq`).
-/

namespace GoAtlas

/-- The name of a field of a view. -/
def PromotedField.name (f : PromotedField) : String :=
  f.field.name

namespace TypeGraph

open Relation (ReflTransGen)

variable {g : TypeGraph} {root : String} {level n : Nat} {x : Expansion} {v : Visit} {t : Trail}
  {found fields others : List PromotedField} {direct : List Field}

/-! ## Promotion -/

/-- **Promotion** adds the first field of each name that is not there yet. -/
theorem promote_eq : promote found fields =
    found ++ firsts PromotedField.name (found.map PromotedField.name) fields := by
  induction fields generalizing found with
  | nil => exact (List.append_nil found).symm
  | cons f rest ih =>
    have hany : found.any (·.field.name == f.field.name) = true ↔
        f.name ∈ found.map PromotedField.name := by
      simp only [List.any_eq_true, beq_iff_eq, List.mem_map, PromotedField.name]
    rw [promote]
    by_cases hf : f.name ∈ found.map PromotedField.name
    · rw [if_pos (hany.mpr hf), firsts_cons_of_mem hf, ih]
    · rw [if_neg (mt hany.mp hf), firsts_cons_of_not_mem hf, ih, List.map_append, List.append_assoc]
      rfl

theorem promote_append : promote found (fields ++ others) =
    promote (promote found fields) others := by
  rw [promote_eq, promote_eq, promote_eq, List.map_append, firsts_append, List.append_assoc]

/-! ## Visits -/

/-- The direct fields of a declared name; none for a name that is not declared. -/
def fieldsOf (g : TypeGraph) (name : String) : List Field :=
  ((g.find? name).map Declaration.fields).getD []

/-- The fields that a visit supplies to the view. -/
def supply (g : TypeGraph) (level : Nat) (v : Visit) : List PromotedField :=
  ownFields v.name v.via level (g.fieldsOf v.name)

/-- The expansion after some types were expanded on a level, each for the first time. -/
def expanding (g : TypeGraph) (level : Nat) (x : Expansion) (vs : List Visit) : Expansion :=
  { fields := promote x.fields (vs.flatMap (g.supply level))
    expanded := (vs.map Visit.name).reverse ++ x.expanded
    next := x.next ++ vs.flatMap fun v => g.visits v.name v.via
    unresolved := x.unresolved ++ vs.flatMap fun v => g.unresolvedOf v.name }

/-- A type that has been expanded is not expanded again. -/
theorem expandVisit_of_mem (h : v.name ∈ x.expanded) : g.expandVisit level x v = x := by
  rw [expandVisit, if_pos (List.contains_iff_mem.mpr h)]

theorem expandVisit_of_not_mem (h : v.name ∉ x.expanded) (hv : g.IsPlain v.name) :
    g.expandVisit level x v = g.expanding level x [v] := by
  obtain ⟨d, hd⟩ := hv.exists_find?
  have hname : d.name = v.name := name_of_find? hd
  have hfields : g.fieldsOf v.name = d.fields := by rw [fieldsOf, hd]; rfl
  rw [expandVisit, if_neg (mt List.contains_iff_mem.mp h), hd, expanding]
  simp only [List.flatMap_singleton, supply, hfields, hname]
  rfl

theorem expanding_expanding (vs ws : List Visit) :
    g.expanding level (g.expanding level x vs) ws = g.expanding level x (vs ++ ws) := by
  simp only [expanding, List.flatMap_append, List.map_append, List.reverse_append, promote_append,
    List.append_assoc]

theorem expanding_nil : g.expanding level x [] = x := by
  simp only [expanding, List.flatMap_nil, List.map_nil, List.reverse_nil, List.nil_append,
    List.append_nil, promote]

/-- **The visits of a level** expand the first of each type that was not expanded before. -/
theorem foldl_expandVisit {vs : List Visit} (hvs : ∀ v ∈ vs, g.IsPlain v.name) :
    vs.foldl (g.expandVisit level) x = g.expanding level x (firsts Visit.name x.expanded vs) := by
  induction vs generalizing x with
  | nil => exact expanding_nil.symm
  | cons v rest ih =>
    obtain ⟨hv, hrest⟩ := List.forall_mem_cons.mp hvs
    rw [List.foldl_cons]
    by_cases h : v.name ∈ x.expanded
    · rw [expandVisit_of_mem h, ih hrest, firsts_cons_of_mem h]
    · have hkeys : ∀ k, k ∈ (g.expanding level x [v]).expanded ↔ k ∈ x.expanded ++ [v.name] := by
        intro k
        rw [List.mem_append, List.mem_singleton, or_comm]
        exact List.mem_cons
      rw [expandVisit_of_not_mem h hv, ih hrest, expanding_expanding, firsts_cons_of_not_mem h,
        firsts_congr hkeys, List.singleton_append]

/-! ## Levels -/

/-- The expansion of a struct after some levels. -/
def expansionAt (g : TypeGraph) (root : String) (direct : List Field) (n : Nat) : Expansion :=
  { fields := promote (ownFields root [] 0 direct)
      ((g.discovered root n).flatMap fun t => g.supply t.ranks.length t.toVisit)
    expanded := (g.stage root n).visited.reverse
    next := ((g.stage root n).trails.flatMap g.extend).map Trail.toVisit
    unresolved :=
      g.unresolvedOf root ++ (g.discovered root n).flatMap fun t => g.unresolvedOf t.name }

/-- The expansion of a struct before the first level. -/
def outset (g : TypeGraph) (root : String) (direct : List Field) : Expansion :=
  { fields := ownFields root [] 0 direct
    expanded := [root]
    next := g.visits root []
    unresolved := g.unresolvedOf root }

/-- At the start nothing is expanded but the struct itself. -/
theorem expansionAt_zero (g : TypeGraph) (root : String) (direct : List Field) :
    g.expansionAt root direct 0 = g.outset root direct := by
  rw [expansionAt, stage, discovered, List.flatMap_singleton, map_toVisit_extend,
    List.flatMap_nil, List.flatMap_nil, List.append_nil]
  rfl

/-- Whatever is met is declared, and not as an alias. -/
theorem isPlain_of_mem_next (h : v ∈ (g.expansionAt root direct n).next) : g.IsPlain v.name := by
  obtain ⟨u, hu, rfl⟩ := List.mem_map.mp h
  obtain ⟨t, -, hu⟩ := List.mem_flatMap.mp hu
  obtain ⟨e, r, -, hstep⟩ := mem_extend_iff.mp hu
  obtain ⟨-, name, -, hfollow, -⟩ := step?_eq_some hstep
  exact isPlain_of_followAliases hfollow

/-- **One level further**: expanding the visits that are planned after level `n` gives the expansion
after level `n + 1`. -/
theorem foldl_next (g : TypeGraph) (root : String) (direct : List Field) (n : Nat) :
    (g.expansionAt root direct n).next.foldl (g.expandVisit (n + 1))
      { g.expansionAt root direct n with next := [] } = g.expansionAt root direct (n + 1) := by
  -- of the planned visits those to new types make up the next level, whose chains have `n + 1`
  -- embeddings, and their own embeddings are planned for the level after
  have hfresh : firsts Visit.name (g.expansionAt root direct n).expanded
      (g.expansionAt root direct n).next = (g.stage root (n + 1)).trails.map Trail.toVisit := by
    rw [stage, expansionAt, map_firsts Trail.toVisit fun _ => rfl]
    exact firsts_congr fun _ => List.mem_reverse
  have hlevel : (g.stage root (n + 1)).trails.flatMap (fun t => g.supply (n + 1) t.toVisit) =
      (g.stage root (n + 1)).trails.flatMap fun t => g.supply t.ranks.length t.toVisit := by
    refine List.flatMap_congr fun t ht => ?_
    rw [(chain_of_mem_stage ht).2]
  have hnext : (g.stage root (n + 1)).trails.flatMap (fun t => g.visits t.name t.via) =
      ((g.stage root (n + 1)).trails.flatMap g.extend).map Trail.toVisit := by
    rw [List.map_flatMap]
    exact List.flatMap_congr fun t _ => (map_toVisit_extend g t).symm
  have hvisited : (g.stage root (n + 1)).visited.reverse =
      (((g.stage root (n + 1)).trails.map Trail.toVisit).map Visit.name).reverse ++
        (g.stage root n).visited.reverse := by
    rw [List.map_map, ← List.reverse_append]
    rfl
  rw [foldl_expandVisit fun v => isPlain_of_mem_next]
  dsimp only
  rw [hfresh, expanding, expansionAt, expansionAt, hvisited, discovered, List.flatMap_append,
    List.flatMap_append, promote_append]
  simp only [List.flatMap_map, List.nil_append, hlevel, hnext, List.append_assoc]

theorem expandLevels_of_next_eq_nil (fuel : Nat) (h : x.next = []) :
    g.expandLevels fuel level x = x := by
  cases fuel with
  | zero => rfl
  | succ fuel => rw [expandLevels, h, List.isEmpty_nil, if_pos rfl]

/-- Without planned visits the next level changes nothing. -/
theorem expansionAt_succ_of_next_eq_nil (h : (g.expansionAt root direct n).next = []) :
    g.expansionAt root direct (n + 1) = g.expansionAt root direct n := by
  rw [← foldl_next, h, List.foldl_nil]
  exact congrArg (fun next => { g.expansionAt root direct n with next }) h.symm

/-- **The levels one by one**: the expansion after level `n` goes on to that after any later
level. -/
theorem expandLevels_expansionAt (fuel : Nat) :
    g.expandLevels fuel (n + 1) (g.expansionAt root direct n) =
      g.expansionAt root direct (n + fuel) := by
  induction fuel generalizing n with
  | zero => rfl
  | succ fuel ih =>
    have hsum : n + (fuel + 1) = n + 1 + fuel := by omega
    rw [hsum]
    -- the levels stop early when nothing is planned, but further levels would not change anything
    by_cases h : (g.expansionAt root direct n).next = []
    · have hsame := expansionAt_succ_of_next_eq_nil h
      rw [← ih, hsame, expandLevels_of_next_eq_nil _ h, expandLevels_of_next_eq_nil _ h]
    · rw [expandLevels, if_neg (mt List.isEmpty_iff.mp h), foldl_next, ih]

/-! ## The view -/

/-- The fields of a struct are those of its declaration. -/
theorem exists_find?_of_lookupStruct (h : g.lookupStruct root = .ok direct) :
    ∃ d, g.find? root = some d ∧ d.shape = .struct direct := by
  rw [lookupStruct] at h
  split at h
  · cases h
  · rename_i d hd
    split at h
    · rename_i fields hshape
      obtain rfl := Except.ok.inj h
      exact ⟨d, hd, hshape⟩
    · cases h

/-- The fields of a struct are looked up for a declared name that is no alias. -/
theorem isPlain_of_lookupStruct (h : g.lookupStruct root = .ok direct) : g.IsPlain root := by
  obtain ⟨d, hd, hshape⟩ := exists_find?_of_lookupStruct h
  exact ⟨d, hd, fun target htarget => by rw [hshape] at htarget; cases htarget⟩

/-- The types that the view of a struct goes through, in the order in which they are met. -/
def trails (g : TypeGraph) (root : String) : List Trail :=
  g.discovered root (g.declarations.length + 1)

theorem reaches_of_mem_trails (ht : t ∈ g.trails root) : ReflTransGen g.Expands root t.name :=
  exists_chain_iff.mp ⟨_, _, (isFirstChain_of_mem_discovered ht).chain⟩

/-- The view of a struct is marked with the cycle that is found, or it is what the levels come to.
-/
theorem flattened_eq_expandLevels (h : g.lookupStruct root = .ok direct) : g.flattened root = .ok
    (match g.cycleThrough? root with
    | some path =>
      { typeName := root
        fields := ownFields root [] 0 direct
        cycle := some path
        unresolved := g.unresolvedOf root }
    | none =>
      let x := g.expandLevels (g.declarations.length + 1) 1 (g.outset root direct)
      { typeName := root
        fields := x.fields
        cycle := none
        unresolved := x.unresolved }) := by
  rw [flattened, h, Except.map]
  rfl

/-- **The flattened view** of a struct, by whether a cycle leads through the struct. -/
theorem flattened_eq (h : g.lookupStruct root = .ok direct) : g.flattened root = .ok
    (match g.cycleThrough? root with
    | some path =>
      { typeName := root
        fields := ownFields root [] 0 direct
        cycle := some path
        unresolved := g.unresolvedOf root }
    | none =>
      { typeName := root
        fields := promote (ownFields root [] 0 direct)
          ((g.trails root).flatMap fun t => g.supply t.ranks.length t.toVisit)
        cycle := none
        unresolved :=
          g.unresolvedOf root ++ (g.trails root).flatMap fun t => g.unresolvedOf t.name }) := by
  have hlevels : g.expandLevels (g.declarations.length + 1) 1 (g.expansionAt root direct 0) =
      g.expansionAt root direct (0 + (g.declarations.length + 1)) := expandLevels_expansionAt _
  rw [expansionAt_zero, Nat.zero_add] at hlevels
  rw [flattened_eq_expandLevels h, hlevels]
  rfl

end TypeGraph

end GoAtlas
