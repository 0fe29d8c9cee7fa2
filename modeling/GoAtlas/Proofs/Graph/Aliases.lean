import GoAtlas.Graph.Resolution

/-!
# Where aliases lead

A chain of aliases that is followed to its end leads to a declared name that is no alias
(`isPlain_of_followAliases`), and from such a name the chain is over at once
(`followAliases_of_isPlain`).
-/

namespace GoAtlas.TypeGraph

variable {g : TypeGraph} {a b : String}

/-- A name is declared, and not as an alias. -/
def IsPlain (g : TypeGraph) (name : String) : Prop :=
  ∃ d, g.find? name = some d ∧ ∀ target, d.shape ≠ .aliasType target

/-- One step of a chain that is followed to its end: the name has not been passed, and it is the end
or an alias from whose target the chain goes on. -/
theorem chase_succ_eq_ok_iff {fuel : Nat} {seen : List String} :
    g.chase (fuel + 1) seen a = .ok b ↔ a ∉ seen ∧ ((a = b ∧ g.IsPlain a) ∨
      ∃ d target next, g.find? a = some d ∧ d.shape = .aliasType target ∧
        g.resolve target = .declared next ∧ g.chase fuel (a :: seen) next = .ok b) := by
  rw [chase]
  constructor
  · intro h
    split at h
    · cases h
    · rename_i hseen
      refine ⟨mt List.contains_iff_mem.mpr hseen, ?_⟩
      split at h
      · cases h
      · rename_i d hd
        split at h
        · rename_i target hshape
          split at h
          · rename_i next hnext
            exact Or.inr ⟨d, target, next, hd, hshape, hnext, h⟩
          · cases h
        · rename_i hshape
          exact Or.inl ⟨Except.ok.inj h, d, hd, hshape⟩
  · rintro ⟨hseen, ⟨rfl, d, hd, hshape⟩ | ⟨d, target, next, hd, hshape, hnext, h⟩⟩
    · rw [if_neg (mt List.contains_iff_mem.mp hseen), hd]
      dsimp only
      split
      · rename_i target htarget
        exact absurd htarget (hshape target)
      · rfl
    · rw [if_neg (mt List.contains_iff_mem.mp hseen), hd]
      dsimp only
      rw [hshape]
      dsimp only
      rw [hnext]
      exact h

/-- **The end of a chain** of aliases is declared and no alias. -/
theorem isPlain_of_chase {fuel : Nat} {seen : List String} :
    g.chase fuel seen a = .ok b → g.IsPlain b := by
  induction fuel generalizing seen a with
  | zero => intro h; cases h
  | succ fuel ih =>
    intro h
    rcases (chase_succ_eq_ok_iff.mp h).2 with ⟨rfl, hplain⟩ | ⟨d, target, next, -, -, -, hnext⟩
    · exact hplain
    · exact ih hnext

/-- A chain of aliases ends at a type that is no alias. -/
theorem isPlain_of_followAliases (h : g.followAliases a = .ok b) : g.IsPlain b :=
  isPlain_of_chase h

/-- A name that is no alias is the end of its own chain. -/
theorem followAliases_of_isPlain (h : g.IsPlain a) : g.followAliases a = .ok a :=
  chase_succ_eq_ok_iff.mpr ⟨List.not_mem_nil, Or.inl ⟨rfl, h⟩⟩

/-- A name that is no alias is declared. -/
theorem IsPlain.exists_find? (h : g.IsPlain a) : ∃ d, g.find? a = some d := by
  obtain ⟨d, hd, -⟩ := h
  exact ⟨d, hd⟩

theorem mem_names_of_find? {d : Declaration} (hd : g.find? a = some d) : a ∈ g.names := by
  refine Decidable.byContradiction fun hnone => ?_
  rw [find?_eq_none_iff.mpr hnone] at hd
  cases hd

theorem IsPlain.mem_names (h : g.IsPlain a) : a ∈ g.names := by
  obtain ⟨d, hd⟩ := h.exists_find?
  exact mem_names_of_find? hd

end GoAtlas.TypeGraph
