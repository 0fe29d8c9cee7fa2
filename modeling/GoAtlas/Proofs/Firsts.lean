import Mathlib.Data.List.Nodup
import Mathlib.Data.List.Perm.Basic

/-!
# The first of each key

Declarations are taken by name, types are expanded by name and fields are promoted by name, each
time so that the first of a name stays and the later ones do not count. `firsts` is this choice,
against some keys that are taken before, and `repeats` is what it leaves out.

An element is chosen when its key is free and nothing before it has the key (`mem_firsts_iff`).
Choosing twice is the same as choosing once (`firsts_firsts`, `repeats_append_perm`).
-/

namespace GoAtlas

variable {α κ : Type} {taken more : List κ}

/-- When a key is added to the smaller of two lists of keys, it can be added to the larger. -/
theorem append_singleton_subset_append {k : κ} (h : taken ⊆ more) : taken ++ [k] ⊆ more ++ [k] :=
  List.append_subset.mpr ⟨List.subset_append_of_subset_left _ h, List.subset_append_right _ _⟩

variable [DecidableEq κ]

/-- Of each key that is not taken the first element. -/
def firsts (key : α → κ) (taken : List κ) : List α → List α
  | [] => []
  | x :: rest =>
    if key x ∈ taken then firsts key taken rest else x :: firsts key (taken ++ [key x]) rest

/-- The elements whose keys are taken, by an element before if not from the start. -/
def repeats (key : α → κ) (taken : List κ) : List α → List α
  | [] => []
  | x :: rest =>
    if key x ∈ taken then x :: repeats key taken rest else repeats key (taken ++ [key x]) rest

variable {key : α → κ} {x y : α} {xs ys rest : List α}

/-- A key that was seen is passed over. -/
theorem firsts_cons_of_mem (h : key x ∈ taken) :
    firsts key taken (x :: rest) = firsts key taken rest :=
  if_pos h

theorem firsts_cons_of_not_mem (h : key x ∉ taken) :
    firsts key taken (x :: rest) = x :: firsts key (taken ++ [key x]) rest :=
  if_neg h

theorem repeats_cons_of_mem (h : key x ∈ taken) :
    repeats key taken (x :: rest) = x :: repeats key taken rest :=
  if_pos h

theorem repeats_cons_of_not_mem (h : key x ∉ taken) :
    repeats key taken (x :: rest) = repeats key (taken ++ [key x]) rest :=
  if_neg h

/-! ## Part by part -/

/-- A list is chosen from part by part, each part against the keys taken before it. -/
theorem firsts_append : firsts key taken (xs ++ ys) =
    firsts key taken xs ++ firsts key (taken ++ (firsts key taken xs).map key) ys := by
  induction xs generalizing taken with
  | nil => rw [firsts, List.map_nil, List.append_nil, List.nil_append, List.nil_append]
  | cons x rest ih =>
    rw [List.cons_append]
    by_cases h : key x ∈ taken
    · rw [firsts_cons_of_mem h, firsts_cons_of_mem h, ih]
    · rw [firsts_cons_of_not_mem h, firsts_cons_of_not_mem h, ih, List.map_cons, List.cons_append,
        List.append_assoc, List.singleton_append]

/-- Repeats are found from left to right, with the keys of what was passed taken as seen. -/
theorem repeats_append : repeats key taken (xs ++ ys) =
    repeats key taken xs ++ repeats key (taken ++ (firsts key taken xs).map key) ys := by
  induction xs generalizing taken with
  | nil => rw [firsts, repeats, List.map_nil, List.append_nil, List.nil_append, List.nil_append]
  | cons x rest ih =>
    rw [List.cons_append]
    by_cases h : key x ∈ taken
    · rw [repeats_cons_of_mem h, repeats_cons_of_mem h, firsts_cons_of_mem h, ih, List.cons_append]
    · rw [repeats_cons_of_not_mem h, repeats_cons_of_not_mem h, firsts_cons_of_not_mem h, ih,
        List.map_cons, List.append_assoc, List.singleton_append]

/-- **Choosing twice**: what is chosen against fewer keys first is chosen as if it were chosen at
once. -/
theorem firsts_firsts (h : taken ⊆ more) :
    firsts key more (firsts key taken xs) = firsts key more xs := by
  induction xs generalizing taken more with
  | nil => rfl
  | cons x rest ih =>
    by_cases ht : key x ∈ taken
    · rw [firsts_cons_of_mem ht, firsts_cons_of_mem (h ht), ih h]
    · rw [firsts_cons_of_not_mem ht]
      by_cases hm : key x ∈ more
      · rw [firsts_cons_of_mem hm, firsts_cons_of_mem hm]
        exact ih (List.append_subset.mpr ⟨h, by simpa using hm⟩)
      · rw [firsts_cons_of_not_mem hm, firsts_cons_of_not_mem hm,
          ih (append_singleton_subset_append h)]

/-- **Leaving out twice**: what is left out first and what is left out of the rest are together what
is left out at once. -/
theorem repeats_append_perm (h : taken ⊆ more) :
    (repeats key taken xs ++ repeats key more (firsts key taken xs)).Perm
      (repeats key more xs) := by
  induction xs generalizing taken more with
  | nil => exact List.Perm.refl _
  | cons x rest ih =>
    by_cases ht : key x ∈ taken
    · rw [repeats_cons_of_mem ht, repeats_cons_of_mem (h ht), firsts_cons_of_mem ht,
        List.cons_append]
      exact (ih h).cons x
    · rw [repeats_cons_of_not_mem ht, firsts_cons_of_not_mem ht]
      by_cases hm : key x ∈ more
      · rw [repeats_cons_of_mem hm, repeats_cons_of_mem hm]
        exact List.perm_middle.trans
          ((ih (List.append_subset.mpr ⟨h, by simpa using hm⟩)).cons x)
      · rw [repeats_cons_of_not_mem hm, repeats_cons_of_not_mem hm]
        exact ih (append_singleton_subset_append h)

/-- Each element is chosen or left out. -/
theorem firsts_append_repeats_perm : (firsts key taken xs ++ repeats key taken xs).Perm xs := by
  induction xs generalizing taken with
  | nil => exact List.Perm.refl _
  | cons x rest ih =>
    by_cases ht : key x ∈ taken
    · rw [firsts_cons_of_mem ht, repeats_cons_of_mem ht]
      exact List.perm_middle.trans (ih.cons x)
    · rw [firsts_cons_of_not_mem ht, repeats_cons_of_not_mem ht]
      exact ih.cons x

/-! ## What is chosen -/

/-- The first items stand in their order. -/
theorem firsts_sublist : (firsts key taken xs).Sublist xs := by
  induction xs generalizing taken with
  | nil => exact List.Sublist.refl _
  | cons x rest ih =>
    by_cases h : key x ∈ taken
    · rw [firsts_cons_of_mem h]
      exact ih.cons x
    · rw [firsts_cons_of_not_mem h]
      exact ih.cons_cons x

/-- Only which keys are taken counts, not in which order. -/
theorem firsts_congr (h : ∀ k, k ∈ taken ↔ k ∈ more) :
    firsts key taken xs = firsts key more xs := by
  induction xs generalizing taken more with
  | nil => rfl
  | cons x rest ih =>
    by_cases ht : key x ∈ taken
    · rw [firsts_cons_of_mem ht, firsts_cons_of_mem ((h _).mp ht), ih h]
    · rw [firsts_cons_of_not_mem ht, firsts_cons_of_not_mem (mt (h _).mpr ht)]
      refine congrArg (x :: ·) (ih fun k => ?_)
      rw [List.mem_append, List.mem_append, h]

/-- Only which keys are taken counts for what is left out, too. -/
theorem repeats_congr (h : ∀ k, k ∈ taken ↔ k ∈ more) :
    repeats key taken xs = repeats key more xs := by
  induction xs generalizing taken more with
  | nil => rfl
  | cons x rest ih =>
    by_cases ht : key x ∈ taken
    · rw [repeats_cons_of_mem ht, repeats_cons_of_mem ((h _).mp ht), ih h]
    · rw [repeats_cons_of_not_mem ht, repeats_cons_of_not_mem (mt (h _).mpr ht)]
      refine ih fun k => ?_
      rw [List.mem_append, List.mem_append, h]

/-- Elements that are replaced by others with the same keys are chosen alike. -/
theorem map_firsts {β : Type} {other : β → κ} (f : β → α) (h : ∀ b, other b = key (f b))
    (bs : List β) : (firsts other taken bs).map f = firsts key taken (bs.map f) := by
  induction bs generalizing taken with
  | nil => rfl
  | cons b rest ih =>
    rw [List.map_cons]
    by_cases hb : other b ∈ taken
    · rw [firsts_cons_of_mem hb, firsts_cons_of_mem (h b ▸ hb), ih]
    · rw [firsts_cons_of_not_mem hb, firsts_cons_of_not_mem (h b ▸ hb), List.map_cons, ih, h b]

theorem map_repeats {β : Type} {other : β → κ} (f : β → α) (h : ∀ b, other b = key (f b))
    (bs : List β) : (repeats other taken bs).map f = repeats key taken (bs.map f) := by
  induction bs generalizing taken with
  | nil => rfl
  | cons b rest ih =>
    rw [List.map_cons]
    by_cases hb : other b ∈ taken
    · rw [repeats_cons_of_mem hb, repeats_cons_of_mem (h b ▸ hb), List.map_cons, ih]
    · rw [repeats_cons_of_not_mem hb, repeats_cons_of_not_mem (h b ▸ hb), ih, h b]

/-- **What is chosen** is the first element of its key, if the key is free. -/
theorem mem_firsts_iff : x ∈ firsts key taken xs ↔
    key x ∉ taken ∧ xs.find? (fun y => key y = key x) = some x := by
  induction xs generalizing taken with
  | nil => simp [firsts]
  | cons y rest ih =>
    rw [List.find?_cons]
    -- the element in front matters for `x` only if it has the same key
    by_cases hkey : key y = key x
    · rw [decide_eq_true hkey]
      by_cases ht : key y ∈ taken
      · rw [firsts_cons_of_mem ht, ih]
        constructor
        · rintro ⟨hx, -⟩
          exact absurd (hkey ▸ ht) hx
        · rintro ⟨hx, -⟩
          exact absurd (hkey ▸ ht) hx
      · rw [firsts_cons_of_not_mem ht, List.mem_cons, ih]
        constructor
        · rintro (rfl | ⟨hx, -⟩)
          · exact ⟨ht, rfl⟩
          · exact absurd (List.mem_append_right _ (by simp [hkey])) hx
        · rintro ⟨-, hx⟩
          exact Or.inl (Option.some.inj hx).symm
    · rw [decide_eq_false hkey]
      by_cases ht : key y ∈ taken
      · rw [firsts_cons_of_mem ht, ih]
      · have hne : x ≠ y := fun heq => hkey (heq ▸ rfl)
        rw [firsts_cons_of_not_mem ht, List.mem_cons, ih, List.mem_append, List.mem_singleton]
        constructor
        · rintro (rfl | ⟨hx, hfind⟩)
          · exact absurd rfl hne
          · exact ⟨fun h => hx (Or.inl h), hfind⟩
        · rintro ⟨hx, hfind⟩
          exact Or.inr ⟨fun h => h.elim hx fun h => hkey h.symm, hfind⟩

/-- A key is chosen when it occurs and is free. -/
theorem mem_map_firsts_iff {k : κ} :
    k ∈ (firsts key taken xs).map key ↔ k ∉ taken ∧ k ∈ xs.map key := by
  rw [List.mem_map, List.mem_map]
  constructor
  · rintro ⟨x, hx, rfl⟩
    exact ⟨(mem_firsts_iff.mp hx).1, x, firsts_sublist.subset hx, rfl⟩
  · rintro ⟨hk, x, hx, rfl⟩
    obtain ⟨y, hy⟩ : ∃ y, xs.find? (fun y => key y = key x) = some y :=
      Option.isSome_iff_exists.mp (List.find?_isSome.mpr ⟨x, hx, decide_eq_true rfl⟩)
    have hkey : key y = key x := by simpa using List.find?_some hy
    exact ⟨y, mem_firsts_iff.mpr ⟨hkey ▸ hk, hkey ▸ hy⟩, hkey⟩

/-- No key is chosen twice. -/
theorem nodup_map_firsts : ((firsts key taken xs).map key).Nodup := by
  induction xs generalizing taken with
  | nil => exact List.nodup_nil
  | cons x rest ih =>
    by_cases h : key x ∈ taken
    · rw [firsts_cons_of_mem h]
      exact ih
    · rw [firsts_cons_of_not_mem h, List.map_cons, List.nodup_cons]
      refine ⟨fun hx => ?_, ih⟩
      exact (mem_map_firsts_iff.mp hx).1 (List.mem_append_right _ (List.mem_singleton_self _))

/-- When a list is in some order, what is chosen comes before everything else with its key. -/
theorem exists_firsts_of_mem {r : α → α → Prop} (hr : xs.Pairwise r) (hx : x ∈ xs)
    (hkey : key x ∉ taken) : ∃ y ∈ firsts key taken xs, key y = key x ∧ (y = x ∨ r y x) := by
  obtain ⟨y, hy, hsame⟩ := List.mem_map.mp
    (mem_map_firsts_iff.mpr ⟨hkey, List.mem_map_of_mem (f := key) hx⟩)
  refine ⟨y, hy, hsame, ?_⟩
  have hfind := (mem_firsts_iff.mp hy).2
  obtain ⟨-, before, after, rfl, hbefore⟩ := List.find?_eq_some_iff_append.mp hfind
  rcases List.mem_append.mp hx with hx | hx
  · exact absurd hsame.symm (by simpa using hbefore x hx)
  · rcases List.mem_cons.mp hx with rfl | hx
    · exact Or.inl rfl
    · exact Or.inr ((List.pairwise_cons.mp (List.pairwise_append.mp hr).2.1).1 x hx)

/-- What is chosen from several lists is in some order, if what is chosen from each list is and the
lists are. -/
theorem pairwise_firsts_flatMap {β : Type} {r : α → α → Prop} {f : β → List α} {bs : List β}
    (hin : ∀ b ∈ bs, ∀ taken, (firsts key taken (f b)).Pairwise r)
    (hbetween : bs.Pairwise fun b c => ∀ x ∈ f b, ∀ y ∈ f c, r x y) :
    (firsts key taken (bs.flatMap f)).Pairwise r := by
  induction bs generalizing taken with
  | nil => exact List.Pairwise.nil
  | cons b rest ih =>
    obtain ⟨hb, hrest⟩ := List.forall_mem_cons.mp hin
    obtain ⟨hfirst, hbetween⟩ := List.pairwise_cons.mp hbetween
    rw [List.flatMap_cons, firsts_append]
    refine List.pairwise_append.mpr ⟨hb taken, ih hrest hbetween, fun x hx y hy => ?_⟩
    obtain ⟨c, hc, hy⟩ := List.mem_flatMap.mp (firsts_sublist.subset hy)
    exact hfirst c hc x (firsts_sublist.subset hx) y hy

/-- What is chosen comes in the order of the places where the keys occur first. -/
theorem pairwise_findIdx_firsts : (firsts key taken xs).Pairwise fun x y =>
    xs.findIdx (fun z => key z = key x) < xs.findIdx fun z => key z = key y := by
  -- a later element stands one place further when an element with another key is put in front
  have hshift : ∀ {x y : α} {rest : List α}, key x ≠ key y →
      (x :: rest).findIdx (fun z => key z = key y) = rest.findIdx (fun z => key z = key y) + 1 := by
    intro x y rest hne
    rw [List.findIdx_cons, decide_eq_false hne]
    rfl
  induction xs generalizing taken with
  | nil => exact List.Pairwise.nil
  | cons x rest ih =>
    by_cases h : key x ∈ taken
    · rw [firsts_cons_of_mem h]
      refine ih.imp_of_mem fun {y z} hy hz hlt => ?_
      have hne : ∀ {w}, w ∈ firsts key taken rest → key x ≠ key w := fun hw heq =>
        (mem_firsts_iff.mp hw).1 (heq ▸ h)
      rw [hshift (hne hy), hshift (hne hz)]
      exact Nat.succ_lt_succ hlt
    · rw [firsts_cons_of_not_mem h]
      have hne : ∀ {w}, w ∈ firsts key (taken ++ [key x]) rest → key x ≠ key w := fun hw heq =>
        (mem_firsts_iff.mp hw).1 (heq ▸ List.mem_append_right _ (List.mem_singleton_self _))
      refine List.pairwise_cons.mpr ⟨fun y hy => ?_, ih.imp_of_mem fun {y z} hy hz hlt => ?_⟩
      · rw [hshift (hne hy), List.findIdx_cons, decide_eq_true rfl]
        exact Nat.succ_pos _
      · rw [hshift (hne hy), hshift (hne hz)]
        exact Nat.succ_lt_succ hlt

/-- Of elements with distinct keys those are chosen whose keys are free. -/
theorem firsts_eq_filter (h : (xs.map key).Nodup) :
    firsts key taken xs = xs.filter fun x => key x ∉ taken := by
  induction xs generalizing taken with
  | nil => rfl
  | cons x rest ih =>
    rw [List.map_cons, List.nodup_cons] at h
    obtain ⟨hx, hrest⟩ := h
    by_cases ht : key x ∈ taken
    · rw [firsts_cons_of_mem ht, ih hrest, List.filter_cons_of_neg (by simpa using ht)]
    · rw [firsts_cons_of_not_mem ht, ih hrest, List.filter_cons_of_pos (by simpa using ht)]
      refine congrArg (x :: ·) (List.filter_congr fun y hy => ?_)
      have hne : key y ≠ key x := fun heq => hx (heq ▸ List.mem_map_of_mem hy)
      simp [hne]

/-- Nothing is chosen when all keys are taken. -/
theorem firsts_eq_nil (h : ∀ x ∈ xs, key x ∈ taken) : firsts key taken xs = [] := by
  induction xs with
  | nil => rfl
  | cons x rest ih =>
    obtain ⟨hx, hrest⟩ := List.forall_mem_cons.mp h
    rw [firsts_cons_of_mem hx, ih hrest]

theorem repeats_eq_self (h : ∀ x ∈ xs, key x ∈ taken) : repeats key taken xs = xs := by
  induction xs with
  | nil => rfl
  | cons x rest ih =>
    obtain ⟨hx, hrest⟩ := List.forall_mem_cons.mp h
    rw [repeats_cons_of_mem hx, ih hrest]

/-- Elements with distinct keys are all chosen when no key is taken yet. -/
theorem firsts_nil_of_nodup (h : (xs.map key).Nodup) : firsts key [] xs = xs := by
  rw [firsts_eq_filter h]
  exact List.filter_eq_self.mpr fun x _ => decide_eq_true List.not_mem_nil

theorem repeats_nil_of_nodup (h : (xs.map key).Nodup) : repeats key [] xs = [] := by
  have hperm : (firsts key [] xs ++ repeats key [] xs).Perm xs := firsts_append_repeats_perm
  have hlength := hperm.length_eq
  rw [firsts_nil_of_nodup h, List.length_append] at hlength
  exact List.length_eq_zero_iff.mp (by omega)

end GoAtlas
