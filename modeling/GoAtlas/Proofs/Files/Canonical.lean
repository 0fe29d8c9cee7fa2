import GoAtlas.Proofs.Files.Once
import Mathlib.Data.List.Sort

/-!
# The order of what is found

What is found is in the order of paths without repeats, so it is determined by what its paths are
component by component (`Scan.IsSettled.map_components_eq`). What a walk lists depends on the
directory where it starts and on nothing else that is asked for. So which paths are gathered does
not depend on the order of the paths that are asked for, and permuting or repeating them changes at
most the spelling of what is found; and what is found stands for itself when it is asked for
(`Scan.files_canonical`).

Nothing is found when a path leads nowhere. The first such path is named
(`Scan.gather_eq_error_iff`).
-/

namespace GoAtlas

namespace Scan

open GoAtlas.Path (components keys keys_eq_iff same_iff)

variable {walker : Walker} {fs : FileSystem} {includeTests : Bool} {path : String}
  {paths others found gathered : List String}

/-! ## Paths that lead nowhere -/

/-- Only a path that leads nowhere stands for nothing. -/
theorem filesAt?_eq_none_iff :
    filesAt? walker fs includeTests path = none ↔ ¬ ∃ tree, fs.find path = .ok tree := by
  rw [← @exists_filesAt?_iff walker fs includeTests path, ← Option.isSome_iff_exists,
    Option.not_isSome_iff_eq_none]

theorem gather_cons_of_find {tree : FileTree} (h : fs.find path = .ok tree) (rest : List String) :
    ∃ files, gather walker fs includeTests (path :: rest) =
      (gather walker fs includeTests rest).map (files ++ ·) := by
  obtain ⟨files, hfiles⟩ := (@exists_filesAt?_iff walker fs includeTests path).mpr ⟨tree, h⟩
  exact ⟨files, by rw [gather, hfiles]⟩

/-- **The first path that leads nowhere** is what gathering fails with. -/
theorem gather_eq_error_iff :
    gather walker fs includeTests paths = .error path ↔
      ∃ before after, paths = before ++ path :: after ∧
        (∀ a ∈ before, ∃ tree, fs.find a = .ok tree) ∧ ¬ ∃ tree, fs.find path = .ok tree := by
  induction paths with
  | nil =>
    constructor
    · intro h
      cases h
    · rintro ⟨before, after, hsplit, -⟩
      cases before <;> cases hsplit
  | cons first rest ih =>
    by_cases hfirst : ∃ tree, fs.find first = .ok tree
    · obtain ⟨tree, htree⟩ := hfirst
      obtain ⟨files, hcons⟩ := @gather_cons_of_find walker fs includeTests first tree htree rest
      have hmap : gather walker fs includeTests (first :: rest) = .error path ↔
          gather walker fs includeTests rest = .error path := by
        rw [hcons]
        cases gather walker fs includeTests rest with
        | error missing => exact Iff.rfl
        | ok more =>
          constructor
          · intro h
            cases h
          · intro h
            cases h
      rw [hmap, ih]
      constructor
      · rintro ⟨before, after, rfl, hbefore, hpath⟩
        exact ⟨first :: before, after, rfl, List.forall_mem_cons.mpr ⟨⟨tree, htree⟩, hbefore⟩, hpath⟩
      · rintro ⟨before, after, hsplit, hbefore, hpath⟩
        cases before with
        | nil =>
          obtain ⟨rfl, -⟩ := List.cons.inj hsplit
          exact absurd ⟨tree, htree⟩ hpath
        | cons a before =>
          obtain ⟨-, rfl⟩ := List.cons.inj hsplit
          exact ⟨before, after, rfl, (List.forall_mem_cons.mp hbefore).2, hpath⟩
    · have hnone : filesAt? walker fs includeTests first = none := filesAt?_eq_none_iff.mpr hfirst
      rw [gather, hnone]
      constructor
      · intro h
        obtain rfl := Except.error.inj h
        exact ⟨[], rest, rfl, by simp, hfirst⟩
      · rintro ⟨before, after, hsplit, hbefore, hpath⟩
        cases before with
        | nil =>
          obtain ⟨rfl, -⟩ := List.cons.inj hsplit
          rfl
        | cons a before =>
          obtain ⟨rfl, -⟩ := List.cons.inj hsplit
          exact absurd (hbefore first List.mem_cons_self) hfirst

theorem filesBy_eq_error_iff : filesBy walker fs includeTests paths = .error path ↔
    gather walker fs includeTests paths = .error path := by
  rw [filesBy]
  cases gather walker fs includeTests paths with
  | error missing => exact Iff.rfl
  | ok more =>
    constructor
    · intro h
      cases h
    · intro h
      cases h

/-! ## What determines what is found -/

/-- What is left in order of some paths is determined by the components of those paths. -/
theorem IsSettled.map_components_eq {gathered' found' : List String}
    (h : IsSettled gathered found) (h' : IsSettled gathered' found')
    (hsame : ∀ p, p ∈ gathered' ↔ p ∈ gathered) :
    found'.map components = found.map components := by
  have hordered : ∀ {gathered found}, IsSettled gathered found →
      (found.map keys).Pairwise (· < ·) := fun h => List.pairwise_map.mpr h.ordered
  have hmem : ∀ {gathered found}, IsSettled gathered found →
      ∀ k, k ∈ found.map keys ↔ ∃ p ∈ gathered, keys p = k := by
    intro gathered found h k
    rw [List.mem_map]
    constructor
    · rintro ⟨p, hp, rfl⟩
      exact ⟨p, h.subset p hp, rfl⟩
    · rintro ⟨p, hp, rfl⟩
      obtain ⟨q, hq, hqp⟩ := h.complete p hp
      exact ⟨q, hq, keys_eq_iff.mpr hqp⟩
  have hkeys : found'.map keys = found.map keys := by
    apply List.Pairwise.eq_of_mem_iff (hordered h') (hordered h)
    intro k
    rw [hmem h', hmem h]
    simp only [hsame]
  -- the components can be read off the keys, so they are the same as well
  have hread : ∀ l : List String, l.map keys =
      (l.map components).map (List.map PathComponent.key) := by
    intro l
    rw [List.map_map]
    rfl
  rw [hread, hread] at hkeys
  apply List.map_injective_iff.mpr _ hkeys
  exact List.map_injective_iff.mpr PathComponent.key_injective

/-! ## What is found, asked for again -/

/-- A path to a file stands for itself. -/
theorem filesAt?_of_leadsTo {names : List String} {content : ByteArray}
    (h : fs.LeadsTo path names (.file content)) :
    filesAt? walker fs includeTests path = some [path] := by
  rw [filesAt?, h.find]

/-- Paths to files stand for themselves. -/
theorem gather_of_leadsTo
    (h : ∀ p ∈ found, ∃ names content, fs.LeadsTo p names (.file content)) :
    gather walker fs includeTests found = .ok found := by
  induction found with
  | nil => rfl
  | cons p rest ih =>
    obtain ⟨⟨names, content, hp⟩, hrest⟩ := List.forall_mem_cons.mp h
    rw [gather, filesAt?_of_leadsTo hp, ih hrest]
    rfl

theorem dropSame_eq_self {previous : String} {l : List String}
    (h : (previous :: l).Pairwise fun p q => components p ≠ components q) :
    withoutRepeats.dropSame previous l = l := by
  induction l generalizing previous with
  | nil => rfl
  | cons p rest ih =>
    obtain ⟨hprevious, hrest⟩ := List.pairwise_cons.mp h
    have hne : ¬ Path.same previous p = true := by
      rw [same_iff]
      exact hprevious p List.mem_cons_self
    rw [withoutRepeats.dropSame, if_neg hne, ih hrest]

/-- What has been found once has no repeats to drop. -/
theorem withoutRepeats_eq_self (h : found.Pairwise fun p q => components p ≠ components q) :
    withoutRepeats found = found := by
  cases found with
  | nil => rfl
  | cons p rest => rw [withoutRepeats, dropSame_eq_self h]

/-- Paths to files that are in order without repeats are found as they are. -/
theorem filesBy_of_leadsTo (hordered : found.Pairwise fun p q => keys p < keys q)
    (h : ∀ p ∈ found, ∃ names content, fs.LeadsTo p names (.file content)) :
    filesBy walker fs includeTests found = .ok found := by
  have hsorted : found.mergeSort Path.le = found := by
    apply List.mergeSort_of_pairwise
    exact hordered.imp fun hlt => Path.le_iff.mpr (le_of_lt hlt)
  have hdistinct : found.Pairwise fun p q => components p ≠ components q :=
    hordered.imp fun hlt heq => absurd (keys_eq_iff.mpr heq) (ne_of_lt hlt)
  rw [filesBy_of_gather (gather_of_leadsTo h) hsorted, withoutRepeats_eq_self hdistinct]

/-- **What is found is canonical**, by any walk that lists only files as files. Nothing is found
exactly when some path leads nowhere, and the first such path is named. Otherwise the files are
found that the paths stand for, component by component; they are in strictly increasing order; the
same paths in another order, or repeated, give the same list component by component, also by another
walk that lists the same files in another order; and what is found is found again, as it is, when it
is asked for, whether or not tests are. -/
theorem files_canonical (hwalk : walker.ListsFiles fs) (includeTests : Bool) (paths : List String) :
    (∀ path, filesBy walker fs includeTests paths = .error path ↔
      ∃ before after, paths = before ++ path :: after ∧
        (∀ a ∈ before, ∃ tree, fs.find a = .ok tree) ∧ ¬ ∃ tree, fs.find path = .ok tree) ∧
    ((∀ a ∈ paths, ∃ tree, fs.find a = .ok tree) →
      ∃ found, filesBy walker fs includeTests paths = .ok found ∧
        (∀ p ∈ found, ∃ a ∈ paths, Finds walker fs includeTests a p) ∧
        (∀ a ∈ paths, ∀ p, Finds walker fs includeTests a p →
          ∃ q ∈ found, components q = components p) ∧
        (found.Pairwise fun p q => keys p < keys q) ∧
        (found.Pairwise fun p q => components p ≠ components q) ∧
        (∀ (other : Walker) (others : List String),
          (∀ a p, Finds other fs includeTests a p ↔ Finds walker fs includeTests a p) →
          (∀ a, a ∈ others ↔ a ∈ paths) →
            ∃ found', filesBy other fs includeTests others = .ok found' ∧
              found'.map components = found.map components) ∧
        ∀ (other : Walker) (again : Bool), filesBy other fs again found = .ok found) := by
  refine ⟨fun path => filesBy_eq_error_iff.trans gather_eq_error_iff, fun hpaths => ?_⟩
  obtain ⟨found, hfound⟩ := @exists_filesBy walker fs includeTests paths hpaths
  obtain ⟨gathered, hgather, hsettled⟩ := isSettled_of_filesBy hfound
  refine ⟨found, hfound, ?_, ?_, hsettled.ordered, hsettled.pairwise_components_ne, ?_, ?_⟩
  · intro p hp
    exact (mem_gather_iff hgather).mp (hsettled.subset p hp)
  · intro a ha p hp
    exact hsettled.complete p ((mem_gather_iff hgather).mpr ⟨a, ha, hp⟩)
  · intro other others hwalks hsame
    have hothers : ∀ a ∈ others, ∃ tree, fs.find a = .ok tree :=
      fun a ha => hpaths a ((hsame a).mp ha)
    obtain ⟨found', hfound'⟩ := @exists_filesBy other fs includeTests others hothers
    obtain ⟨gathered', hgather', hsettled'⟩ := isSettled_of_filesBy hfound'
    refine ⟨found', hfound', hsettled.map_components_eq hsettled' fun p => ?_⟩
    rw [mem_gather_iff hgather', mem_gather_iff hgather]
    simp only [hwalks, hsame]
  · intro other again
    apply filesBy_of_leadsTo hsettled.ordered
    intro p hp
    exact exists_leadsTo_of_mem_gather hwalk hgather (hsettled.subset p hp)

/-- A file that is asked for beside the directory around it, in this order and in another one with
the directory twice; and a path that leads nowhere behind one that does not. -/
theorem files_canonical_desk : Walker.standard.ListsFiles desk ∧
    (∀ a ∈ [".", ".//sub/b.go"], ∃ tree, desk.find a = .ok tree) ∧
    files desk false [".", ".//sub/b.go"] = .ok ["./a.go", "./sub/b.go"] ∧
    (∃ found', files desk false [".//sub/b.go", ".", "."] = .ok found' ∧
      found'.map components = ["./a.go", "./sub/b.go"].map components) ∧
    files desk true ["./a.go", "./sub/b.go"] = .ok ["./a.go", "./sub/b.go"] ∧
    files desk false [".", "gone", "lost"] = .error "gone" := by
  have hroot : desk.root.isProper = true := by decide +kernel
  have hwalk : Walker.standard.ListsFiles desk := (Walker.staysBelow_standard hroot).listsFiles hroot
  have hpaths : ∀ a ∈ [".", ".//sub/b.go"], ∃ tree, desk.find a = .ok tree := by
    intro a ha
    rcases List.mem_cons.mp ha with rfl | ha
    · exact ⟨_, rfl⟩
    obtain rfl := List.mem_singleton.mp ha
    exact ⟨_, rfl⟩
  have hgather : gather Walker.standard desk false [".", ".//sub/b.go"] =
      .ok ["./a.go", "./sub/b.go", ".//sub/b.go"] := by decide +kernel
  have hsorted := List.mergeSort_of_pairwise (by decide +kernel :
    ["./a.go", "./sub/b.go", ".//sub/b.go"].Pairwise fun p q => Path.le p q = true)
  have hfiles : files desk false [".", ".//sub/b.go"] = .ok ["./a.go", "./sub/b.go"] :=
    (filesBy_of_gather hgather hsorted).trans (by decide +kernel)
  obtain ⟨-, hleads⟩ := files_canonical hwalk false [".", ".//sub/b.go"]
  obtain ⟨found, hfound, -, -, -, -, hothers, hagain⟩ := hleads hpaths
  obtain rfl : ["./a.go", "./sub/b.go"] = found := Except.ok.inj (hfiles.symm.trans hfound)
  refine ⟨hwalk, hpaths, hfiles, hothers Walker.standard _ (fun _ _ => Iff.rfl) (by simp [or_comm]),
    hagain Walker.standard true, ?_⟩
  obtain ⟨herror, -⟩ := files_canonical hwalk false [".", "gone", "lost"]
  refine (herror "gone").mpr ⟨["."], ["lost"], rfl, ?_, ?_⟩
  · exact List.forall_mem_singleton.mpr ⟨_, rfl⟩
  · rintro ⟨tree, htree⟩
    cases htree

end Scan

end GoAtlas
