import GoAtlas.Command.Run
import GoAtlas.Proofs.Files.Order
import GoAtlas.Proofs.Files.Walks
import Mathlib.Data.List.Pairwise

/-!
# Files that are found once

Whatever walk is used to find files below a directory, it is only asked to stay below the directory
(`Walker.StaysBelow`). Then what is found has the path of the directory in front, and the names that
lead on behind it (`Scan.Finds.exists_isBelow`). So below one path no file is found under two paths,
and what two paths have in common is found under the same components when the longer one is the
shorter one with the names between added.

Paths that lead somewhere stand for files (`Scan.exists_filesBy`), and repeats are left out by their
components. A file is read twice exactly when two of the paths that are asked for lead to it, one
through the place of the other, and are not spelled that way (`Scan.files_once`). That happens: `.`
and `a.go` give the file `a.go` twice (`Scan.files_twice`).
-/

namespace GoAtlas

open GoAtlas.Path (components)

/-! ## What paths stand for -/

namespace Scan

open FileSystem

variable {walker : Walker} {fs : FileSystem} {includeTests : Bool} {p path : String}
  {paths gathered : List String}

/-- A path stands for a file: the file is found under `p` when the path is asked for. -/
def Finds (walker : Walker) (fs : FileSystem) (includeTests : Bool) (path p : String) : Prop :=
  ∃ files, filesAt? walker fs includeTests path = some files ∧ p ∈ files

/-- A path stands for files exactly when something is at its place. -/
theorem exists_filesAt?_iff : (∃ files, filesAt? walker fs includeTests path = some files) ↔
    ∃ tree, fs.find path = .ok tree := by
  rw [filesAt?]
  cases hfind : fs.find path with
  | error reason => exact ⟨nofun, nofun⟩
  | ok tree => cases tree <;> exact ⟨fun _ => ⟨_, rfl⟩, fun _ => ⟨_, rfl⟩⟩

/-- **Paths that lead somewhere** stand for files, if all of them do. -/
theorem exists_filesBy (hpaths : ∀ path ∈ paths, ∃ tree, fs.find path = .ok tree) :
    ∃ found, filesBy walker fs includeTests paths = .ok found := by
  have hgather : ∃ found, gather walker fs includeTests paths = .ok found := by
    induction paths with
    | nil => exact ⟨[], rfl⟩
    | cons path rest ih =>
      obtain ⟨hpath, hrest⟩ := List.forall_mem_cons.mp hpaths
      obtain ⟨found, hfound⟩ := ih hrest
      obtain ⟨here, hhere⟩ := exists_filesAt?_iff.mpr hpath
      exact ⟨here ++ found, by rw [gather, hhere, hfound]; rfl⟩
  obtain ⟨found, hfound⟩ := hgather
  exact ⟨_, by rw [filesBy, hfound]; rfl⟩

theorem mem_gather_iff (h : gather walker fs includeTests paths = .ok gathered) :
    p ∈ gathered ↔ ∃ a ∈ paths, Finds walker fs includeTests a p := by
  induction paths generalizing gathered with
  | nil =>
    obtain rfl := Except.ok.inj h
    exact ⟨nofun, nofun⟩
  | cons path rest ih =>
    rw [gather] at h
    cases hfiles : filesAt? walker fs includeTests path with
    | none =>
      rw [hfiles] at h
      cases h
    | some files =>
      rw [hfiles] at h
      cases hrest : gather walker fs includeTests rest with
      | error missing =>
        rw [hrest] at h
        cases h
      | ok more =>
        rw [hrest] at h
        obtain rfl : files ++ more = gathered := Except.ok.inj h
        have hpath : Finds walker fs includeTests path p ↔ p ∈ files := by
          rw [Finds, hfiles]
          exact ⟨fun ⟨_, hsome, hp⟩ => Option.some.inj hsome ▸ hp, fun hp => ⟨files, rfl, hp⟩⟩
        rw [List.mem_append, ih hrest, List.exists_mem_cons_iff, hpath]

/-- A file that is read below a directory was listed as a file by the walk. -/
theorem exists_of_mem_below (h : p ∈ below walker fs includeTests path) :
    ∃ e ∈ walker isIgnoredScope fs path, e.isFile = true ∧ e.path = p := by
  obtain ⟨e, he, rfl⟩ := List.mem_map.mp h
  obtain ⟨he, hwanted⟩ := List.mem_filter.mp he
  simp only [isWanted, Bool.and_eq_true] at hwanted
  exact ⟨e, he, hwanted.1.1, rfl⟩

/-- What a path stands for: the file at its place, or files that a walk from there lists. -/
theorem Finds.cases (h : Finds walker fs includeTests path p) :
    (∃ names content, fs.LeadsTo path names (.file content) ∧ p = path) ∨
    ∃ names entries, fs.LeadsTo path names (.directory entries) ∧
      ∃ e ∈ walker isIgnoredScope fs path, e.isFile = true ∧ e.path = p := by
  obtain ⟨files, hfiles, hp⟩ := h
  rw [filesAt?] at hfiles
  split at hfiles
  · cases hfiles
  · rename_i content hfind
    cases hfiles
    obtain ⟨names, hpath⟩ := exists_leadsTo_of_find hfind
    exact .inl ⟨names, content, hpath, List.mem_singleton.mp hp⟩
  · rename_i entries hfind
    cases hfiles
    obtain ⟨names, hpath⟩ := exists_leadsTo_of_find hfind
    exact .inr ⟨names, entries, hpath, exists_of_mem_below hp⟩

/-- **A path stands for files at or below its place**, under paths that start with it. -/
theorem Finds.exists_isBelow (hroot : fs.root.isProper = true) (hwalk : walker.StaysBelow fs)
    (h : Finds walker fs includeTests path p) :
    ∃ names, fs.locate path = .ok names ∧ fs.IsBelow path names p := by
  rcases h.cases with ⟨names, content, hpath, rfl⟩ | ⟨names, entries, hpath, e, he, hfile, rfl⟩
  · exact ⟨names, hpath.located, hpath.isBelow_self⟩
  · exact ⟨names, hpath.located, hwalk.isBelow hroot hpath he hfile⟩

/-- **What is found is a file**, when what the walk lists as files are. -/
theorem Finds.exists_leadsTo (hwalk : walker.ListsFiles fs)
    (h : Finds walker fs includeTests path p) : ∃ names content, fs.LeadsTo p names (.file content) := by
  rcases h.cases with ⟨names, content, hpath, rfl⟩ | ⟨names, entries, hpath, e, he, hfile, rfl⟩
  · exact ⟨names, content, hpath⟩
  · exact hwalk _ path names entries hpath e he hfile

theorem exists_leadsTo_of_mem_gather (hwalk : walker.ListsFiles fs)
    (hgather : gather walker fs includeTests paths = .ok gathered) (hp : p ∈ gathered) :
    ∃ names content, fs.LeadsTo p names (.file content) := by
  obtain ⟨a, -, ha⟩ := (mem_gather_iff hgather).mp hp
  exact ha.exists_leadsTo hwalk

end Scan

/-! ## Two paths to one file -/

namespace FileSystem

variable {fs : FileSystem} {a b p q : String} {names names' : List String}

/-- Two paths lead to the same place. -/
def SamePlace (fs : FileSystem) (p q : String) : Prop :=
  ∃ names, fs.locate p = .ok names ∧ fs.locate q = .ok names

theorem SamePlace.symm (h : fs.SamePlace p q) : fs.SamePlace q p := by
  obtain ⟨names, hp, hq⟩ := h
  exact ⟨names, hq, hp⟩

theorem SamePlace.trans {r : String} (hpq : fs.SamePlace p q) (hqr : fs.SamePlace q r) :
    fs.SamePlace p r := by
  obtain ⟨names, hp, hq⟩ := hpq
  obtain ⟨names', hq', hr⟩ := hqr
  obtain rfl : names = names' := Except.ok.inj (hq.symm.trans hq')
  exact ⟨names, hp, hr⟩

/-- Paths with the same components lead to the same place, if they lead anywhere. -/
theorem samePlace_of_components (hp : fs.locate p = .ok names) (hq : fs.locate q = .ok names')
    (h : components p = components q) : fs.SamePlace p q := by
  have hnames : names = names' := by rw [locate_eq_foldl hp, locate_eq_foldl hq, h]
  exact ⟨names, hp, hnames ▸ hq⟩

/-- A path leads on from the place of another one, but its components are not those of the other one
with the names between added. -/
def StraysFrom (fs : FileSystem) (b a : String) : Prop :=
  ∃ names rest, fs.locate a = .ok names ∧ fs.locate b = .ok (names ++ rest) ∧
    components b ≠ components a ++ rest.map .name

/-- What is found below a path that strays from another one has other components than when it is
found below that one. -/
theorem StraysFrom.components_ne (h : fs.StraysFrom b a) (ha : fs.locate a = .ok names)
    (hb : fs.locate b = .ok names') (hp : fs.IsBelow a names p) (hq : fs.IsBelow b names' q)
    (hsame : fs.SamePlace p q) : components p ≠ components q := by
  obtain ⟨start, between, ha', hb', hstray⟩ := h
  obtain rfl : start = names := Except.ok.inj (ha'.symm.trans ha)
  obtain rfl : start ++ between = names' := Except.ok.inj (hb'.symm.trans hb)
  obtain ⟨restP, contentP, hleadsP, hp⟩ := hp
  obtain ⟨restQ, contentQ, hleadsQ, hq⟩ := hq
  obtain ⟨place, hplaceP, hplaceQ⟩ := hsame
  have hplace : start ++ restP = start ++ between ++ restQ :=
    (Except.ok.inj (hleadsP.located.symm.trans hplaceP)).trans
      (Except.ok.inj (hplaceQ.symm.trans hleadsQ.located))
  rw [List.append_assoc, List.append_cancel_left_eq] at hplace
  -- both paths end with the names below `b`, so they can only be the same if `b` is spelled along `a`
  rw [hp, hq, hplace, List.map_append, ← List.append_assoc]
  intro hcomponents
  exact hstray (List.append_cancel_right hcomponents).symm

/-- **A file below two paths** has other components below one than below the other exactly when one
of the paths strays from the other. -/
theorem components_ne_iff (ha : fs.locate a = .ok names) (hb : fs.locate b = .ok names')
    (hp : fs.IsBelow a names p) (hq : fs.IsBelow b names' q) (hsame : fs.SamePlace p q) :
    components p ≠ components q ↔ fs.StraysFrom b a ∨ fs.StraysFrom a b := by
  constructor
  · intro hne
    obtain ⟨restP, contentP, hleadsP, hcomponentsP⟩ := hp
    obtain ⟨restQ, contentQ, hleadsQ, hcomponentsQ⟩ := hq
    obtain ⟨place, hplaceP, hplaceQ⟩ := hsame
    have hplace : names ++ restP = names' ++ restQ :=
      (Except.ok.inj (hleadsP.located.symm.trans hplaceP)).trans
        (Except.ok.inj (hplaceQ.symm.trans hleadsQ.located))
    rw [hcomponentsP, hcomponentsQ] at hne
    -- one place is on the way from the root to the other
    rcases List.append_eq_append_iff.mp hplace with ⟨between, rfl, rfl⟩ | ⟨between, rfl, rfl⟩
    · refine .inl ⟨names, between, ha, hb, fun hspelled => hne ?_⟩
      rw [hspelled, List.map_append, List.append_assoc]
    · refine .inr ⟨names', between, hb, ha, fun hspelled => hne ?_⟩
      rw [hspelled, List.map_append, List.append_assoc]
  · rintro (hstray | hstray)
    · exact hstray.components_ne ha hb hp hq hsame
    · exact (hstray.components_ne hb ha hq hp hsame.symm).symm

theorem foldl_step_names (texts start : List String) :
    (texts.map PathComponent.name).foldl PathComponent.step start = start ++ texts := by
  induction texts generalizing start with
  | nil => rw [List.map_nil, List.foldl_nil, List.append_nil]
  | cons text texts ih =>
    rw [List.map_cons, List.foldl_cons, PathComponent.step, ih, List.append_assoc,
      List.singleton_append]

/-- Paths that go on with names from one and the same start do not stray from each other. -/
theorem not_straysFrom {lead : List PathComponent} {texts texts' : List String}
    (ha : components a = lead ++ texts.map .name) (hb : components b = lead ++ texts'.map .name) :
    ¬ fs.StraysFrom b a := by
  rintro ⟨names, rest, hplaceA, hplaceB, hstray⟩
  have hnames := locate_eq_foldl hplaceA
  have hrest := locate_eq_foldl hplaceB
  rw [ha, List.foldl_append, foldl_step_names] at hnames
  rw [hb, List.foldl_append, foldl_step_names, hnames, List.append_assoc,
    List.append_cancel_left_eq] at hrest
  exact hstray (by rw [ha, hb, ← hrest, List.map_append, List.append_assoc])

end FileSystem

namespace Scan

open FileSystem

variable {walker : Walker} {fs : FileSystem} {includeTests : Bool} {p : String}
  {paths found gathered : List String}

/-- A path that is left out leads to the same file as the one that is left for it. -/
theorem IsSettled.exists_samePlace (hsettled : IsSettled gathered found)
    (hwalk : walker.ListsFiles fs) (hgather : gather walker fs includeTests paths = .ok gathered)
    (hp : p ∈ gathered) : ∃ q ∈ found, components q = components p ∧ fs.SamePlace q p := by
  obtain ⟨q, hq, hqp⟩ := hsettled.complete p hp
  obtain ⟨names, content, hplace⟩ := exists_leadsTo_of_mem_gather hwalk hgather hp
  obtain ⟨names', content', hplace'⟩ :=
    exists_leadsTo_of_mem_gather hwalk hgather (hsettled.subset q hq)
  exact ⟨q, hq, hqp, samePlace_of_components hplace'.located hplace.located hqp⟩

theorem IsSettled.pairwise_components_ne (hsettled : IsSettled gathered found) :
    found.Pairwise fun p q => components p ≠ components q :=
  hsettled.ordered.imp fun hlt heq => absurd (Path.keys_eq_iff.mpr heq) (ne_of_lt hlt)

/-- A file is found twice exactly when it is found for two paths of which one strays from the
other. -/
theorem IsSettled.pairwise_not_samePlace_iff (hsettled : IsSettled gathered found)
    (hroot : fs.root.isProper = true) (hwalk : walker.StaysBelow fs)
    (hgather : gather walker fs includeTests paths = .ok gathered) :
    (found.Pairwise fun p q => ¬ fs.SamePlace p q) ↔
      ∀ a ∈ paths, ∀ b ∈ paths,
        (∃ p q, Finds walker fs includeTests a p ∧ Finds walker fs includeTests b q ∧
          fs.SamePlace p q) → ¬ fs.StraysFrom b a := by
  have hfiles := hwalk.listsFiles hroot
  constructor
  · rintro hdistinct a ha b hb ⟨p, q, hp, hq, hsame⟩ hstray
    obtain ⟨names, hlocateA, hbelowP⟩ := hp.exists_isBelow hroot hwalk
    obtain ⟨names', hlocateB, hbelowQ⟩ := hq.exists_isBelow hroot hwalk
    have hne := hstray.components_ne hlocateA hlocateB hbelowP hbelowQ hsame
    obtain ⟨p', hp', hcomponentsP, hsameP⟩ :=
      hsettled.exists_samePlace hfiles hgather ((mem_gather_iff hgather).mpr ⟨a, ha, hp⟩)
    obtain ⟨q', hq', hcomponentsQ, hsameQ⟩ :=
      hsettled.exists_samePlace hfiles hgather ((mem_gather_iff hgather).mpr ⟨b, hb, hq⟩)
    -- `p` and `q` are left under some spelling, and not under the same one
    have hne' : p' ≠ q' := by
      rintro rfl
      exact hne (hcomponentsP.symm.trans hcomponentsQ)
    have : Std.Symm fun p q => ¬ fs.SamePlace p q := ⟨fun _ _ hpq hqp => hpq hqp.symm⟩
    exact hdistinct.forall hp' hq' hne' ((hsameP.trans hsame).trans hsameQ.symm)
  · intro h
    apply hsettled.pairwise_components_ne.imp_of_mem
    intro p q hp hq hne hsame
    obtain ⟨a, ha, hfindsP⟩ := (mem_gather_iff hgather).mp (hsettled.subset p hp)
    obtain ⟨b, hb, hfindsQ⟩ := (mem_gather_iff hgather).mp (hsettled.subset q hq)
    obtain ⟨names, hlocateA, hbelowP⟩ := hfindsP.exists_isBelow hroot hwalk
    obtain ⟨names', hlocateB, hbelowQ⟩ := hfindsQ.exists_isBelow hroot hwalk
    rcases (components_ne_iff hlocateA hlocateB hbelowP hbelowQ hsame).mp hne with hstray | hstray
    · exact h a ha b hb ⟨p, q, hfindsP, hfindsQ, hsame⟩ hstray
    · exact h b hb a ha ⟨q, p, hfindsQ, hfindsP, hsame.symm⟩ hstray

/-- **When files are found once**, by any walk that stays below the directory where it starts. Paths
that lead somewhere stand for files. No two paths that are found have the same components, each
leads to a file, and each file that one of the paths stands for is found. The paths lead to
different files exactly when no two of the paths that are asked for stand for a common file while
one strays from the other; in particular when all of them go on with names from one and the same
start, as relative paths without dots do. -/
theorem files_once (hroot : fs.root.isProper = true) (hwalk : walker.StaysBelow fs)
    (hpaths : ∀ a ∈ paths, ∃ tree, fs.find a = .ok tree) (includeTests : Bool) :
    ∃ found, filesBy walker fs includeTests paths = .ok found ∧
      (found.Pairwise fun p q => components p ≠ components q) ∧
      (∀ p ∈ found, ∃ names content, fs.LeadsTo p names (.file content)) ∧
      (∀ a ∈ paths, ∀ p, Finds walker fs includeTests a p → ∃ q ∈ found, fs.SamePlace q p) ∧
      ((found.Pairwise fun p q => ¬ fs.SamePlace p q) ↔
        ∀ a ∈ paths, ∀ b ∈ paths,
          (∃ p q, Finds walker fs includeTests a p ∧ Finds walker fs includeTests b q ∧
            fs.SamePlace p q) → ¬ fs.StraysFrom b a) ∧
      ((∃ lead, ∀ a ∈ paths, ∃ texts : List String, components a = lead ++ texts.map .name) →
        found.Pairwise fun p q => ¬ fs.SamePlace p q) := by
  obtain ⟨found, hfound⟩ := @exists_filesBy walker fs includeTests paths hpaths
  obtain ⟨gathered, hgather, hsettled⟩ := isSettled_of_filesBy hfound
  have hfiles := hwalk.listsFiles hroot
  have hiff := hsettled.pairwise_not_samePlace_iff hroot hwalk hgather
  refine ⟨found, hfound, hsettled.pairwise_components_ne, ?_, ?_, hiff, ?_⟩
  · intro p hp
    exact exists_leadsTo_of_mem_gather hfiles hgather (hsettled.subset p hp)
  · intro a ha p hp
    obtain ⟨q, hq, -, hsame⟩ :=
      hsettled.exists_samePlace hfiles hgather ((mem_gather_iff hgather).mpr ⟨a, ha, hp⟩)
    exact ⟨q, hq, hsame⟩
  · rintro ⟨lead, hlead⟩
    apply hiff.mpr
    intro a ha b hb _
    obtain ⟨texts, htexts⟩ := hlead a ha
    obtain ⟨texts', htexts'⟩ := hlead b hb
    exact not_straysFrom htexts htexts'

/-- A directory with a file and a directory, which is where one is. -/
def desk : FileSystem :=
  let content := "package a\n\ntype T int\n".toUTF8
  { root := .directory [("work", .directory
      [("a.go", .file content), ("sub", .directory [("b.go", .file content)])])]
    workingDirectory := ["work"] }

/-- Three paths that start with the dot and have files in common, one of which is spelled with more
slashes. -/
theorem files_once_overlapping : desk.root.isProper = true ∧ Walker.standard.StaysBelow desk ∧
    (∀ a ∈ [".", "./sub", ".//sub/b.go"], ∃ tree, desk.find a = .ok tree) ∧
    files desk false [".", "./sub", ".//sub/b.go"] = .ok ["./a.go", "./sub/b.go"] ∧
    ["./a.go", "./sub/b.go"].Pairwise fun p q => ¬ desk.SamePlace p q := by
  have hroot : desk.root.isProper = true := by decide +kernel
  have hpaths : ∀ a ∈ [".", "./sub", ".//sub/b.go"], ∃ tree, desk.find a = .ok tree := by
    intro a ha
    rcases List.mem_cons.mp ha with rfl | ha
    · exact ⟨_, rfl⟩
    rcases List.mem_cons.mp ha with rfl | ha
    · exact ⟨_, rfl⟩
    obtain rfl := List.mem_singleton.mp ha
    exact ⟨_, rfl⟩
  have hgather : gather Walker.standard desk false [".", "./sub", ".//sub/b.go"] =
      .ok ["./a.go", "./sub/b.go", "./sub/b.go", ".//sub/b.go"] := by decide +kernel
  have hsorted := List.mergeSort_of_pairwise (by decide +kernel :
    ["./a.go", "./sub/b.go", "./sub/b.go", ".//sub/b.go"].Pairwise fun p q => Path.le p q = true)
  have hfiles : files desk false [".", "./sub", ".//sub/b.go"] =
      .ok ["./a.go", "./sub/b.go"] :=
    (filesBy_of_gather hgather hsorted).trans (by decide +kernel)
  have hlead : ∀ a ∈ [".", "./sub", ".//sub/b.go"],
      ∃ texts : List String, components a = [.here] ++ texts.map .name := by
    intro a ha
    rcases List.mem_cons.mp ha with rfl | ha
    · exact ⟨[], by decide +kernel⟩
    rcases List.mem_cons.mp ha with rfl | ha
    · exact ⟨["sub"], by decide +kernel⟩
    obtain rfl := List.mem_singleton.mp ha
    exact ⟨["sub", "b.go"], by decide +kernel⟩
  have hwalk := Walker.staysBelow_standard hroot
  obtain ⟨found, hfound, -, -, -, -, hapart⟩ := files_once hroot hwalk hpaths false
  obtain rfl : ["./a.go", "./sub/b.go"] = found := Except.ok.inj (hfiles.symm.trans hfound)
  exact ⟨hroot, hwalk, hpaths, hfiles, hapart ⟨_, hlead⟩⟩

/-- A file is found twice beside the directory around it when only the path of the directory starts
with a dot, and it is found twice when it is asked for with a dot and without. Its declaration is
then reported as a duplicate of itself. -/
theorem files_twice : desk.root.isProper = true ∧
    files desk false [".", "a.go"] = .ok ["./a.go", "./sub/b.go", "a.go"] ∧
    files desk false ["a.go", "./a.go"] = .ok ["./a.go", "a.go"] ∧
    desk.SamePlace "./a.go" "a.go" ∧
    (Extraction.ofUnits default (["./a.go", "a.go"].filterMap fun path =>
      (SourceUnit.ofFile desk path).toOption)).diagnostics =
        [.duplicate "T" ⟨"a.go", 3, 6⟩ ⟨"./a.go", 3, 6⟩] := by
  refine ⟨by decide +kernel, ?_, ?_, ⟨["work", "a.go"], by decide +kernel, by decide +kernel⟩,
    by decide +kernel⟩
  · have hgather : gather Walker.standard desk false [".", "a.go"] =
        .ok ["./a.go", "./sub/b.go", "a.go"] := by decide +kernel
    have hsorted := List.mergeSort_of_pairwise (by decide +kernel :
      ["./a.go", "./sub/b.go", "a.go"].Pairwise fun p q => Path.le p q = true)
    exact (filesBy_of_gather hgather hsorted).trans (by decide +kernel)
  · have hgather : gather Walker.standard desk false ["a.go", "./a.go"] = .ok ["a.go", "./a.go"] := by
      decide +kernel
    have hbehind : Path.le "a.go" "./a.go" = false := by decide +kernel
    have hsorted : ["a.go", "./a.go"].mergeSort Path.le = ["./a.go", "a.go"] := by
      simp [List.mergeSort, List.MergeSort.Internal.splitInTwo, hbehind]
    exact (filesBy_of_gather hgather hsorted).trans (by decide +kernel)

end Scan

end GoAtlas
