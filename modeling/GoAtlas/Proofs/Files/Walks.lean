import GoAtlas.Files.Walk
import GoAtlas.Proofs.Files.Places

/-!
# Where walks lead

What is asked of a walk is that it stays below the directory where it starts: a file that it lists
stands at the end of some names from there, and its path is that of the directory with those names
joined to it (`Walker.StaysBelow`). How a walk chooses what it lists does not matter, nor whether it
lists a file again.

Such a path leads to the file, and has the names as its further components
(`FileSystem.LeadsTo.isBelow_join`). The walk that minds rules stays below
(`Walker.staysBelow_standard`).
-/

namespace GoAtlas

open GoAtlas.Path (components)

variable {fs : FileSystem} {path : String} {names : List String}

/-- A path to a file below another path: the names that lead from there to the file are the
components that the path has in addition. -/
def FileSystem.IsBelow (fs : FileSystem) (path : String) (names : List String) (p : String) : Prop :=
  ∃ rest content, fs.LeadsTo p (names ++ rest) (.file content) ∧
    components p = components path ++ rest.map .name

namespace FileSystem.LeadsTo

theorem isBelow_self {content : ByteArray} (h : fs.LeadsTo path names (.file content)) :
    fs.IsBelow path names path := by
  refine ⟨[], content, ?_, by rw [List.map_nil, List.append_nil]⟩
  rwa [List.append_nil]

/-- **Names joined to a path** one by one give a path below it, when a file stands at their end. -/
theorem isBelow_join {tree : FileTree} (hroot : fs.root.isProper = true)
    (h : fs.LeadsTo path names tree) {rest : List String} {content : ByteArray}
    (hfile : tree.at? rest = some (.file content)) :
    fs.IsBelow path names (rest.foldl Path.join path) := by
  induction rest generalizing path names tree with
  | nil =>
    obtain rfl := Option.some.inj hfile
    exact h.isBelow_self
  | cons name rest ih =>
    cases tree with
    | file other => cases hfile
    | directory entries =>
      obtain ⟨child, hchild, hfile⟩ := Option.bind_eq_some_iff.mp hfile
      obtain ⟨before, after, hentries, -⟩ := List.lookup_eq_some_iff.mp hchild
      have hentry : (name, child) ∈ entries :=
        hentries ▸ List.mem_append_right before List.mem_cons_self
      -- the name comes between the path and what is found below the entry
      obtain ⟨hjoin, hcomponents⟩ := h.join hroot hentry
      obtain ⟨more, content, hleads, hp⟩ := ih hjoin hfile
      refine ⟨name :: more, content, ?_, ?_⟩
      · rwa [List.append_assoc] at hleads
      · rw [List.foldl_cons, hp, hcomponents, List.append_assoc]
        rfl

end FileSystem.LeadsTo

namespace Walker

variable {walker : Walker} {skip : String → Bool} {entries : List (String × FileTree)}
  {e : WalkEntry}

/-- A walk stays below the directory where it starts: each file that it lists stands at the end of
some names from there, and its path is the path of the directory with these names joined to it. -/
def StaysBelow (walker : Walker) (fs : FileSystem) : Prop :=
  ∀ skip path names entries, fs.LeadsTo path names (.directory entries) →
    ∀ e ∈ walker skip fs path, e.isFile = true →
      ∃ rest content, (FileTree.directory entries).at? rest = some (.file content) ∧
        e.path = rest.foldl Path.join path

/-- What a walk lists as files are files. -/
def ListsFiles (walker : Walker) (fs : FileSystem) : Prop :=
  ∀ skip path names entries, fs.LeadsTo path names (.directory entries) →
    ∀ e ∈ walker skip fs path, e.isFile = true →
      ∃ place content, fs.LeadsTo e.path place (.file content)

/-- A file that a walk lists lies below the directory where the walk starts. -/
theorem StaysBelow.isBelow (h : walker.StaysBelow fs) (hroot : fs.root.isProper = true)
    (hpath : fs.LeadsTo path names (.directory entries)) (he : e ∈ walker skip fs path)
    (hfile : e.isFile = true) : fs.IsBelow path names e.path := by
  obtain ⟨rest, content, hat, hjoined⟩ := h skip path names entries hpath e he hfile
  exact hjoined ▸ hpath.isBelow_join hroot hat

/-- Joined names lead to what they say, so such a walk lists only files as files. -/
theorem StaysBelow.listsFiles (h : walker.StaysBelow fs) (hroot : fs.root.isProper = true) :
    walker.ListsFiles fs := by
  intro skip path names entries hpath e he hfile
  obtain ⟨rest, content, hleads, -⟩ := h.isBelow hroot hpath he hfile
  exact ⟨_, content, hleads⟩

/-! ## The walk that minds rules -/

mutual

/-- What is listed at and below an entry has the path of the entry in front. -/
theorem exists_of_mem_entriesOf {levels : List RuleLevel} {names : List String} {path : String}
    {tree : FileTree} (htree : tree.isProper = true) (h : e ∈ entriesOf skip levels names path tree)
    (hfile : e.isFile = true) :
    ∃ rest content, tree.at? rest = some (.file content) ∧ e.path = rest.foldl Path.join path := by
  cases tree with
  | file content =>
    rw [entriesOf, List.mem_singleton] at h
    exact ⟨[], content, rfl, congrArg WalkEntry.path h⟩
  | directory entries =>
    rw [FileTree.isProper] at htree
    rw [entriesOf] at h
    rcases List.mem_cons.mp h with rfl | h
    · cases hfile
    · exact exists_of_mem_entriesOfAll htree (List.Subset.refl entries) h hfile

theorem exists_of_mem_entriesOfAll {levels : List RuleLevel} {names : List String}
    {path : String} {entries part : List (String × FileTree)}
    (hentries : FileTree.areProper entries = true)
    (hpart : part ⊆ entries) (h : e ∈ entriesOfAll skip levels names path part)
    (hfile : e.isFile = true) :
    ∃ rest content, (FileTree.directory entries).at? rest = some (.file content) ∧
      e.path = rest.foldl Path.join path := by
  match part with
  | [] =>
    rw [entriesOfAll] at h
    cases h
  | (name, tree) :: others =>
    obtain ⟨hentry, hothers⟩ := List.cons_subset.mp hpart
    rw [entriesOfAll] at h
    rcases List.mem_append.mp h with h | h
    · split at h
      · cases h
      · obtain ⟨-, htree, hlookup⟩ := FileTree.entry_of_areProper hentries hentry
        obtain ⟨rest, content, hat, hjoined⟩ := exists_of_mem_entriesOf htree h hfile
        refine ⟨name :: rest, content, ?_, hjoined⟩
        rw [FileTree.at?, FileTree.child?, hlookup]
        exact hat
    · exact exists_of_mem_entriesOfAll hentries hothers h hfile

end

/-- **The walk that minds rules** stays below the directory where it starts. -/
theorem staysBelow_standard (hroot : fs.root.isProper = true) : standard.StaysBelow fs := by
  intro skip path names entries hpath e he hfile
  rw [standard, hpath.located] at he
  dsimp only at he
  rw [hpath.found] at he
  dsimp only at he
  split at he
  · cases he
  · exact exists_of_mem_entriesOf (FileTree.isProper_of_at? hroot hpath.found) he hfile

end Walker

end GoAtlas
