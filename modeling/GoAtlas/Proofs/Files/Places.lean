import GoAtlas.Files.Tree
import Mathlib.Data.List.Basic

/-!
# Where paths lead

The components of a path tell where it leads, if it leads anywhere (`FileSystem.locate_eq_foldl`): a
name leads to an entry, two dots to the directory around, the root to the start. So two paths with
the same components cannot lead to different places. The converse fails, as `a.go`, `./a.go` and
`b/../a.go` show.

The path of an entry of a directory has one component more than the path of the directory, and leads
to the entry (`FileSystem.LeadsTo.join`). That takes a tree in which names can be told apart, as
those of all entries in a directory can (`FileTree.isProper`).
-/

namespace GoAtlas

/-! ## Pieces -/

namespace Text

variable {α : Type} [DecidableEq α] {separator : α} {cs : List α}

/-- A text without the separator is one piece. -/
theorem pieces_eq_singleton (h : separator ∉ cs) : pieces separator cs = [cs] := by
  induction cs with
  | nil => rfl
  | cons c rest ih =>
    rw [List.mem_cons, not_or] at h
    obtain ⟨hc, hrest⟩ := h
    rw [pieces, if_neg (Ne.symm hc), ih hrest]

/-- A separator ends the pieces in front of it, whatever they are. -/
theorem pieces_append (separator : α) (cs rest : List α) :
    pieces separator (cs ++ separator :: rest) = pieces separator cs ++ pieces separator rest := by
  induction cs with
  | nil => simp only [List.nil_append, pieces, if_true, List.singleton_append]
  | cons c cs ih =>
    rw [List.cons_append, pieces, pieces, ih]
    split
    · rfl
    · -- the character belongs to the first piece, which ends before `rest`
      cases hcs : pieces separator cs with
      | nil => exact absurd hcs (pieces_ne_nil separator cs)
      | cons piece more => rfl

end Text

namespace PathComponent

/-- Where a component leads from a place. -/
def step (names : List String) : PathComponent → List String
  | root => []
  | here => names
  | parent => names.dropLast
  | name text => names ++ [text]

end PathComponent

/-- Whether an entry of a directory can have a name: it is one piece of a path, and the piece leads
to an entry. -/
def isEntryName (name : String) : Bool :=
  !Path.isStill name && name != ".." && !name.toList.contains '/'

namespace Path

open Text (pieces_ne_nil)

variable {path name : String} {front : List String}

/-- An absolute path starts with an empty piece and has another one behind it. -/
theorem pieces_eq_cons_of_absolute (h : path.toList.head? = some '/') :
    ∃ more rest, pieces path = "" :: more :: rest := by
  obtain ⟨cs, hcs⟩ := List.head?_eq_some_iff.mp h
  obtain ⟨more, rest, hrest⟩ := List.exists_cons_of_ne_nil (pieces_ne_nil '/' cs)
  refine ⟨String.ofList more, rest.map String.ofList, ?_⟩
  rw [pieces, hcs, Text.pieces, if_pos rfl, hrest]
  rfl

/-- A path that is not absolute starts with a piece that is not empty. -/
theorem pieces_eq_cons_of_relative (hempty : path.toList ≠ [])
    (h : path.toList.head? ≠ some '/') :
    ∃ first rest, pieces path = first :: rest ∧ first ≠ "" := by
  obtain ⟨c, cs, hcs⟩ := List.exists_cons_of_ne_nil hempty
  obtain ⟨piece, rest, hrest⟩ := List.exists_cons_of_ne_nil (pieces_ne_nil '/' cs)
  have hc : c ≠ '/' := by
    rintro rfl
    exact h (by rw [hcs]; rfl)
  refine ⟨String.ofList (c :: piece), rest.map String.ofList, ?_, ?_⟩
  · rw [pieces, hcs, Text.pieces, if_neg hc, hrest]
    rfl
  · intro hfirst
    have hnil := congrArg String.toList hfirst
    rw [String.toList_ofList] at hnil
    cases hnil

/-- Joining a name does not make a path absolute. -/
theorem head?_join {directory : String} (h : directory.toList ≠ []) (name : String) :
    (join directory name).toList.head? = directory.toList.head? := by
  have hfront : ∃ rest, (join directory name).toList = directory.toList ++ rest := by
    rw [join]
    split
    · exact ⟨_, String.toList_append⟩
    · exact ⟨_, by rw [String.toList_append, String.toList_append, List.append_assoc]⟩
  obtain ⟨rest, hrest⟩ := hfront
  rw [hrest, List.head?_append_of_ne_nil _ h]

/-- The pieces of the path of an entry: the name comes behind those of the directory, apart from an
empty one at the end. -/
theorem exists_pieces_join (hname : isEntryName name = true) (directory : String) :
    ∃ front, front ≠ [] ∧ pieces (join directory name) = front ++ [name] ∧
      (pieces directory = front ∨ pieces directory = front ++ [""]) := by
  have hlast : Text.pieces '/' name.toList = [name.toList] := by
    apply Text.pieces_eq_singleton
    simp only [isEntryName, Bool.and_eq_true, Bool.not_eq_true', List.contains_eq_mem,
      decide_eq_false_iff_not] at hname
    exact hname.2
  have hfront : ∀ cs, (Text.pieces '/' cs).map String.ofList ≠ [] := fun cs hnil =>
    pieces_ne_nil '/' cs (List.map_eq_nil_iff.mp hnil)
  by_cases hslash : directory.toList.getLast? = some '/'
  · obtain ⟨cs, hcs⟩ := List.getLast?_eq_some_iff.mp hslash
    refine ⟨(Text.pieces '/' cs).map String.ofList, hfront cs, ?_, .inr ?_⟩
    · rw [join, if_pos hslash, pieces, String.toList_append, hcs, List.append_assoc,
        List.singleton_append, Text.pieces_append, hlast, List.map_append]
      simp only [List.map_cons, List.map_nil, String.ofList_toList]
    · rw [pieces, hcs, Text.pieces_append, List.map_append]
      rfl
  · refine ⟨(Text.pieces '/' directory.toList).map String.ofList, hfront _, ?_, .inl rfl⟩
    have hjoin : (directory ++ "/" ++ name).toList = directory.toList ++ '/' :: name.toList := by
      rw [String.toList_append, String.toList_append, List.append_assoc]
      rfl
    rw [join, if_neg hslash, pieces, hjoin, Text.pieces_append, hlast, List.map_append]
    simp only [List.map_cons, List.map_nil, String.ofList_toList]

/-! ## Components

A path is cut at its slashes, and each piece makes components: an empty piece and a dot make none,
except at the start, where they tell an absolute path from a relative one. -/

/-- The components of a path with some pieces. -/
def ofPieces : List String → List PathComponent
  | "" :: more :: rest => .root :: componentsOf (more :: rest)
  | "." :: rest => .here :: componentsOf rest
  | ps => componentsOf ps

theorem components_eq (path : String) : components path = ofPieces (pieces path) := rfl

/-- Each piece makes components of its own, so pieces can be taken apart anywhere but at the start.
-/
theorem componentsOf_append (ps rest : List String) :
    componentsOf (ps ++ rest) = componentsOf ps ++ componentsOf rest := by
  rw [componentsOf, List.filter_append, List.map_append]
  rfl

/-- What stands in front of the last piece gives the same components whatever the piece is. -/
theorem exists_ofPieces_append (h : front ≠ []) : ∃ cs, (front ≠ [""] → ofPieces front = cs) ∧
    ∀ last, ofPieces (front ++ [last]) = cs ++ componentsOf [last] := by
  obtain ⟨first, rest, rfl⟩ := List.exists_cons_of_ne_nil h
  -- only the first piece can be special: the root or the dot at the start
  by_cases hempty : first = ""
  · subst hempty
    refine ⟨.root :: componentsOf rest, ?_, fun last => ?_⟩
    · intro hmore
      cases rest with
      | nil => exact absurd rfl hmore
      | cons more rest => rfl
    · rw [List.cons_append, List.cons_append, ← componentsOf_append]
      cases rest <;> rfl
  by_cases hdot : first = "."
  · subst hdot
    refine ⟨.here :: componentsOf rest, fun _ => rfl, fun last => ?_⟩
    rw [List.cons_append, List.cons_append, ← componentsOf_append]
    rfl
  · have hplain : ∀ rest, ofPieces (first :: rest) = componentsOf (first :: rest) := by
      intro rest
      unfold ofPieces
      split
      · rename_i heq
        exact absurd (List.cons.inj heq).1 hempty
      · rename_i heq
        exact absurd (List.cons.inj heq).1 hdot
      · rfl
    refine ⟨componentsOf (first :: rest), fun _ => hplain rest, fun last => ?_⟩
    rw [List.cons_append, hplain, ← List.cons_append, componentsOf_append]

theorem componentsOf_name (h : isEntryName name = true) : componentsOf [name] = [.name name] := by
  simp only [isEntryName, Bool.and_eq_true, Bool.not_eq_true', bne_iff_ne] at h
  simp only [componentsOf, h.1.1, Bool.not_false, List.filter_cons_of_pos, List.filter_nil,
    List.map_cons, List.map_nil, if_neg h.1.2]

/-- **Joining a name** to a path that is not empty adds it as the last component. -/
theorem components_join (hname : isEntryName name = true) {directory : String}
    (hempty : directory.toList ≠ []) :
    components (join directory name) = components directory ++ [.name name] := by
  obtain ⟨front, hfront, hjoin, hpieces⟩ := exists_pieces_join hname directory
  obtain ⟨cs, hcs, hlast⟩ := exists_ofPieces_append hfront
  rw [components_eq, components_eq, hjoin, hlast, componentsOf_name hname]
  rcases hpieces with hpieces | hpieces
  · rw [hpieces, hcs]
    -- the path would be a single empty piece, but it has characters
    rintro rfl
    by_cases habsolute : directory.toList.head? = some '/'
    · obtain ⟨more, rest, hcons⟩ := pieces_eq_cons_of_absolute habsolute
      rw [hpieces] at hcons
      cases hcons
    · obtain ⟨first, rest, hcons, hfirst⟩ := pieces_eq_cons_of_relative hempty habsolute
      rw [hpieces] at hcons
      exact hfirst (List.cons.inj hcons).1.symm
  · have hnone : componentsOf [""] = [] := rfl
    rw [hpieces, hlast, hnone, List.append_nil]

/-- The components of a path lead where its pieces lead, from the root or from where one is. -/
theorem foldl_step_components (hempty : path.toList ≠ []) (start : List String) :
    (components path).foldl PathComponent.step start =
      (componentsOf (pieces path)).foldl PathComponent.step
        (if path.toList.head? = some '/' then [] else start) := by
  rw [components_eq]
  by_cases habsolute : path.toList.head? = some '/'
  · obtain ⟨more, rest, hcons⟩ := pieces_eq_cons_of_absolute habsolute
    rw [hcons, if_pos habsolute]
    rfl
  · obtain ⟨first, rest, hcons, hfirst⟩ := pieces_eq_cons_of_relative hempty habsolute
    rw [hcons, if_neg habsolute]
    unfold ofPieces
    split
    · rename_i heq
      exact absurd (List.cons.inj heq).1 hfirst
    · rename_i heq
      obtain ⟨rfl, rfl⟩ := List.cons.inj heq
      rfl
    · rfl

end Path

/-! ## Trees -/

namespace FileTree

variable {entries : List (String × FileTree)} {name : String} {tree root : FileTree}

mutual

/-- Whether the entries of each directory in a tree have names, and different ones. -/
def isProper : FileTree → Bool
  | file _ => true
  | directory entries => areProper entries

/-- Whether entries have different names, and the trees below them are proper. -/
def areProper : List (String × FileTree) → Bool
  | [] => true
  | (name, tree) :: rest =>
    isEntryName name && rest.all (·.1 != name) && tree.isProper && areProper rest

end

/-- What stands at the end of names is found step by step. -/
theorem at?_append (names rest : List String) (tree : FileTree) :
    tree.at? (names ++ rest) = (tree.at? names).bind (at? rest) := by
  induction names generalizing tree with
  | nil => rfl
  | cons name names ih =>
    rw [List.cons_append, at?, at?]
    cases tree.child? name with
    | none => rfl
    | some child => exact ih child

/-- An entry of a proper directory is what stands under its name. -/
theorem entry_of_areProper (h : areProper entries = true) (hentry : (name, tree) ∈ entries) :
    isEntryName name = true ∧ tree.isProper = true ∧ entries.lookup name = some tree := by
  induction entries with
  | nil => cases hentry
  | cons first rest ih =>
    obtain ⟨other, otherTree⟩ := first
    simp only [areProper, Bool.and_eq_true, List.all_eq_true, bne_iff_ne] at h
    obtain ⟨⟨⟨hname, hdifferent⟩, htree⟩, hrest⟩ := h
    rcases List.mem_cons.mp hentry with hfirst | hentry
    · obtain ⟨rfl, rfl⟩ := Prod.mk.inj hfirst
      exact ⟨hname, htree, List.lookup_cons_self⟩
    · obtain ⟨hname, htree, hlookup⟩ := ih hrest hentry
      have hne : (name == other) = false := beq_false_of_ne (hdifferent _ hentry)
      exact ⟨hname, htree, by rw [List.lookup_cons, hne]; exact hlookup⟩

/-- What stands in a proper tree is proper. -/
theorem isProper_of_at? {names : List String} (h : root.isProper = true)
    (hat : root.at? names = some tree) : tree.isProper = true := by
  induction names generalizing root with
  | nil =>
    obtain rfl := Option.some.inj hat
    exact h
  | cons name names ih =>
    cases root with
    | file content => cases hat
    | directory entries =>
      rw [at?, child?] at hat
      cases hchild : entries.lookup name with
      | none =>
        rw [hchild] at hat
        cases hat
      | some child =>
        rw [hchild] at hat
        obtain ⟨before, after, rfl, -⟩ := List.lookup_eq_some_iff.mp hchild
        rw [isProper] at h
        have hmem : (name, child) ∈ before ++ (name, child) :: after := by simp
        exact ih (entry_of_areProper h hmem).2.1 hat

theorem mem_alter {change : Option FileTree → FileTree} {e : String × FileTree}
    (h : e ∈ alter name change entries) : e.1 = name ∨ e ∈ entries := by
  induction entries with
  | nil => exact .inl (congrArg Prod.fst (List.mem_singleton.mp h))
  | cons first rest ih =>
    obtain ⟨other, otherTree⟩ := first
    rw [alter] at h
    split at h
    · rcases List.mem_cons.mp h with rfl | h
      · exact .inl rfl
      · exact .inr (List.mem_cons_of_mem _ h)
    · rcases List.mem_cons.mp h with rfl | h
      · exact .inr List.mem_cons_self
      · exact (ih h).imp_right (List.mem_cons_of_mem _)

/-- Entries stay proper when what stands under one name is changed into something proper. -/
theorem areProper_alter {change : Option FileTree → FileTree} (hname : isEntryName name = true)
    (hchange : ∀ found, (∀ tree ∈ found, tree.isProper = true) → (change found).isProper = true)
    (h : areProper entries = true) : areProper (alter name change entries) = true := by
  induction entries with
  | nil => simp [alter, areProper, hname, hchange none (by simp)]
  | cons first rest ih =>
    obtain ⟨other, tree⟩ := first
    simp only [areProper, Bool.and_eq_true, List.all_eq_true, bne_iff_ne] at h
    obtain ⟨⟨⟨hother, hdifferent⟩, htree⟩, hrest⟩ := h
    rw [alter]
    split
    · rename_i heq
      subst heq
      have hchanged := hchange (some tree) (by simpa using htree)
      simp only [areProper, Bool.and_eq_true, List.all_eq_true, bne_iff_ne]
      exact ⟨⟨⟨hother, hdifferent⟩, hchanged⟩, hrest⟩
    · rename_i hne
      simp only [areProper, Bool.and_eq_true, List.all_eq_true, bne_iff_ne]
      refine ⟨⟨⟨hother, fun e he => ?_⟩, htree⟩, ih hrest⟩
      rcases mem_alter he with heq | he
      · rw [heq]
        exact Ne.symm hne
      · exact hdifferent e he

/-- A proper tree stays proper when something proper is put at the end of names of entries. -/
theorem isProper_put {change : Option FileTree → FileTree} {names : List String}
    {found : Option FileTree} (hnames : ∀ name ∈ names, isEntryName name = true)
    (hchange : ∀ found, (∀ tree ∈ found, tree.isProper = true) → (change found).isProper = true)
    (hfound : ∀ tree ∈ found, tree.isProper = true) :
    (put change names found).isProper = true := by
  induction names generalizing found with
  | nil =>
    rw [put]
    exact hchange found hfound
  | cons name names ih =>
    obtain ⟨hname, hnames⟩ := List.forall_mem_cons.mp hnames
    have hbelow : ∀ found, (∀ tree ∈ found, tree.isProper = true) →
        (put change names found).isProper = true := fun found hfound => ih hnames hfound
    unfold put
    split
    · cases ‹_ = _›
    · obtain ⟨rfl, rfl⟩ := List.cons.inj ‹_ = _›
      rw [isProper]
      exact areProper_alter hname hbelow (hfound _ rfl)
    · obtain ⟨rfl, rfl⟩ := List.cons.inj ‹_ = _›
      rw [isProper]
      have hnone : areProper [] = true := rfl
      exact areProper_alter hname hbelow hnone

/-- **A tree stays proper** when files and directories are added to it. -/
theorem isProper_addFile {names : List String} (hnames : ∀ name ∈ names, isEntryName name = true)
    (h : tree.isProper = true) (content : ByteArray) :
    (addFile names content tree).isProper = true :=
  isProper_put hnames (fun _ _ => rfl) (by simpa using h)

/-- An empty directory is proper, and one that is there already stays as it is. -/
theorem isProper_addDirectory {names : List String}
    (hnames : ∀ name ∈ names, isEntryName name = true) (h : tree.isProper = true) :
    (addDirectory names tree).isProper = true := by
  refine isProper_put hnames (fun found hfound => ?_) (by simpa using h)
  split
  · exact hfound _ rfl
  · rfl

end FileTree

/-! ## Places

A path leads to a place when following its pieces gives the names of the place and something stands
there. What a path leads to can be joined to it name by name. -/

namespace FileSystem

open GoAtlas.Path (pieces components componentsOf)

variable {fs : FileSystem} {path p q name : String} {names : List String} {tree : FileTree}
  {entries : List (String × FileTree)}

/-- Pieces are followed from where those in front of them lead. -/
theorem follow_append (root : FileTree) (start ps rest : List String) :
    follow root start (ps ++ rest) =
      (follow root start ps).bind fun names => follow root names rest := by
  induction ps generalizing start with
  | nil => rfl
  | cons piece ps ih =>
    rw [List.cons_append, follow, follow]
    cases root.at? start with
    | none => rfl
    | some tree =>
      cases tree with
      | file content => rfl
      | directory entries =>
        dsimp only
        split
        · exact ih start
        split
        · exact ih start.dropLast
        split
        · exact ih (start ++ [piece])
        · rfl

/-- Pieces lead where their components lead, if they lead anywhere. -/
theorem eq_foldl_of_follow {root : FileTree} {start ps : List String}
    (h : follow root start ps = .ok names) :
    names = (componentsOf ps).foldl PathComponent.step start := by
  -- a piece that is followed stays, leads up, or is the name of an entry
  induction ps generalizing start with
  | nil => exact (Except.ok.inj h).symm
  | cons piece ps ih =>
    rw [follow] at h
    have hcons : ∀ x, componentsOf [piece] = x →
        componentsOf (piece :: ps) = x ++ componentsOf ps := by
      rintro x rfl
      exact Path.componentsOf_append [piece] ps
    cases hat : root.at? start with
    | none =>
      rw [hat] at h
      cases h
    | some tree =>
      rw [hat] at h
      cases tree with
      | file content => cases h
      | directory entries =>
        dsimp only at h
        split at h
        · rename_i hstill
          have hnone : componentsOf [piece] = [] := by simp [componentsOf, hstill]
          rw [hcons _ hnone]
          exact ih h
        rename_i hstill
        split at h
        · rename_i hparent
          have hup : componentsOf [piece] = [.parent] := by
            subst hparent
            rfl
          rw [hcons _ hup]
          exact ih h
        rename_i hparent
        split at h
        · have hdown : componentsOf [piece] = [.name piece] := by
            simp [componentsOf, hstill, hparent]
          rw [hcons _ hdown]
          exact ih h
        · cases h

/-- Pieces in front of an empty one lead to the same place. -/
theorem follow_front {root : FileTree} {start front : List String}
    (h : follow root start (front ++ [""]) = .ok names) : follow root start front = .ok names := by
  rw [follow_append] at h
  cases hfront : follow root start front with
  | error reason =>
    rw [hfront] at h
    cases h
  | ok names' =>
    rw [hfront] at h
    have hsame : names = names' := eq_foldl_of_follow h
    rw [hsame]

/-- The name of an entry leads on to the entry. -/
theorem follow_name {root : FileTree} (hname : isEntryName name = true)
    (hdirectory : root.at? names = some (.directory entries))
    (hentry : (entries.lookup name).isSome = true) :
    follow root names [name] = .ok (names ++ [name]) := by
  simp only [isEntryName, Bool.and_eq_true, Bool.not_eq_true', bne_iff_ne] at hname
  rw [follow, hdirectory]
  simp only [hname.1.1, Bool.false_eq_true, if_false, if_neg hname.1.2, hentry, if_true, follow]

theorem ne_nil_of_locate (h : fs.locate path = .ok names) : path.toList ≠ [] := by
  intro hnil
  obtain rfl := String.toList_eq_nil_iff.mp hnil
  cases h

/-- A path is followed from the root if it is absolute, and otherwise from the working directory. -/
theorem locate_eq_follow (h : path.toList ≠ []) : fs.locate path =
    follow fs.root (if path.toList.head? = some '/' then [] else fs.workingDirectory)
      (pieces path) := by
  have hempty : path.isEmpty = false := by
    rw [Bool.eq_false_iff, ne_eq, String.isEmpty_iff]
    rintro rfl
    exact h rfl
  rw [locate, hempty, if_neg Bool.false_ne_true]
  split <;> rfl

/-- **The components of a path tell where it leads.** -/
theorem locate_eq_foldl (h : fs.locate path = .ok names) :
    names = (components path).foldl PathComponent.step fs.workingDirectory := by
  have hempty := ne_nil_of_locate h
  rw [locate_eq_follow hempty] at h
  rw [Path.foldl_step_components hempty]
  exact eq_foldl_of_follow h

/-- A path leads to what stands at the end of some names. -/
structure LeadsTo (fs : FileSystem) (path : String) (names : List String) (tree : FileTree) :
    Prop where
  located : fs.locate path = .ok names
  found : fs.root.at? names = some tree

/-- What stands at the place of a path is found where the path leads. -/
theorem exists_leadsTo_of_find (h : fs.find path = .ok tree) : ∃ names, fs.LeadsTo path names tree := by
  rw [find] at h
  cases hnames : fs.locate path with
  | error reason =>
    rw [hnames] at h
    cases h
  | ok names =>
    simp only [hnames, bind, Except.bind] at h
    split at h
    · rename_i found hfound
      obtain rfl := Except.ok.inj h
      exact ⟨names, hnames, hfound⟩
    · cases h

theorem LeadsTo.find (h : fs.LeadsTo path names tree) : fs.find path = .ok tree := by
  simp only [FileSystem.find, h.located, bind, Except.bind, h.found]
  rfl

/-- **The path of an entry** leads to the entry, and has the name as one component more. -/
theorem LeadsTo.join (h : LeadsTo fs path names (.directory entries))
    (hroot : fs.root.isProper = true) (hentry : (name, tree) ∈ entries) :
    LeadsTo fs (Path.join path name) (names ++ [name]) tree ∧
      components (Path.join path name) = components path ++ [.name name] := by
  have hentries := FileTree.isProper_of_at? hroot h.found
  rw [FileTree.isProper] at hentries
  obtain ⟨hname, -, hlookup⟩ := FileTree.entry_of_areProper hentries hentry
  have hempty := ne_nil_of_locate h.located
  refine ⟨⟨?_, ?_⟩, Path.components_join hname hempty⟩
  · obtain ⟨front, -, hjoin, hpieces⟩ := Path.exists_pieces_join hname path
    have hlocated := h.located
    rw [locate_eq_follow hempty] at hlocated
    have hfront : follow fs.root (if path.toList.head? = some '/' then [] else fs.workingDirectory)
        front = .ok names := by
      rcases hpieces with hpieces | hpieces
      · rwa [hpieces] at hlocated
      · rw [hpieces] at hlocated
        exact follow_front hlocated
    have hhead := Path.head?_join hempty name
    have hjoined : (Path.join path name).toList ≠ [] := by
      intro hnil
      rw [hnil] at hhead
      exact hempty (List.head?_eq_none_iff.mp hhead.symm)
    have hsome : (entries.lookup name).isSome = true := by rw [hlookup]; rfl
    rw [locate_eq_follow hjoined, hhead, hjoin, follow_append, hfront]
    exact follow_name hname h.found hsome
  · rw [FileTree.at?_append, h.found]
    simp only [Option.bind_some, FileTree.at?, FileTree.child?, hlookup]

end FileSystem

end GoAtlas
