import GoAtlas.Proofs.Declaration.Truncation
import GoAtlas.Proofs.Graph.History
import GoAtlas.Proofs.View.Expansion
import GoAtlas.View.FieldPaths

/-!
# The tree of fields

The fields of a struct and what is written in place inside them form a tree. A node of the tree is
given by its place, the numbers of the fields on the way down, so that two fields with one name are
two nodes. The places in the order of the numbers, each before those that prolong it, are the order
in which a reader meets the fields (`IsPreorder`).

`fieldPaths` lists the nodes of a struct in this order, each once, with the names on the way down
joined by dots (`Field.pathsOfList_eq`). A path that is empty cannot be told from no path at all, so
this needs direct fields with names; an embedded field has nothing below it, and its name does not
matter. The depth that a field carries is told as well, and in a built graph it is the number of the
fields above it (`fieldPaths_preorder`).
-/

namespace GoAtlas

namespace Field

/-- A field in a tree: the numbers of the fields on the way down, and the fields above it. -/
structure Node where
  places : List Nat
  above : List Field
  field : Field

namespace Node

/-- A node seen from one level further up, where `f` stands above it. -/
def under (i : Nat) (f : Field) (n : Node) : Node :=
  ⟨i :: n.places, f :: n.above, n.field⟩

/-- A node stands in the tree of some fields. -/
inductive IsIn : Node → List Field → Prop where
  | direct {fs : List Field} {i : Nat} {f : Field} : fs[i]? = some f → IsIn ⟨[i], [], f⟩ fs
  | inside {fs : List Field} {i : Nat} {f : Field} {n : Node} : fs[i]? = some f →
    IsIn n f.children → IsIn (n.under i f) fs

/-- The names on the way down to a node. -/
def names (n : Node) : List String :=
  n.above.map Field.name ++ [n.field.name]

/-- A node as an entry of the paths of a struct. -/
def fieldPath (n : Node) : FieldPath :=
  { path := ".".intercalate n.names
    reference := n.field.reference
    depth := n.above.length
    embedded := n.field.embedded }

end Node

/-- A list has the nodes of a tree in the order of their places: a field stands before the fields
below it, and these before the fields behind it. -/
structure IsPreorder (nodes : List Node) (fs : List Field) : Prop where
  sorted : nodes.Pairwise fun m n => m.places < n.places
  mem_iff : ∀ n, n ∈ nodes ↔ n.IsIn fs

/-! ## The nodes -/

mutual

/-- The nodes of a field with a number. -/
def nodes (i : Nat) : Field → List Node
  | ⟨name, reference, embedded, depth, tag, position, children⟩ =>
    let f : Field := ⟨name, reference, embedded, depth, tag, position, children⟩
    ⟨[i], [], f⟩ :: (nodesFrom 0 children).map (Node.under i f)

/-- The nodes of some fields that are numbered from some number on. -/
def nodesFrom (i : Nat) : List Field → List Node
  | [] => []
  | f :: rest => nodes i f ++ nodesFrom (i + 1) rest

end

variable {i : Nat} {f : Field} {fs : List Field} {n : Node} {path : String}

theorem nodes_eq (i : Nat) (f : Field) :
    nodes i f = ⟨[i], [], f⟩ :: (nodesFrom 0 f.children).map (Node.under i f) := by
  cases f
  rw [nodes]

/-- **Induction over a tree of fields**: over the fields, and over those below each of them. -/
@[elab_as_elim]
theorem treeInduction {motive : List Field → Prop} (nil : motive [])
    (cons : ∀ f rest, motive f.children → motive rest → motive (f :: rest)) (fs : List Field) :
    motive fs := by
  induction 0, fs using nodesFrom.induct fun _ f => motive f.children with
  | case1 i name reference embedded depth tag position children ih => exact ih
  | case2 i => exact nil
  | case3 i f rest ihchildren ihrest => exact cons f rest ihchildren ihrest

theorem mem_nodesFrom_iff : n ∈ nodesFrom i fs ↔
    ∃ j f, fs[j]? = some f ∧ n ∈ nodes (i + j) f := by
  induction fs generalizing i with
  | nil => simp [nodesFrom]
  | cons f rest ih =>
    rw [nodesFrom, List.mem_append, ih]
    constructor
    · rintro (hn | ⟨j, g, hg, hn⟩)
      · exact ⟨0, f, rfl, hn⟩
      · exact ⟨j + 1, g, hg, by rwa [Nat.add_assoc, Nat.add_comm 1] at hn⟩
    · rintro ⟨_ | j, g, hg, hn⟩
      · obtain rfl := Option.some.inj hg
        exact Or.inl hn
      · exact Or.inr ⟨j, g, hg, by rwa [Nat.add_assoc, Nat.add_comm 1]⟩

theorem isIn_iff : n.IsIn fs ↔
    ∃ i f, fs[i]? = some f ∧ (n = ⟨[i], [], f⟩ ∨ ∃ m : Node, m.IsIn f.children ∧ m.under i f = n) := by
  constructor
  · rintro (hf | ⟨hf, hm⟩)
    · exact ⟨_, _, hf, Or.inl rfl⟩
    · exact ⟨_, _, hf, Or.inr ⟨_, hm, rfl⟩⟩
  · rintro ⟨i, f, hf, rfl | ⟨m, hm, rfl⟩⟩
    · exact .direct hf
    · exact .inside hf hm

/-- **Every node is listed**, and nothing else. -/
theorem mem_nodesFrom_zero_iff : n ∈ nodesFrom 0 fs ↔ n.IsIn fs := by
  -- on the fields above the node, of which a step inside removes the first
  obtain ⟨places, above, field⟩ := n
  induction above generalizing places fs with
  | nil =>
    rw [mem_nodesFrom_iff, isIn_iff]
    simp [nodes_eq, Node.under]
  | cons g above ih =>
    rw [mem_nodesFrom_iff, isIn_iff]
    simp only [Nat.zero_add, nodes_eq, List.mem_cons, List.mem_map]
    refine exists_congr fun i => exists_congr fun f => and_congr_right fun _ => or_congr_right ?_
    refine exists_congr fun m => and_congr_left fun hm => ?_
    obtain ⟨-, habove, hfield⟩ := Node.mk.inj hm
    obtain ⟨inner, others, last⟩ := m
    obtain rfl : others = above := (List.cons.inj habove).2
    obtain rfl : last = field := hfield
    exact ih inner

/-- The place of a node begins with the number of a field. -/
theorem exists_places_of_mem_nodes (h : n ∈ nodes i f) : ∃ rest, n.places = i :: rest := by
  rw [nodes_eq] at h
  rcases List.mem_cons.mp h with rfl | h
  · exact ⟨[], rfl⟩
  · obtain ⟨m, -, rfl⟩ := List.mem_map.mp h
    exact ⟨m.places, rfl⟩

/-- **The nodes are listed in the order of their places.** -/
theorem pairwise_nodesFrom (i : Nat) (fs : List Field) :
    (nodesFrom i fs).Pairwise fun m n => m.places < n.places := by
  induction fs using treeInduction generalizing i with
  | nil => exact List.Pairwise.nil
  | cons f rest ihchildren ihrest =>
    rw [nodesFrom, List.pairwise_append]
    refine ⟨?_, ihrest (i + 1), fun m hm n hn => ?_⟩
    · rw [nodes_eq, List.pairwise_cons, List.pairwise_map]
      constructor
      · refine List.forall_mem_map.mpr fun m hm => ?_
        obtain ⟨j, g, -, hm⟩ := mem_nodesFrom_iff.mp hm
        obtain ⟨rest, hplaces⟩ := exists_places_of_mem_nodes hm
        exact List.cons_lt_cons_iff.mpr (Or.inr ⟨rfl, hplaces ▸ List.nil_lt_cons _ _⟩)
      · exact (ihchildren 0).imp fun hlt => List.cons_lt_cons_iff.mpr (Or.inr ⟨rfl, hlt⟩)
    · obtain ⟨j, g, -, hn⟩ := mem_nodesFrom_iff.mp hn
      obtain ⟨first, hfirst⟩ := exists_places_of_mem_nodes hm
      obtain ⟨second, hsecond⟩ := exists_places_of_mem_nodes hn
      rw [hfirst, hsecond]
      exact List.cons_lt_cons_iff.mpr (Or.inl (by omega))

theorem isPreorder_nodesFrom (fs : List Field) : IsPreorder (nodesFrom 0 fs) fs :=
  ⟨pairwise_nodesFrom 0 fs, fun _ => mem_nodesFrom_zero_iff⟩

/-! ## The paths -/

theorem paths_eq (path : String) (f : Field) :
    f.paths path = ⟨joinPath path f.name, f.reference, f.depth, f.embedded⟩ ::
      pathsOfList (joinPath path f.name) f.children := by
  cases f
  rw [paths]

/-- The names on the way to a node inside a field begin with the name of the field. -/
theorem Node.intercalate_names_under (i : Nat) (f : Field) (n : Node) :
    ".".intercalate (n.under i f).names = f.name ++ "." ++ ".".intercalate n.names := by
  obtain ⟨next, rest, hnames⟩ : ∃ next rest, n.names = next :: rest :=
    List.exists_cons_of_ne_nil (by simp [names])
  have hunder : (n.under i f).names = f.name :: n.names := rfl
  rw [hunder, hnames, String.intercalate_cons_cons]

/-- What stands in front of the names that prolong a path. -/
def front (path : String) : String :=
  if path.isEmpty then "" else path ++ "."

theorem joinPath_eq (path name : String) : joinPath path name = front path ++ name := by
  unfold joinPath front
  split
  · rw [String.empty_append]
  · rfl

theorem front_of_ne_empty (h : path ≠ "") : front path = path ++ "." := by
  simp [front, h]

theorem joinPath_ne_empty (h : path ≠ "") (name : String) : joinPath path name ≠ "" := by
  rw [joinPath_eq, front_of_ne_empty h]
  simp

/-- **The paths of fields** are those of the nodes of their tree, unless there are fields below an
empty path. -/
theorem pathsOfList_eq (i : Nat) (h : ∀ f ∈ fs, f.children ≠ [] → joinPath path f.name ≠ "") :
    pathsOfList path fs = (nodesFrom i fs).map fun n =>
      ⟨front path ++ ".".intercalate n.names, n.field.reference, n.field.depth,
        n.field.embedded⟩ := by
  induction fs using treeInduction generalizing path i with
  | nil => rfl
  | cons f rest ihchildren ihrest =>
    obtain ⟨hname, hrest⟩ := List.forall_mem_cons.mp h
    -- below a path that is not empty no path is empty
    have hbelow : pathsOfList (joinPath path f.name) f.children =
        (nodesFrom 0 f.children).map fun n =>
          ⟨joinPath path f.name ++ "." ++ ".".intercalate n.names, n.field.reference,
            n.field.depth, n.field.embedded⟩ := by
      by_cases hchildren : f.children = []
      · rw [hchildren]
        rfl
      · have hne := hname hchildren
        rw [ihchildren 0 fun g _ _ => joinPath_ne_empty hne g.name, front_of_ne_empty hne]
    rw [pathsOfList, paths_eq, hbelow, ihrest (i + 1) hrest, nodesFrom, List.map_append, nodes_eq,
      List.map_cons, List.map_map, joinPath_eq]
    refine congrArg₂ (· ++ ·) (congrArg₂ (· :: ·) rfl (List.map_congr_left fun n _ => ?_)) rfl
    rw [Function.comp_apply, Node.intercalate_names_under]
    simp [Node.under, String.append_assoc]

/-! ## Depths -/

theorem mem_atLevel_flatMap {level : Nat} {g : Field} (hf : f ∈ fs)
    (hg : g ∈ atLevel level f.children) : g ∈ atLevel (level + 1) fs := by
  obtain ⟨before, behind, rfl⟩ := List.append_of_mem hf
  rw [atLevel, List.flatMap_append, List.flatMap_cons, atLevel_append, atLevel_append]
  exact List.mem_append_right _ (List.mem_append_left _ hg)

/-- A node stands on the level of the number of fields above it. -/
theorem Node.IsIn.mem_atLevel (h : n.IsIn fs) : n.field ∈ atLevel n.above.length fs := by
  induction h with
  | direct hf => exact List.mem_of_getElem? hf
  | inside hf _ ih => exact mem_atLevel_flatMap (List.mem_of_getElem? hf) ih

end Field

/-- The fields of a declaration are those of some lines. -/
theorem Declaration.exists_lines_of_ofCandidate {config : Config} {c : Candidate} {fs : List Field}
    (h : (ofCandidate config c).1.shape = .struct fs) :
    ∃ owner lines, fs = (Field.ofDecls config.maxInlineDepth owner lines).1 := by
  change (Shape.ofExpr config.maxInlineDepth c.name c.type).1 = _ at h
  cases htype : c.type with
  | struct lines =>
    rw [htype] at h
    exact ⟨c.name, lines, (Shape.struct.inj h).symm⟩
  | _ =>
    rw [htype] at h
    cases h

namespace TypeGraph

variable {config : Config} {cs : List Candidate} {name : String} {fs : List Field}

/-- The fields of a struct of a built graph are those of some lines. -/
theorem exists_lines_of_lookupStruct (h : (ofCandidates config cs).1.lookupStruct name = .ok fs) :
    ∃ owner lines, fs = (Field.ofDecls config.maxInlineDepth owner lines).1 := by
  obtain ⟨d, hd, hshape⟩ := exists_find?_of_lookupStruct h
  have hmem := (find?_eq_some_iff.mp hd).1
  rw [declarations_ofCandidates] at hmem
  obtain ⟨c, -, rfl⟩ := List.mem_map.mp (firsts_sublist.subset hmem)
  exact Declaration.exists_lines_of_ofCandidate hshape

/-- **The paths of a struct list its tree.** In a graph that is built from candidates, the paths of
a struct whose fields have names, embedded fields apart, are one for each node of its tree, a field
before those below it and before those behind it: the names on the way down with dots between them,
the reference of the field itself and whether it is embedded, and as the depth the number of fields
above it, which is within the limit. -/
theorem fieldPaths_preorder (h : (ofCandidates config cs).1.lookupStruct name = .ok fs)
    (hnames : ∀ f ∈ fs, f.embedded = false → f.name ≠ "") :
    ∃ nodes, Field.IsPreorder nodes fs ∧
      (ofCandidates config cs).1.fieldPaths name = .ok (nodes.map Field.Node.fieldPath) ∧
      ∀ n ∈ nodes, n.above.length ≤ config.maxInlineDepth := by
  obtain ⟨owner, lines, hlines⟩ := exists_lines_of_lookupStruct h
  have hstands : ∀ level f, f ∈ Field.atLevel level fs → f.StandsAt config.maxInlineDepth level := by
    intro level f hf
    rw [hlines] at hf
    have hlevel := FieldDecl.standsAt_of_mem_atLevel (Nat.zero_le _) hf
    rwa [Nat.zero_add] at hlevel
  have hnode : ∀ n ∈ Field.nodesFrom 0 fs,
      n.field.StandsAt config.maxInlineDepth n.above.length := fun n hn =>
    hstands _ _ (Field.mem_nodesFrom_zero_iff.mp hn).mem_atLevel
  refine ⟨Field.nodesFrom 0 fs, Field.isPreorder_nodesFrom fs, ?_, fun n hn => ?_⟩
  · have hchildren : ∀ f ∈ fs, f.children ≠ [] → f.name ≠ "" := fun f hf hbelow =>
      hnames f hf ((hstands 0 f hf).holdsStruct hbelow).1
    have hpaths : Field.pathsOfList "" fs = (Field.nodesFrom 0 fs).map Field.Node.fieldPath := by
      rw [Field.pathsOfList_eq 0 hchildren]
      refine List.map_congr_left fun n hn => ?_
      rw [(hnode n hn).depth_eq, Field.Node.fieldPath]
      exact congrArg (FieldPath.mk · _ _ _) String.empty_append
    rw [fieldPaths, h, ← hpaths]
    rfl
  · exact (hnode n hn).depth_eq ▸ (hnode n hn).depth_le

/-- Fields with one name: a line gives two of them, and a third has the name of its type. Each is
listed with what is below it. -/
theorem fieldPaths_preorder_twins :
    let inside : List FieldDecl := [⟨["x"], .predeclared "int", none, ⟨"", 2, 1⟩⟩, embeddingOf "B" 3]
    let lines := [⟨["A", "A"], .struct inside, none, ⟨"", 2, 1⟩⟩, embeddingOf "A" 4]
    let g := (ofCandidates default [structOf "T" 1 lines]).1
    ∃ fs nodes, g.lookupStruct "T" = .ok fs ∧ Field.IsPreorder nodes fs ∧
      g.fieldPaths "T" = .ok (nodes.map Field.Node.fieldPath) ∧
      nodes.map (fun n => n.fieldPath.path) = ["A", "A.x", "A.B", "A", "A.x", "A.B", "A"] ∧
      nodes.map (fun n => n.fieldPath.depth) = [0, 1, 1, 0, 1, 1, 0] := by
  intro inside lines g
  let fs := (Field.ofDecls 32 "T" lines).1
  have hlookup : g.lookupStruct "T" = .ok fs := by decide
  have hnames : ∀ f ∈ fs, f.embedded = false → f.name ≠ "" := by decide
  obtain ⟨nodes, hpreorder, hpaths, -⟩ := fieldPaths_preorder hlookup hnames
  have hlisted : g.fieldPaths "T" = .ok (Field.pathsOfList "" fs) := by decide
  have hnodes : nodes.map Field.Node.fieldPath = Field.pathsOfList "" fs :=
    Except.ok.inj (hpaths.symm.trans hlisted)
  refine ⟨fs, nodes, hlookup, hpreorder, hpaths, ?_, ?_⟩
  · have hmap := congrArg (List.map FieldPath.path) hnodes
    rw [List.map_map] at hmap
    exact hmap.trans (by decide)
  · have hmap := congrArg (List.map FieldPath.depth) hnodes
    rw [List.map_map] at hmap
    exact hmap.trans (by decide)

end TypeGraph

end GoAtlas
