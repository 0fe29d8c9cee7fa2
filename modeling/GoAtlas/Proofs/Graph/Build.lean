import GoAtlas.Graph.Build
import GoAtlas.Proofs.Firsts

/-!
# What a graph takes and what it leaves out

Whatever is added to a graph, declarations, candidates or a second graph, the graph takes the
declarations that are the `firsts` of their names against the names that it has, and the reports are
about the `repeats` (`declarations_merge`, `gists_merge`, `gists_addCandidates`).

A graph that has the embeddings of its own declarations (`OwnsEmbeddings`) keeps them so in a join:
what a declaration owns is left out with it.
-/

namespace GoAtlas

/-- What a diagnostic is about: its kind, the type that it concerns and its place. -/
def Diagnostic.gist (d : Diagnostic) : DiagnosticKind × Option String × Option Position :=
  (d.kind, d.subject, d.position)

/-- What the report of a declaration that is left out is about. -/
def Declaration.duplicateGist (d : Declaration) :
    DiagnosticKind × Option String × Option Position :=
  (.duplicateTypeName, some d.name, some d.position)

namespace TypeGraph

variable {g h : TypeGraph} {config : Config}

/-- Two graphs are equal when their declarations and their embeddings are. -/
theorem eq_of_parts (hd : g.declarations = h.declarations) (he : g.embeddings = h.embeddings) :
    g = h := by
  cases g
  cases h
  cases hd
  cases he
  rfl

/-! ## Inserting -/

theorem insertAll_cons (g : TypeGraph) (d : Declaration) (ds : List Declaration) :
    g.insertAll (d :: ds) = (g.insert d).insertAll ds := rfl

/-- Inserting declarations does not touch the embeddings, which are made at the end. -/
@[simp] theorem embeddings_insertAll (g : TypeGraph) (ds : List Declaration) :
    (g.insertAll ds).embeddings = g.embeddings := by
  induction ds generalizing g with
  | nil => rfl
  | cons d rest ih => rw [insertAll_cons, ih, embeddings_insert]

theorem names_insert_of_not_mem {d : Declaration} (hd : d.name ∉ g.names) :
    (g.insert d).names = g.names ++ [d.name] := by
  rw [names, declarations_insert_of_not_mem hd, List.map_append]
  rfl

/-- Inserting adds what is taken against the names of the graph. -/
theorem declarations_insertAll (g : TypeGraph) (ds : List Declaration) :
    (g.insertAll ds).declarations = g.declarations ++ firsts Declaration.name g.names ds := by
  induction ds generalizing g with
  | nil => exact (List.append_nil _).symm
  | cons d rest ih =>
    rw [insertAll_cons, ih]
    by_cases hd : d.name ∈ g.names
    · rw [insert_of_mem hd, firsts_cons_of_mem hd]
    · rw [declarations_insert_of_not_mem hd, names_insert_of_not_mem hd,
        firsts_cons_of_not_mem hd, List.append_assoc, List.singleton_append]

/-- A graph that is made of parts has the first declaration of each name. -/
theorem declarations_ofParts (ds : List Declaration) (es : List Embedding) :
    (ofParts ds es).declarations = firsts Declaration.name [] ds := by
  change (empty.insertAll ds).declarations = _
  rw [declarations_insertAll]
  exact List.nil_append _

/-! ## Adding with reports -/

/-- Adding a declaration whose name is free inserts it without report. -/
theorem add_of_not_mem {d : Declaration} (hd : d.name ∉ g.names) : g.add d = (g.insert d, []) := by
  rw [add, find?_eq_none_iff.mpr hd]

/-- Adding a declaration whose name is taken leaves the graph alone and reports the declaration. -/
theorem add_of_mem {d : Declaration} (hd : d.name ∈ g.names) :
    ∃ first, g.add d = (g.insert d, [.duplicate d.name d.position first]) := by
  rcases hf : g.find? d.name with _ | first
  · exact absurd hd (find?_eq_none_iff.mp hf)
  · exact ⟨first.position, by rw [add, hf, insert_of_mem hd]⟩

theorem add_fst (g : TypeGraph) (d : Declaration) : (g.add d).1 = g.insert d := by
  by_cases hd : d.name ∈ g.names
  · obtain ⟨first, hadd⟩ := add_of_mem hd
    rw [hadd]
  · rw [add_of_not_mem hd]

theorem addAll_fst (g : TypeGraph) (ds : List Declaration) : (g.addAll ds).1 = g.insertAll ds := by
  induction ds generalizing g with
  | nil => rfl
  | cons d rest ih =>
    rw [addAll, insertAll_cons, ← add_fst]
    exact ih _

/-- The reports of adding some declarations are about those that are left out. -/
theorem gists_addAll (g : TypeGraph) (ds : List Declaration) :
    (g.addAll ds).2.map Diagnostic.gist =
      (repeats Declaration.name g.names ds).map Declaration.duplicateGist := by
  induction ds generalizing g with
  | nil => rfl
  | cons d rest ih =>
    rw [addAll]
    dsimp only
    rw [List.map_append, ih, add_fst]
    by_cases hd : d.name ∈ g.names
    · obtain ⟨first, hadd⟩ := add_of_mem hd
      rw [hadd, insert_of_mem hd, repeats_cons_of_mem hd]
      rfl
    · rw [add_of_not_mem hd, names_insert_of_not_mem hd, repeats_cons_of_not_mem hd]
      rfl

/-- The declarations that some candidates make. -/
def declarationsOf (config : Config) (cs : List Candidate) : List Declaration :=
  cs.map fun c => (Declaration.ofCandidate config c).1

/-- The reports of the fields of some candidates. -/
def fieldReportsOf (config : Config) (cs : List Candidate) : List Diagnostic :=
  cs.flatMap fun c => (Declaration.ofCandidate config c).2

theorem addCandidates_fst (g : TypeGraph) (cs : List Candidate) :
    (g.addCandidates config cs).1 = g.insertAll (declarationsOf config cs) := by
  induction cs generalizing g with
  | nil => rfl
  | cons c rest ih =>
    rw [addCandidates, declarationsOf, List.map_cons, insertAll_cons, ← add_fst]
    exact ih _

/-- A graph that is built from candidates has the first declaration of each name. -/
theorem declarations_ofCandidates (config : Config) (cs : List Candidate) :
    (ofCandidates config cs).1.declarations =
      firsts Declaration.name [] (declarationsOf config cs) := by
  change (empty.addCandidates config cs).1.declarations = _
  rw [addCandidates_fst, declarations_insertAll]
  exact List.nil_append _

/-- The reports of adding some candidates are those of their fields, and one for each declaration
that is left out. -/
theorem gists_addCandidates (g : TypeGraph) (cs : List Candidate) :
    ((g.addCandidates config cs).2.map Diagnostic.gist).Perm
      ((fieldReportsOf config cs).map Diagnostic.gist ++
        (repeats Declaration.name g.names (declarationsOf config cs)).map
          Declaration.duplicateGist) := by
  induction cs generalizing g with
  | nil => exact List.Perm.refl _
  | cons c rest ih =>
    rw [addCandidates, fieldReportsOf, List.flatMap_cons, declarationsOf, List.map_cons]
    dsimp only
    rw [List.map_append, List.map_append, List.map_append, List.append_assoc, List.append_assoc,
      add_fst]
    refine List.Perm.append_left _ ?_
    -- a report of `c` itself stands before those of the fields of the candidates that follow
    by_cases hd : (Declaration.ofCandidate config c).1.name ∈ g.names
    · obtain ⟨first, hadd⟩ := add_of_mem hd
      rw [hadd, insert_of_mem hd, repeats_cons_of_mem hd]
      exact ((ih g).cons _).trans List.perm_middle.symm
    · rw [add_of_not_mem hd, repeats_cons_of_not_mem hd, ← names_insert_of_not_mem hd]
      exact ih _

/-! ## Embeddings -/

/-- The graph has the embeddings of its own declarations, in their order. -/
def OwnsEmbeddings (g : TypeGraph) : Prop :=
  g.embeddings = g.declarations.flatMap Declaration.embeddings

theorem ownsEmbeddings_withOwnEmbeddings (g : TypeGraph) : g.withOwnEmbeddings.OwnsEmbeddings :=
  rfl

/-- Graphs that have their own embeddings are equal when their declarations are. -/
theorem OwnsEmbeddings.eq (hg : g.OwnsEmbeddings) (hh : h.OwnsEmbeddings)
    (hd : g.declarations = h.declarations) : g = h :=
  eq_of_parts hd (by rw [hg, hh, hd])

/-- A join takes from the second graph what is taken against the names of the first. -/
theorem declarations_merge (g h : TypeGraph) :
    (g.merge h).1.declarations =
      g.declarations ++ firsts Declaration.name g.names h.declarations := by
  rw [merge]
  dsimp only
  rw [addAll_fst, declarations_insertAll]

/-- The reports of a join are about the declarations of the second graph that are left out. -/
theorem gists_merge (g h : TypeGraph) :
    (g.merge h).2.map Diagnostic.gist =
      (repeats Declaration.name g.names h.declarations).map Declaration.duplicateGist :=
  gists_addAll g h.declarations

/-- A join reports nothing but names that are taken. -/
theorem kind_of_mem_merge {d : Diagnostic} (hd : d ∈ (g.merge h).2) :
    d.kind = .duplicateTypeName := by
  have hgist := List.mem_map_of_mem (f := Diagnostic.gist) hd
  rw [gists_merge] at hgist
  obtain ⟨e, -, he⟩ := List.mem_map.mp hgist
  exact (congrArg Prod.fst he).symm

/-- The embeddings of a declaration have its name at the start. -/
theorem owner_of_mem_embeddings {d : Declaration} {e : Embedding} (he : e ∈ d.embeddings) :
    e.owner = d.name := by
  obtain ⟨field, -, rfl⟩ := List.mem_map.mp he
  rfl

/-- The embeddings of some declarations whose owners have a property are the embeddings of the
declarations that have it. -/
theorem filter_flatMap_embeddings (p : String → Bool) (ds : List Declaration) :
    ((ds.flatMap Declaration.embeddings).filter fun e => p e.owner) =
      (ds.filter fun d => p d.name).flatMap Declaration.embeddings := by
  induction ds with
  | nil => rfl
  | cons d rest ih =>
    have howner : ∀ e ∈ d.embeddings, p e.owner = p d.name := fun e he => by
      rw [owner_of_mem_embeddings he]
    rw [List.flatMap_cons, List.filter_append, ih, List.filter_congr howner]
    cases hp : p d.name
    · rw [List.filter_cons_of_neg (by simp [hp]), List.filter_false, List.nil_append]
    · rw [List.filter_cons_of_pos (by simp [hp]), List.filter_true, List.flatMap_cons]

/-- Every embedding is owned by a declared name. That the declared names are distinct is part of the
graph. -/
def WellFormed (g : TypeGraph) : Prop :=
  ∀ e ∈ g.embeddings, e.owner ∈ g.names

theorem OwnsEmbeddings.wellFormed (hg : g.OwnsEmbeddings) : g.WellFormed := by
  intro e he
  rw [hg] at he
  obtain ⟨d, hd, he⟩ := List.mem_flatMap.mp he
  rw [owner_of_mem_embeddings he]
  exact List.mem_map_of_mem hd

/-- **The embeddings of a join**: from a well-formed graph a join takes those whose owners the first
graph does not declare. -/
theorem embeddings_merge (hh : h.WellFormed) : (g.merge h).1.embeddings =
    g.embeddings ++ h.embeddings.filter fun e => e.owner ∉ g.names := by
  rw [merge]
  dsimp only
  rw [addAll_fst, embeddings_insertAll]
  refine congrArg _ (List.filter_congr fun e he => ?_)
  have hmem : h.contains e.owner = true := contains_iff.mpr (hh e he)
  rw [hmem, Bool.true_and, contains, List.contains_eq_mem, decide_not]

/-- **A join has its own embeddings** if both sides have theirs: what a declaration owns is left out
with it. -/
theorem OwnsEmbeddings.merge (hg : g.OwnsEmbeddings) (hh : h.OwnsEmbeddings) :
    (g.merge h).1.OwnsEmbeddings := by
  have hkept : h.embeddings.filter (fun e => e.owner ∉ g.names) =
      (firsts Declaration.name g.names h.declarations).flatMap Declaration.embeddings := by
    rw [firsts_eq_filter h.distinct, hh]
    exact filter_flatMap_embeddings (fun name => name ∉ g.names) _
  rw [OwnsEmbeddings, declarations_merge, List.flatMap_append, embeddings_merge hh.wellFormed,
    hkept, ← hg]

/-- A graph that is joined to the empty graph stays as it is, without reports. -/
theorem empty_merge (h : TypeGraph) : empty.merge h = (h, []) := by
  refine Prod.ext (eq_of_parts ?_ ?_) ?_
  · rw [declarations_merge]
    exact (List.nil_append _).trans (firsts_nil_of_nodup h.distinct)
  · rw [merge]
    dsimp only
    rw [addAll_fst, embeddings_insertAll]
    refine (List.nil_append _).trans (List.filter_eq_self.mpr fun e _ => ?_)
    have hempty : empty.contains e.owner = false := rfl
    rw [hempty, Bool.and_false, Bool.not_false]
  · have hgists : (empty.merge h).2.map Diagnostic.gist = [] := by
      rw [gists_merge]
      exact congrArg (List.map _) (repeats_nil_of_nodup h.distinct)
    exact List.map_eq_nil_iff.mp hgists

end TypeGraph

end GoAtlas
