import GoAtlas.Proofs.Codec.Graph
import GoAtlas.Proofs.Graph.Register

/-!
# Where graphs come from

A graph comes about by building, joining and reading, in any order and any number of times. Along
the way declarations are offered to it one after the other, and `Obtained` keeps them all, those
that were taken and those that were left out. A register that is offered the same declarations is at
any time the register of the graph (`Obtained.mirrors`), and a name stands for the first declaration
that was offered under it (`Obtained.find?_eq`).

What is read from elsewhere may have any embeddings. A graph that is only built and joined, and
written and read back on the way (`Built`), has the embeddings of its own declarations
(`Built.ownsEmbeddings`).
-/

namespace GoAtlas

namespace TypeGraph

/-- The graphs that can come about, with the declarations that have been offered in order. -/
inductive Obtained : List Declaration → TypeGraph → Prop where
  | empty : Obtained [] .empty
  | build (config : Config) (cs : List Candidate) :
    Obtained (declarationsOf config cs) (ofCandidates config cs).1
  | merge {ds es : List Declaration} {g h : TypeGraph} :
    Obtained ds g → Obtained es h → Obtained (ds ++ h.declarations) (g.merge h).1
  /-- What is read is whatever stands in a JSON value. -/
  | decode {v : Json} {ds : List Declaration} {embeddings : List Embedding} {g : TypeGraph} :
    parts? v = some (ds, embeddings) → ofJson? v = some g → Obtained ds g

/-- The graphs that come about by building and joining, and by reading what was written. -/
inductive Built : TypeGraph → Prop where
  | empty : Built .empty
  | build (config : Config) (cs : List Candidate) : Built (ofCandidates config cs).1
  | merge {g h : TypeGraph} : Built g → Built h → Built (g.merge h).1
  | reread {g h : TypeGraph} : Built g → ofJson? g.toJson = some h → Built h

variable {g : TypeGraph} {ds : List Declaration}

/-! ## What has been offered -/

/-- A graph has the first declaration of each name that was offered. -/
theorem Obtained.declarations_eq (hg : Obtained ds g) :
    g.declarations = firsts Declaration.name [] ds := by
  induction hg with
  | empty => rfl
  | build config cs => exact declarations_ofCandidates config cs
  | merge _ _ ihg _ =>
    rw [declarations_merge, firsts_append, ← ihg]
    rfl
  | decode hds hg =>
    obtain ⟨_, _, hparts, rfl⟩ := ofJson?_eq_some_iff.mp hg
    obtain ⟨rfl, rfl⟩ := Prod.mk.inj (Option.some.inj (hds.symm.trans hparts))
    exact declarations_ofParts _ _

/-- **The register of a graph** is the one that is offered the same declarations. -/
theorem Obtained.mirrors (hg : Obtained ds g) : (Register.empty.insertAll ds).Mirrors g := by
  have hr := Register.mirrors_empty.insertAll ds
  have hsame : (TypeGraph.empty.insertAll ds).declarations = g.declarations := by
    rw [declarations_insertAll, hg.declarations_eq]
    rfl
  refine ⟨hr.declarations_eq.trans hsame, fun name => ?_⟩
  rw [hr.lookup_eq, indexOf?, hsame, indexOf?]

/-- A name stands for the first declaration that was offered under it. -/
theorem Obtained.find?_eq (hg : Obtained ds g) (name : String) :
    g.find? name = ds.find? (·.name == name) := by
  refine Option.ext fun d => ?_
  rw [find?_eq_some_iff, hg.declarations_eq, mem_firsts_iff]
  constructor
  · rintro ⟨⟨-, hfirst⟩, rfl⟩
    exact hfirst
  · intro hfirst
    have hname : d.name = name := by simpa using List.find?_some hfirst
    rw [← hname] at hfirst
    exact ⟨⟨List.not_mem_nil, hfirst⟩, hname⟩

/-! ## Built graphs -/

theorem Built.obtained (hg : Built g) : ∃ ds, Obtained ds g := by
  induction hg with
  | empty => exact ⟨_, .empty⟩
  | build config cs => exact ⟨_, .build config cs⟩
  | merge _ _ ihg ihh =>
    obtain ⟨ds, hg⟩ := ihg
    obtain ⟨es, hh⟩ := ihh
    exact ⟨_, hg.merge hh⟩
  | reread _ hread ih =>
    rw [ofJson?_toJson] at hread
    obtain rfl := Option.some.inj hread
    exact ih

/-- **A built graph** has the embeddings of its own declarations. -/
theorem Built.ownsEmbeddings (hg : Built g) : g.OwnsEmbeddings := by
  induction hg with
  | empty => rfl
  | build config cs => exact ownsEmbeddings_withOwnEmbeddings _
  | merge _ _ ihg ihh => exact ihg.merge ihh
  | reread _ hread ih =>
    rw [ofJson?_toJson] at hread
    obtain rfl := Option.some.inj hread
    exact ih

/-! ## The representation -/

/-- How a graph is kept in memory, when `ds` have been offered to it. -/
structure Represents (ds : List Declaration) (r : Register) (g : TypeGraph) : Prop where
  declarations_eq : r.declarations = g.declarations
  nodup_names : g.names.Nodup
  /-- The table has a name with a place just when the declaration at this place has the name. -/
  lookup_eq_some_iff : ∀ name i, r.places.lookup name = some i ↔
    ∃ hi : i < g.declarations.length, g.declarations[i].name = name
  indexOf?_eq : ∀ name, g.indexOf? name = r.places.lookup name
  /-- Reading by the table stays within the bounds and gives what the graph gives. -/
  get?_eq : ∀ name, r.get? name = (g.find? name).map some
  /-- A name stands for the first declaration that was offered under it. -/
  find?_eq : ∀ name, g.find? name = ds.find? (·.name == name)
  /-- A declaration whose name is taken is handed back, and nothing changes. -/
  rejected : ∀ d, d.name ∈ g.names → r.insert d = (r, some d) ∧ g.insert d = g
  /-- Any other declaration is taken. -/
  accepted : ∀ d, d.name ∉ g.names →
    (r.insert d).2 = none ∧ (g.insert d).declarations = g.declarations ++ [d]

/-- The embeddings of some declarations by their direct fields: one for each that embeds its type.
The fields inside a field have none. -/
def directEmbeddings (ds : List Declaration) : List Embedding :=
  ds.flatMap fun d =>
    match d.shape with
    | .struct fields =>
      (fields.filter fun x => x.embedded).map fun x =>
        { owner := d.name, target := x.reference, position := x.position }
    | _ => []

/-- Only a struct has fields. -/
theorem exists_struct_of_mem_fields {d : Declaration} {x : Field} (hx : x ∈ d.fields) :
    ∃ fields, d.shape = .struct fields ∧ x ∈ fields := by
  rw [Declaration.fields] at hx
  cases hshape : d.shape with
  | aliasType target =>
    rw [hshape] at hx
    cases hx
  | struct fields =>
    rw [hshape] at hx
    exact ⟨fields, rfl, hx⟩
  | interface methods embeds constraints =>
    rw [hshape] at hx
    cases hx

theorem flatMap_embeddings_eq (ds : List Declaration) :
    ds.flatMap Declaration.embeddings = directEmbeddings ds := by
  refine List.flatMap_congr fun d _ => ?_
  rw [Declaration.embeddings, Declaration.fields]
  cases d.shape <;> rfl

/-- **The representation of graphs**. Wherever a graph comes from, the register that is offered the
same declarations represents it. If it is built, its embeddings are those of the direct fields of
its declarations, so that no declaration that was left out has any, and only structs have. -/
theorem representation :
    (∀ {ds g}, Obtained ds g → Represents ds (Register.empty.insertAll ds) g) ∧
      ∀ {g}, Built g → (∃ ds, Obtained ds g) ∧ g.embeddings = directEmbeddings g.declarations ∧
        ∀ e ∈ g.embeddings, ∃ d fields, g.find? e.owner = some d ∧ d.shape = .struct fields ∧
          ∃ x ∈ fields, x.embedded = true ∧ x.reference = e.target ∧ x.position = e.position := by
  refine ⟨fun {ds g} hg => ?_, fun {g} hg => ?_⟩
  · have hr := hg.mirrors
    exact
      { declarations_eq := hr.declarations_eq
        nodup_names := g.nodup_names
        lookup_eq_some_iff := fun _ _ => hr.lookup_eq_some_iff
        indexOf?_eq := fun name => (hr.lookup_eq name).symm
        get?_eq := hr.get?_eq
        find?_eq := hg.find?_eq
        rejected := fun _ hd => ⟨hr.insert_of_mem hd, insert_of_mem hd⟩
        accepted := fun _ hd =>
          ⟨by rw [hr.insert_of_not_mem hd], declarations_insert_of_not_mem hd⟩ }
  · have howns := hg.ownsEmbeddings
    refine ⟨hg.obtained, howns.trans (flatMap_embeddings_eq _), fun e he => ?_⟩
    rw [howns] at he
    obtain ⟨d, hd, he⟩ := List.mem_flatMap.mp he
    obtain ⟨x, hx, rfl⟩ := List.mem_map.mp he
    obtain ⟨hx, hembedded⟩ := List.mem_filter.mp hx
    obtain ⟨fields, hshape, hx⟩ := exists_struct_of_mem_fields hx
    exact ⟨d, fields, find?_of_mem hd, hshape, x, hx, hembedded, rfl, rfl⟩

/-- A struct with some lines, as a candidate of the line `line`. -/
def structOf (name : String) (line : Nat) (lines : List FieldDecl) : Candidate :=
  { name
    doc := none
    typeParams := none
    isAlias := false
    type := .struct lines
    position := ⟨"", line, 1⟩ }

/-- The line of a struct body that embeds a type. -/
def embeddingOf (target : String) (line : Nat) : FieldDecl :=
  { names := [], type := .named none target, tag := none, position := ⟨"", line, 2⟩ }

/-- Two graphs that are joined, written and read back. The second `A` is left out and owns nothing,
`B` embeds `A` and not what is embedded inside its field `x`, and `B` stands at the second place. -/
theorem representation_of_join :
    let nested : FieldDecl := ⟨["x"], .struct [embeddingOf "D" 4], none, ⟨"", 4, 1⟩⟩
    let cs := [structOf "A" 1 [embeddingOf "B" 1], structOf "A" 2 [embeddingOf "C" 2]]
    let other := [structOf "B" 3 [nested, embeddingOf "A" 5]]
    let g := (ofCandidates default cs).1
    let h := (ofCandidates default other).1
    let offered := declarationsOf default cs ++ h.declarations
    Obtained offered (g.merge h).1 ∧ Built (g.merge h).1 ∧
      (Register.empty.insertAll offered).places.lookup "B" = some 1 ∧
      (g.merge h).1.embeddings =
        [⟨"A", .named none "B" false, ⟨"", 1, 2⟩⟩, ⟨"B", .named none "A" false, ⟨"", 5, 2⟩⟩] := by
  intro nested cs other g h offered
  have hobtained : Obtained offered (g.merge h).1 :=
    .merge (.build default cs) (.build default other)
  have hbuilt : Built (g.merge h).1 :=
    .reread (.merge (.build default cs) (.build default other)) (ofJson?_toJson _)
  have hplace := (representation.1 hobtained).lookup_eq_some_iff "B" 1
  obtain ⟨-, hembeddings, -⟩ := representation.2 hbuilt
  exact ⟨hobtained, hbuilt, hplace.mpr ⟨by decide, by decide⟩, hembeddings.trans (by decide)⟩

end TypeGraph

end GoAtlas
