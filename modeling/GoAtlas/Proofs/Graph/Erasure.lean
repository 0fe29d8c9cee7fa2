import GoAtlas.Proofs.Graph.Build
import GoAtlas.Proofs.Graph.Likeness

/-!
# Doc comments play no part

Doc comments can be erased from a graph (`withoutDocs`). Whatever is done to graphs can be done
after the erasure as well, with the same result up to doc comments and with the same reports:
declarations are added (`withoutDocs_add`), candidates are added (`withoutDocs_addCandidates`), and
graphs are joined (`withoutDocs_merge`). When candidates are added, the erasure comes to the same as
a configuration that keeps no doc comments and has nothing but the depth limit of the first
(`Config.depthOnly`).

Graphs that are the same without doc comments answer alike (`alike_of_withoutDocs`).
-/

namespace GoAtlas

/-- A configuration with the depth limit of another one that keeps no doc comments. The other
choices are those that stand by default. -/
def Config.depthOnly (config : Config) : Config where
  maxInlineDepth := config.maxInlineDepth
  keepDocComments := false

theorem Config.depthOnly_congr {config other : Config}
    (h : config.maxInlineDepth = other.maxInlineDepth) : config.depthOnly = other.depthOnly := by
  rw [depthOnly, h, depthOnly]

namespace Declaration

/-- A declaration without its doc comment. -/
def withoutDoc (d : Declaration) : Declaration :=
  { d with doc := none }

/-- The declaration of a candidate without its doc comment is the one that is made when no doc
comments are kept. The reports are the same. -/
theorem withoutDoc_ofCandidate (config : Config) (c : Candidate) :
    ofCandidate config.depthOnly c =
      ((ofCandidate config c).1.withoutDoc, (ofCandidate config c).2) :=
  rfl

end Declaration

namespace TypeGraph

open Declaration (withoutDoc)

/-- A graph without doc comments. -/
def withoutDocs (g : TypeGraph) : TypeGraph where
  declarations := g.declarations.map withoutDoc
  embeddings := g.embeddings
  distinct := by
    rw [List.map_map]
    exact g.distinct

theorem declarations_withoutDocs (g : TypeGraph) :
    g.withoutDocs.declarations = g.declarations.map withoutDoc :=
  rfl

theorem embeddings_withoutDocs (g : TypeGraph) : g.withoutDocs.embeddings = g.embeddings :=
  rfl

/-- Nothing is named otherwise. -/
theorem names_withoutDocs (g : TypeGraph) : g.withoutDocs.names = g.names :=
  List.map_map

/-- What a name stands for is the declaration without its doc. -/
theorem find?_withoutDocs (g : TypeGraph) (name : String) :
    g.withoutDocs.find? name = (g.find? name).map withoutDoc :=
  List.find?_map ..

/-! ## What is done to graphs -/

/-- A declaration is taken or left out for its name only, so its doc may be erased before or after.
-/
theorem withoutDocs_insert (g : TypeGraph) (d : Declaration) :
    g.withoutDocs.insert d.withoutDoc = (g.insert d).withoutDocs := by
  by_cases hd : d.name ∈ g.names
  · rw [insert_of_mem hd, insert_of_mem]
    rwa [names_withoutDocs]
  · have hd' : d.withoutDoc.name ∉ g.withoutDocs.names := by rwa [names_withoutDocs]
    refine eq_of_parts ?_ ?_
    · rw [declarations_insert_of_not_mem hd', declarations_withoutDocs, declarations_withoutDocs,
        declarations_insert_of_not_mem hd, List.map_append]
      rfl
    · rw [embeddings_insert, embeddings_withoutDocs, embeddings_withoutDocs, embeddings_insert]

/-- **A declaration** is taken or reported without regard to doc comments. -/
theorem withoutDocs_add (g : TypeGraph) (d : Declaration) :
    g.withoutDocs.add d.withoutDoc = ((g.add d).1.withoutDocs, (g.add d).2) := by
  have hfind : g.withoutDocs.find? d.withoutDoc.name = (g.find? d.name).map withoutDoc :=
    g.find?_withoutDocs d.name
  rw [add, add, hfind]
  cases g.find? d.name with
  | none => exact congrArg (·, []) (g.withoutDocs_insert d)
  | some first => rfl

/-- The reports of duplicates do not speak of docs either. -/
theorem withoutDocs_addAll (g : TypeGraph) (ds : List Declaration) :
    g.withoutDocs.addAll (ds.map withoutDoc) = ((g.addAll ds).1.withoutDocs, (g.addAll ds).2) := by
  induction ds generalizing g with
  | nil => rfl
  | cons d rest ih =>
    rw [List.map_cons, addAll, withoutDocs_add, addAll]
    dsimp only
    rw [ih]

/-- **Candidates** are added to the same effect when no doc comments are kept. -/
theorem withoutDocs_addCandidates (config : Config) (g : TypeGraph) (cs : List Candidate) :
    g.withoutDocs.addCandidates config.depthOnly cs =
      ((g.addCandidates config cs).1.withoutDocs, (g.addCandidates config cs).2) := by
  induction cs generalizing g with
  | nil => rfl
  | cons c rest ih =>
    rw [addCandidates, Declaration.withoutDoc_ofCandidate, addCandidates]
    dsimp only
    rw [withoutDocs_add]
    dsimp only
    rw [ih]

theorem withoutDocs_withOwnEmbeddings (g : TypeGraph) :
    g.withoutDocs.withOwnEmbeddings = g.withOwnEmbeddings.withoutDocs :=
  eq_of_parts rfl (List.flatMap_map ..)

/-- **A graph that is built without docs** is the graph with its docs erased, and reports the same.
-/
theorem withoutDocs_ofCandidates (config : Config) (cs : List Candidate) :
    ofCandidates config.depthOnly cs =
      ((ofCandidates config cs).1.withoutDocs, (ofCandidates config cs).2) := by
  have hadded := withoutDocs_addCandidates config empty cs
  have hempty : empty.withoutDocs = empty := rfl
  rw [hempty] at hadded
  rw [ofCandidates, hadded, ofCandidates]
  dsimp only
  rw [withoutDocs_withOwnEmbeddings]

/-- **A join** takes and reports the same without doc comments. -/
theorem withoutDocs_merge (g h : TypeGraph) :
    g.withoutDocs.merge h.withoutDocs = ((g.merge h).1.withoutDocs, (g.merge h).2) := by
  have hcontains : ∀ (g : TypeGraph) name, g.withoutDocs.contains name = g.contains name :=
    fun g name => by rw [contains, names_withoutDocs, contains]
  have hadded : g.withoutDocs.addAll h.withoutDocs.declarations =
      ((g.addAll h.declarations).1.withoutDocs, (g.addAll h.declarations).2) :=
    g.withoutDocs_addAll h.declarations
  rw [merge, hadded, merge]
  simp only [hcontains]
  rfl

/-! ## What is asked of graphs -/

/-- **Graphs that are the same without doc comments** answer alike. -/
theorem alike_of_withoutDocs {g h : TypeGraph} (heq : h.withoutDocs = g.withoutDocs) :
    h.Alike g where
  length_eq := by
    rw [← length_names, ← names_withoutDocs, heq, names_withoutDocs, length_names]
  shape_eq name := by
    have hfind : (h.find? name).map withoutDoc = (g.find? name).map withoutDoc := by
      rw [← find?_withoutDocs, heq, find?_withoutDocs]
    have hshape := congrArg (Option.map Declaration.shape) hfind
    rwa [Option.map_map, Option.map_map] at hshape
  embeddingsFrom_eq name := by
    rw [embeddingsFrom, ← embeddings_withoutDocs, heq, embeddings_withoutDocs, embeddingsFrom]

end TypeGraph

end GoAtlas
