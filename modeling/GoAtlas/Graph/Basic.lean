import GoAtlas.Declaration.Basic

/-!
# The type graph

A type graph holds declarations under distinct names, in the order in which they came, and the
embeddings between them. An embedding names its target only; whether the target is declared is asked
when the graph is used, so a graph may hold embeddings that lead out of it.

The names are distinct by the type: `insert` leaves the graph alone when the name is taken, so the
first declaration of a name wins.
-/

namespace GoAtlas

/-- Declarations under distinct names, and embeddings. -/
structure TypeGraph where
  declarations : List Declaration
  embeddings : List Embedding
  distinct : (declarations.map Declaration.name).Nodup
  deriving DecidableEq

namespace TypeGraph

/-- The graph without declarations. -/
def empty : TypeGraph :=
  { declarations := [], embeddings := [], distinct := List.nodup_nil }

instance : Inhabited TypeGraph := ⟨empty⟩

/-- The declared names, in order. -/
def names (g : TypeGraph) : List String :=
  g.declarations.map Declaration.name

/-- Whether a name is declared. -/
def contains (g : TypeGraph) (name : String) : Bool :=
  g.names.contains name

/-- The declaration of a name. -/
def find? (g : TypeGraph) (name : String) : Option Declaration :=
  g.declarations.find? (·.name == name)

/-- The place of a name among the declarations. -/
def indexOf? (g : TypeGraph) (name : String) : Option Nat :=
  g.declarations.findIdx? (·.name == name)

/-- Adds a declaration at the end, unless its name is taken. -/
def insert (g : TypeGraph) (d : Declaration) : TypeGraph :=
  if h : d.name ∈ g.names then g
  else
    { declarations := g.declarations ++ [d]
      embeddings := g.embeddings
      distinct := by
        rw [List.map_append, List.nodup_append]
        refine ⟨g.distinct, by simp, ?_⟩
        intro a ha b hb
        simp only [List.map_cons, List.map_nil, List.mem_singleton] at hb
        rintro rfl
        exact h (hb ▸ ha) }

/-- Adds declarations one after the other; of each name the first stays. -/
def insertAll (g : TypeGraph) (ds : List Declaration) : TypeGraph :=
  ds.foldl insert g

/-- The graph of some declarations and embeddings; of each name the first declaration stays. -/
def ofParts (declarations : List Declaration) (embeddings : List Embedding) : TypeGraph :=
  let g := empty.insertAll declarations
  { declarations := g.declarations, embeddings, distinct := g.distinct }

/-- The embeddings that a name owns, in order. -/
def embeddingsFrom (g : TypeGraph) (name : String) : List Embedding :=
  g.embeddings.filter (·.owner == name)

/-! ## Laws of insertion -/

theorem contains_iff {g : TypeGraph} {name : String} : g.contains name = true ↔ name ∈ g.names := by
  simp [contains]

theorem insert_of_mem {g : TypeGraph} {d : Declaration} (h : d.name ∈ g.names) :
    g.insert d = g := by
  simp [insert, h]

theorem declarations_insert_of_not_mem {g : TypeGraph} {d : Declaration} (h : d.name ∉ g.names) :
    (g.insert d).declarations = g.declarations ++ [d] := by
  simp [insert, h]

@[simp] theorem embeddings_insert (g : TypeGraph) (d : Declaration) :
    (g.insert d).embeddings = g.embeddings := by
  unfold insert; split <;> rfl

theorem find?_eq_none_iff {g : TypeGraph} {name : String} :
    g.find? name = none ↔ name ∉ g.names := by
  simp [find?, names]

theorem name_of_find? {g : TypeGraph} {name : String} {d : Declaration}
    (h : g.find? name = some d) : d.name = name := by
  simpa using List.find?_some h

end TypeGraph

end GoAtlas
