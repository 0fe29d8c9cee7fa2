import GoAtlas.Graph.Cycles
import GoAtlas.Proofs.Graph.Embedding

/-!
# Graphs that answer alike

What is asked of a graph by name is answered by the shape of the declaration that the name stands
for and by what the name owns. So graphs in which each name stands for the same shape and owns the
same embeddings answer alike, whatever the order of their declarations and whatever else these say
(`Alike`): references and chains of aliases lead to the same names, names have the same targets, and
the same closed walk is found through each.

The report of cycles depends on the order too, but on nothing else of a declaration than its name
and its place: the cycles are the same in graphs with the same names and embeddings
(`embeddingCycles_congr`), and so are the reports if the places are (`cycleDiagnostics_congr`).
-/

namespace GoAtlas.TypeGraph

variable {g h : TypeGraph}

/-- Each name stands for the same shape in two graphs, and owns the same embeddings. -/
structure Alike (h g : TypeGraph) : Prop where
  /-- the graphs have as many declarations, which bounds the searches -/
  length_eq : h.declarations.length = g.declarations.length
  shape_eq : ∀ name, (h.find? name).map Declaration.shape = (g.find? name).map Declaration.shape
  embeddingsFrom_eq : ∀ name, h.embeddingsFrom name = g.embeddingsFrom name

namespace Alike

variable (hr : h.Alike g)
include hr

theorem find?_eq_none_iff (name : String) : h.find? name = none ↔ g.find? name = none := by
  rw [← Option.map_eq_none_iff, hr.shape_eq, Option.map_eq_none_iff]

/-- A name that is declared in one graph is declared in the other, with the same shape. -/
theorem exists_find?_eq {name : String} {d : Declaration} (hd : g.find? name = some d) :
    ∃ e, h.find? name = some e ∧ e.name = d.name ∧ e.shape = d.shape := by
  have hshape := hr.shape_eq name
  rw [hd, Option.map_some, Option.map_eq_some_iff] at hshape
  obtain ⟨e, he, hshape⟩ := hshape
  exact ⟨e, he, (name_of_find? he).trans (name_of_find? hd).symm, hshape⟩

theorem contains_eq : h.contains = g.contains := by
  funext name
  rw [Bool.eq_iff_iff, contains_iff, contains_iff, ← not_iff_not, ← TypeGraph.find?_eq_none_iff,
    ← TypeGraph.find?_eq_none_iff, hr.find?_eq_none_iff]

/-- A reference is resolved by what is declared under its name. -/
theorem resolve_eq (r : Reference) : h.resolve r = g.resolve r := by
  rcases r with ⟨_ | package, name, pointer⟩ | name | _ | _ | text
  · rw [resolve, hr.contains_eq, resolve]
  all_goals rfl

/-- Each step along a chain of aliases is a lookup. -/
theorem chase_eq (fuel : Nat) (seen : List String) (name : String) :
    h.chase fuel seen name = g.chase fuel seen name := by
  induction fuel generalizing seen name with
  | zero => rfl
  | succ fuel ih =>
    rw [chase, chase]
    rcases hd : g.find? name with _ | d
    · rw [(hr.find?_eq_none_iff name).mpr hd]
    · obtain ⟨e, he, -, hshape⟩ := hr.exists_find?_eq hd
      simp only [he, hshape, hr.resolve_eq, ih]

/-- **Chains of aliases** end at the same names. -/
theorem followAliases_eq (name : String) : h.followAliases name = g.followAliases name := by
  rw [followAliases, hr.length_eq, hr.chase_eq, followAliases]

theorem targets_eq : h.targets = g.targets := by
  funext name
  rw [targets, hr.embeddingsFrom_eq, hr.contains_eq, targets]

/-- **The closed walk** through a name is the same, since a search takes the targets of a name in
their order. -/
theorem cycleThrough?_eq (name : String) : h.cycleThrough? name = g.cycleThrough? name := by
  rw [cycleThrough?, hr.targets_eq, hr.length_eq, cycleThrough?]

end Alike

/-! ## The report of cycles -/

section Cycles

variable (hnames : h.names = g.names) (hembeddings : h.embeddings = g.embeddings)
include hnames hembeddings

/-- The edges of a type are resolved one by one. -/
theorem targets_congr : h.targets = g.targets := by
  have hcontains : h.contains = g.contains := by
    funext name
    rw [contains, hnames, contains]
  funext name
  rw [targets, embeddingsFrom, hembeddings, hcontains, targets, embeddingsFrom]

/-- **The cycles** of graphs with the same names in the same order, and the same embeddings, are the
same. -/
theorem embeddingCycles_congr : h.embeddingCycles = g.embeddingCycles := by
  have htargets := targets_congr hnames hembeddings
  have hlength : h.declarations.length = g.declarations.length := by
    rw [← length_names, hnames, length_names]
  have hreach : h.reach = g.reach := by
    simp only [reach, reachable, hnames, htargets, hembeddings]
  have hcomponents : h.components = g.components := by
    rw [components, components, hreach, hnames]
  have hcycle : h.cycleOf? = g.cycleOf? := by
    funext members
    simp only [cycleOf?, first?, cyclePath, walkAmong?, hnames, htargets, hlength]
  rw [embeddingCycles, hcomponents, cyclesAmong, hcycle, embeddingCycles, cyclesAmong]

/-- The closed walk through a name is the same, too. -/
theorem cycleThrough?_congr : h.cycleThrough? = g.cycleThrough? := by
  funext name
  rw [cycleThrough?, targets_congr hnames hembeddings, ← length_names, hnames, length_names,
    cycleThrough?]

/-- **The reports of cycles** are the same if declarations stand at the same places. -/
theorem cycleDiagnostics_congr (hposition : ∀ name,
    (h.find? name).map Declaration.position = (g.find? name).map Declaration.position) :
    h.cycleDiagnostics = g.cycleDiagnostics := by
  rw [cycleDiagnostics, embeddingCycles_congr hnames hembeddings, cycleDiagnostics]
  refine List.map_congr_left fun path _ => ?_
  cases path.head? with
  | none => rfl
  | some name => exact congrArg (Diagnostic.cycle path) (hposition name)

end Cycles

end GoAtlas.TypeGraph
