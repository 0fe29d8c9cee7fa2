import GoAtlas.Proofs.Graph.Likeness
import GoAtlas.View.FieldPaths
import GoAtlas.View.Flattened
import GoAtlas.View.MethodSet

/-!
# Views of graphs that answer alike

The views of a name are made from the shapes that names stand for and from what names own, so graphs
that are `Alike` have the same views. The only other number that a view depends on is that of the
declarations, which bounds the search.
-/

namespace GoAtlas.TypeGraph.Alike

variable {g h : TypeGraph} (hr : h.Alike g)
include hr

/-- The fields of a struct are asked for by its name. -/
theorem lookupStruct_eq (name : String) : h.lookupStruct name = g.lookupStruct name := by
  rw [lookupStruct, lookupStruct]
  rcases hd : g.find? name with _ | d
  · rw [(hr.find?_eq_none_iff name).mpr hd]
  · obtain ⟨e, he, -, hshape⟩ := hr.exists_find?_eq hd
    simp only [he, hshape]

/-! ## The flattened view -/

theorem embedded_eq : h.embedded = g.embedded := by
  funext e
  simp only [embedded, hr.resolve_eq, hr.followAliases_eq]

theorem visits_eq (owner : String) (via : List String) : h.visits owner via = g.visits owner via := by
  rw [visits, hr.embeddingsFrom_eq, hr.embedded_eq, visits]

/-- Which embeddings lead nowhere is a matter of the embeddings of one type and of the names they
have. -/
theorem unresolvedOf_eq (owner : String) : h.unresolvedOf owner = g.unresolvedOf owner := by
  rw [unresolvedOf, hr.embeddingsFrom_eq, hr.embedded_eq, unresolvedOf]

/-- A step of the expansion takes of a declaration its name and its shape. -/
theorem expandVisit_eq (level : Nat) : h.expandVisit level = g.expandVisit level := by
  funext x v
  rw [expandVisit, expandVisit]
  rcases hd : g.find? v.name with _ | d
  · rw [(hr.find?_eq_none_iff v.name).mpr hd]
  · obtain ⟨e, he, hname, hshape⟩ := hr.exists_find?_eq hd
    have hfields : e.fields = d.fields := by
      rw [Declaration.fields, hshape, Declaration.fields]
    simp only [he, hname, hfields, hr.visits_eq, hr.unresolvedOf_eq]

/-- An expansion asks for nothing else, level after level. -/
theorem expandLevels_eq (fuel level : Nat) (x : Expansion) :
    h.expandLevels fuel level x = g.expandLevels fuel level x := by
  induction fuel generalizing level x with
  | zero => rfl
  | succ fuel ih => simp only [expandLevels, hr.expandVisit_eq, ih]

/-- **The flattened view** of a name is the same: its fields in their order with their ways and
levels, the walk that marks a cycle, and what is left unresolved. -/
theorem flattened_eq (name : String) : h.flattened name = g.flattened name := by
  simp only [flattened, hr.lookupStruct_eq, hr.cycleThrough?_eq, hr.unresolvedOf_eq, hr.visits_eq,
    hr.length_eq, hr.expandLevels_eq]

/-! ## Paths and method sets -/

theorem fieldPaths_eq (name : String) : h.fieldPaths name = g.fieldPaths name := by
  rw [fieldPaths, hr.lookupStruct_eq, fieldPaths]

theorem interfaceBody?_eq : h.interfaceBody? = g.interfaceBody? := by
  funext r
  rcases r with ⟨_ | package, name, pointer⟩ | name | _ | _ | text
  · rw [interfaceBody?, hr.shape_eq, interfaceBody?]
  all_goals rfl

/-- **The method set** of a name is the same. -/
theorem methodSet_eq (expand : Bool) (name : String) :
    h.methodSet expand name = g.methodSet expand name := by
  rw [methodSet, methodSet, hr.interfaceBody?_eq]
  rcases hd : g.find? name with _ | d
  · rw [(hr.find?_eq_none_iff name).mpr hd]
  · obtain ⟨e, he, -, hshape⟩ := hr.exists_find?_eq hd
    simp only [he, hshape]

end GoAtlas.TypeGraph.Alike
