import GoAtlas.Proofs.Graph.Build
import GoAtlas.Proofs.Graph.Embedding
import Mathlib.Data.List.AList

/-!
# The table of places

A graph finds a declaration by its name, by going through all declarations. In memory, a table tells
for each name where its declaration stands, so that nothing has to be gone through. A `Register` is
the declarations with such a table, and nothing in its type says that the table is right: it may
lack a name, or lead to a place that does not exist.

A table that is entered along with the declarations is right, because a name is looked up in it
before a declaration is added. That is `Mirrors`: the register has the declarations of a graph, and
its table the places of their names. Insertion keeps it so (`Mirrors.insert`, `Mirrors.insertAll`),
and a register that mirrors a graph gives the answers of the graph and never leaves the bounds
(`Mirrors.get?_eq`).
-/

namespace GoAtlas

/-- Declarations with a table of their places by name. -/
structure Register where
  declarations : List Declaration
  places : AList fun _ : String => Nat

namespace Register

/-- The register without declarations. -/
def empty : Register :=
  { declarations := [], places := ∅ }

/-- Adds a declaration at the end and enters its place; a declaration whose name is in the table is
handed back. -/
def insert (r : Register) (d : Declaration) : Register × Option Declaration :=
  if d.name ∈ r.places then (r, some d)
  else
    ({ declarations := r.declarations ++ [d]
       places := r.places.insert d.name r.declarations.length },
      none)

/-- Adds declarations one after the other. -/
def insertAll (r : Register) (ds : List Declaration) : Register :=
  ds.foldl (fun r d => (r.insert d).1) r

/-- What stands at the place that the table has for a name: nothing when the name is not in the
table, and `some none` when it is and the place is out of bounds. -/
def get? (r : Register) (name : String) : Option (Option Declaration) :=
  (r.places.lookup name).map fun i => r.declarations[i]?

/-- The register has the declarations of a graph, and its table the places of their names. -/
structure Mirrors (r : Register) (g : TypeGraph) : Prop where
  declarations_eq : r.declarations = g.declarations
  lookup_eq : ∀ name, r.places.lookup name = g.indexOf? name

theorem mirrors_empty : empty.Mirrors .empty :=
  ⟨rfl, fun _ => rfl⟩

namespace Mirrors

variable {r : Register} {g : TypeGraph} {d : Declaration} (h : r.Mirrors g)
include h

theorem mem_places_iff {name : String} : name ∈ r.places ↔ name ∈ g.names := by
  rw [← AList.lookup_isSome, h.lookup_eq, TypeGraph.indexOf?, List.findIdx?_isSome]
  simp [TypeGraph.names]

/-- A declaration whose name is taken is handed back, and the register is left alone. -/
theorem insert_of_mem (hd : d.name ∈ g.names) : r.insert d = (r, some d) :=
  if_pos (h.mem_places_iff.mpr hd)

theorem insert_of_not_mem (hd : d.name ∉ g.names) : r.insert d =
    ({ declarations := r.declarations ++ [d]
       places := r.places.insert d.name r.declarations.length }, none) :=
  if_neg fun hmem => hd (h.mem_places_iff.mp hmem)

/-- **One insertion** keeps the table right. -/
protected theorem insert (d : Declaration) : (r.insert d).1.Mirrors (g.insert d) := by
  by_cases hd : d.name ∈ g.names
  · rw [h.insert_of_mem hd, TypeGraph.insert_of_mem hd]
    exact h
  · rw [h.insert_of_not_mem hd]
    refine ⟨?_, fun name => ?_⟩
    · rw [TypeGraph.declarations_insert_of_not_mem hd, ← h.declarations_eq]
    · rw [TypeGraph.indexOf?, TypeGraph.declarations_insert_of_not_mem hd, List.findIdx?_append]
      by_cases hname : name = d.name
      · -- the name stood nowhere, so it stands after all declarations
        have hnone : g.indexOf? d.name = none := by
          rw [← Option.not_isSome_iff_eq_none, ← h.lookup_eq, AList.lookup_isSome]
          exact fun hmem => hd (h.mem_places_iff.mp hmem)
        rw [hname, AList.lookup_insert, h.declarations_eq, ← TypeGraph.indexOf?, hnone]
        simp
      · have hother : [d].findIdx? (·.name == name) = none := by simp [Ne.symm hname]
        rw [AList.lookup_insert_ne hname, h.lookup_eq, hother, Option.map_none, Option.or_none,
          TypeGraph.indexOf?]

/-- **Many insertions** keep the table right. -/
theorem insertAll (ds : List Declaration) : (r.insertAll ds).Mirrors (g.insertAll ds) := by
  induction ds generalizing r g with
  | nil => exact h
  | cons d rest ih => exact ih (h.insert d)

/-- A name is in the table with a place when the declaration that stands there has this name. -/
theorem lookup_eq_some_iff {name : String} {i : Nat} : r.places.lookup name = some i ↔
    ∃ hi : i < g.declarations.length, g.declarations[i].name = name := by
  rw [h.lookup_eq, TypeGraph.indexOf?_eq_some_iff, List.getElem?_eq_some_iff]
  simp [TypeGraph.names]

/-- **The table is read** within the bounds, and it leads to what the graph finds. -/
theorem get?_eq (name : String) : r.get? name = (g.find? name).map some := by
  rcases hi : r.places.lookup name with _ | i
  · have hname : name ∉ g.names := by
      rw [← h.mem_places_iff, ← AList.lookup_eq_none]
      exact hi
    rw [get?, hi, TypeGraph.find?_eq_none_iff.mpr hname, Option.map_none, Option.map_none]
  · obtain ⟨hlt, hname⟩ := h.lookup_eq_some_iff.mp hi
    have hfind := TypeGraph.find?_of_mem (List.getElem_mem hlt)
    rw [hname] at hfind
    rw [get?, hi, hfind, h.declarations_eq, Option.map_some, Option.map_some,
      List.getElem?_eq_getElem hlt]

end Mirrors

end Register

end GoAtlas
