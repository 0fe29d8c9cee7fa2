import GoAtlas.Source.Lowering
import Mathlib.Data.List.Basic

/-!
# The equation of types

`Lowering.type` is defined with a bound on how deep nodes are nested. The bound is the depth of the
node itself, so it is never met: the type of a node is made of the types of the nodes inside it
(`Lowering.type_eq`). For this, each part that a type is made of is seen to ask only for types of
nodes that are less deep than the node that it is read off.
-/

namespace GoAtlas

namespace Node

variable {n m : Node} {field : NodeField}

theorem depth_le_depthOfList {ns : List Node} (h : m ∈ ns) : m.depth ≤ depthOfList ns := by
  induction ns with
  | nil => cases h
  | cons n ns ih =>
    rw [depthOfList]
    rcases List.mem_cons.mp h with rfl | h
    · exact Nat.le_max_left ..
    · exact Nat.le_trans (ih h) (Nat.le_max_right ..)

/-- A child is less deep than its node. -/
theorem depth_lt_of_mem (h : m ∈ n.children) : m.depth < n.depth := by
  cases n
  rw [depth]
  exact Nat.lt_succ_of_le (depth_le_depthOfList h)

/-- A part of a node is less deep than the node, which is what lets types be read by recursion. -/
theorem depth_lt_of_child? (h : n.child? field = some m) : m.depth < n.depth :=
  depth_lt_of_mem (List.mem_of_find?_eq_some h)

/-- So is a named child, since it is a child. -/
theorem depth_lt_of_mem_namedChildren (h : m ∈ n.namedChildren) : m.depth < n.depth :=
  depth_lt_of_mem (List.mem_filter.mp h).1

theorem depth_lt_of_head?_namedChildren (h : n.namedChildren.head? = some m) :
    m.depth < n.depth :=
  depth_lt_of_mem_namedChildren (List.mem_of_mem_head? h)

theorem depth_pos (n : Node) : 0 < n.depth := by
  cases n
  rw [depth]
  exact Nat.succ_pos _

end Node

namespace Lowering

variable {l : Lowering} {f g : Node → TypeExpr} {n : Node}

/-- Two readers of types agree on all nodes that are less deep than a node. -/
def AgreeBelow (f g : Node → TypeExpr) (n : Node) : Prop :=
  ∀ m : Node, m.depth < n.depth → f m = g m

/-- What holds below a node holds below the nodes inside it. -/
theorem AgreeBelow.of_lt {m : Node} (h : AgreeBelow f g n) (hm : m.depth < n.depth) :
    AgreeBelow f g m :=
  fun _ hlt => h _ (Nat.lt_trans hlt hm)

/-! ## Parts of types

Each part of a type is read off children of its node, so two ways to read types that agree on less
deep nodes read it alike. The laws follow the functions that read the parts, one by one. -/

/-- The type of a field is read off a child of its line. -/
theorem fieldType_congr (h : AgreeBelow f g n) : fieldType f n = fieldType g n := by
  unfold fieldType
  split
  · next t ht => rw [h t (Node.depth_lt_of_child? ht)]
  · rfl

theorem field_congr (h : AgreeBelow f g n) : l.field f n = l.field g n := by
  rw [field, field, fieldType_congr h]

/-- The lines of a struct are two steps inside it. -/
theorem fields_congr (h : AgreeBelow f g n) : l.fields f n = l.fields g n := by
  unfold fields
  split
  · rfl
  · next list hlist =>
    have hbelow := h.of_lt (Node.depth_lt_of_mem (List.mem_of_find?_eq_some hlist))
    refine List.map_congr_left fun m hm => field_congr (hbelow.of_lt ?_)
    exact Node.depth_lt_of_mem (List.mem_filter.mp hm).1

theorem param?_congr (h : AgreeBelow f g n) (variadic : Bool) :
    l.param? f variadic n = l.param? g variadic n := by
  unfold param?
  cases ht : n.child? .type with
  | none => rfl
  | some t => rw [Option.map_some, Option.map_some, h t (Node.depth_lt_of_child? ht)]

/-- Parameters are read off the children of their list. -/
theorem params_congr (h : AgreeBelow f g n) : l.params f n = l.params g n := by
  refine List.filterMap_congr fun m hm => ?_
  have hbelow := h.of_lt (Node.depth_lt_of_mem_namedChildren hm)
  rw [paramOf?, paramOf?, param?_congr hbelow, param?_congr hbelow]

/-- Results are a list of parameters, or a type that stands right inside the method. -/
theorem results_congr (h : AgreeBelow f g n) : l.results f n = l.results g n := by
  unfold results
  split
  · next r hr =>
    have hlt := Node.depth_lt_of_child? hr
    rw [params_congr (h.of_lt hlt), h r hlt]
  · rfl

theorem method?_congr (h : AgreeBelow f g n) : l.method? f n = l.method? g n := by
  have hparams : (n.child? .parameters).elim [] (l.params f) =
      (n.child? .parameters).elim [] (l.params g) := by
    cases hp : n.child? .parameters with
    | none => rfl
    | some list => exact params_congr (h.of_lt (Node.depth_lt_of_child? hp))
  unfold method?
  rw [hparams, results_congr h]

/-- A line of an interface looks at the type that stands alone on it, if one does. -/
theorem typeElement_congr (h : AgreeBelow f g n) : l.typeElement f n = l.typeElement g n := by
  unfold typeElement
  split
  · next term hterm =>
    have hmem : term ∈ n.namedChildren := by
      rw [hterm]
      exact List.mem_singleton_self term
    rw [h term (Node.depth_lt_of_mem_namedChildren hmem)]
  · rfl

/-- Whichever kind of line it is, the types in it are inside it. -/
theorem element?_congr (h : AgreeBelow f g n) : l.element? f n = l.element? g n := by
  unfold element?
  rw [method?_congr h, typeElement_congr h]
  cases hhead : n.namedChildren.head? with
  | none => rfl
  | some m =>
    rw [Option.elim_some, Option.elim_some, h m (Node.depth_lt_of_head?_namedChildren hhead)]

theorem elements_congr (h : AgreeBelow f g n) : l.elements f n = l.elements g n :=
  List.filterMap_congr fun _ hm => element?_congr (h.of_lt (Node.depth_lt_of_mem_namedChildren hm))

/-! ## Types -/

/-- What a node stands for depends on the types of less deep nodes only. -/
theorem typeWith_congr (h : AgreeBelow f g n) : l.typeWith f n = l.typeWith g n := by
  unfold typeWith
  rw [fields_congr h, elements_congr h]
  cases hhead : n.namedChildren.head? with
  | none => rfl
  | some m =>
    dsimp only
    rw [h m (Node.depth_lt_of_head?_namedChildren hhead)]

/-- A bound that is at least the depth of a node makes no difference to its type. -/
theorem typeWithin_of_depth_le {depth : Nat} (h : n.depth ≤ depth) :
    l.typeWithin depth n = l.type n := by
  have hsame : ∀ a b (m : Node), m.depth ≤ a → m.depth ≤ b →
      l.typeWithin a m = l.typeWithin b m := by
    intro a
    induction a with
    | zero => exact fun b m ha _ => absurd m.depth_pos (Nat.not_lt_of_le ha)
    | succ a ih =>
      intro b m ha hb
      cases b with
      | zero => exact absurd m.depth_pos (Nat.not_lt_of_le hb)
      | succ b =>
        refine typeWith_congr fun k hk => ih b k ?_ ?_
        · exact Nat.le_of_lt_succ (Nat.lt_of_lt_of_le hk ha)
        · exact Nat.le_of_lt_succ (Nat.lt_of_lt_of_le hk hb)
  exact hsame depth n.depth n h (Nat.le_refl _)

/-- **The equation of types**: what a node stands for is made of what the nodes inside it stand for.
-/
theorem type_eq (l : Lowering) (n : Node) : l.type n = l.typeWith l.type n := by
  rw [← typeWithin_of_depth_le (Nat.le_succ n.depth)]
  exact typeWith_congr fun m hm => typeWithin_of_depth_le (Nat.le_of_lt hm)

/-- No node stands for a type that is missing: only the field of a struct can lack its type. -/
theorem type_ne_missing (l : Lowering) (n : Node) : l.type n ≠ .missing := by
  have hwithin : ∀ depth m, l.typeWithin depth m ≠ .missing := by
    intro depth
    induction depth with
    | zero =>
      rintro m ⟨⟩
    | succ depth ih =>
      intro m
      have hname : ∀ name, typeOfName name ≠ .missing := by
        intro name
        unfold typeOfName
        split <;> rintro ⟨⟩
      rw [typeWithin, typeWith]
      split
      · exact hname _
      · split <;> rintro ⟨⟩
      · split
        · split <;> rintro ⟨⟩
        · rintro ⟨⟩
      · split
        · exact ih _
        · rintro ⟨⟩
      all_goals rintro ⟨⟩
  exact hwithin n.depth n

end Lowering

end GoAtlas
