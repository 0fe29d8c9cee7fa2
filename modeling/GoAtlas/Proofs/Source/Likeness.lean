import GoAtlas.Proofs.Source.Sketches
import GoAtlas.Proofs.Source.TypeEquation
import GoAtlas.Source.Grammar
import Mathlib.Data.List.Forall2
import Mathlib.Data.Option.Basic

/-!
# Nodes that stand for the same type

Two nodes of different trees stand for the same type, up to places and up to the texts that types
are kept as, when they can be related by a likeness: related nodes are of one kind, their tokens say
the same, and their children are related in turn, but for comments that the second node may have
besides (`Interleaved`). Where a type is the first named child of a node, a comment must not come
first, unless the other node has no named child at all; for then both are kept as text.

A likeness is a relation with these closure properties (`Lowering.IsLikeness`), so that it is enough
to check them once for a relation given in other terms. `Lowering.IsLikeness.sketch_type` is the law
that follows, by induction on the depth of nodes and one law for each part that a type is read off.
-/

namespace GoAtlas

/-! ## Tokens -/

/-- Whether a field holds a single token. -/
def NodeField.isToken : NodeField → Bool
  | name | package | tag => true
  | _ => false

namespace NodeKind

/-- Whether the type of a node of a kind is read off its first named child. -/
def picksFirst : NodeKind → Bool
  | pointerType | parenthesizedType => true
  | _ => false

/-- Whether nodes of a kind are looked into. -/
def isOpened (kind : NodeKind) : Bool :=
  kind.rule?.isSome && !kind.picksFirst

/-- Whether nodes of a kind are in trees of the present grammar. -/
def isCurrent : NodeKind → Bool
  | methodSpec | constraintElem | interfaceTypeName => false
  | _ => true

end NodeKind

namespace Node

/-- Whether a node is a single token: the name of a type, or a node in a field that holds one. -/
def isToken (n : Node) : Bool :=
  n.kind == .typeIdentifier || n.field.any NodeField.isToken

/-- A node is a comment. It plays no part in the node around it. -/
def IsRemark (n : Node) : Prop :=
  n.kind = .comment ∧ n.field = none

/-- A comment plays no part in what is around it. -/
theorem IsRemark.field_ne {n : Node} (h : n.IsRemark) (field : NodeField) :
    (n.field == some field) = false := by
  rw [h.2]
  rfl

end Node

/-! ## Lists of nodes -/

/-- Two lists are related one by one, but for remarks that the second has besides. -/
inductive Interleaved {α : Type} (IsRemark : α → Prop) (R : α → α → Prop) :
    List α → List α → Prop
  | nil : Interleaved IsRemark R [] []
  | cons {x y : α} {xs ys : List α} (head : R x y) (tail : Interleaved IsRemark R xs ys) :
      Interleaved IsRemark R (x :: xs) (y :: ys)
  | remark {c : α} {xs ys : List α} (head : IsRemark c) (tail : Interleaved IsRemark R xs ys) :
      Interleaved IsRemark R xs (c :: ys)

namespace Interleaved

variable {R : Node → Node → Prop} {ns ns' : List Node} {t : Node → Bool}

/-- Lists that are related one by one are related. -/
theorem of_forall₂ {α : Type} {IsRemark : α → Prop} {Q : α → α → Prop} {xs ys : List α}
    (h : List.Forall₂ Q xs ys) : Interleaved IsRemark Q xs ys := by
  induction h with
  | nil => exact .nil
  | cons head _ ih => exact .cons head ih

theorem append {α : Type} {IsRemark : α → Prop} {Q : α → α → Prop} {xs xs' ys ys' : List α}
    (h : Interleaved IsRemark Q xs ys) (h' : Interleaved IsRemark Q xs' ys') :
    Interleaved IsRemark Q (xs ++ xs') (ys ++ ys') := by
  induction h with
  | nil => exact h'
  | cons head _ ih => exact .cons head ih
  | remark head _ ih => exact .remark head ih

theorem imp {α : Type} {IsRemark : α → Prop} {Q Q' : α → α → Prop} {xs ys : List α}
    (h : Interleaved IsRemark Q xs ys) (hQ : ∀ x y, Q x y → Q' x y) :
    Interleaved IsRemark Q' xs ys := by
  induction h with
  | nil => exact .nil
  | cons head _ ih => exact .cons (hQ _ _ head) ih
  | remark head _ ih => exact .remark head ih

/-- A test that holds of no comment selects nodes that are related one by one. -/
theorem filter (h : Interleaved Node.IsRemark R ns ns') (ht : ∀ n n', R n n' → t n' = t n)
    (hremark : ∀ c : Node, c.IsRemark → t c = false) :
    List.Forall₂ R (ns.filter t) (ns'.filter t) := by
  induction h with
  | nil => exact .nil
  | @cons n n' _ _ head _ ih =>
    by_cases hn : t n = true
    · rw [List.filter_cons_of_pos hn, List.filter_cons_of_pos (by rw [ht n n' head, hn])]
      exact .cons head ih
    · rw [List.filter_cons_of_neg hn, List.filter_cons_of_neg (by rwa [ht n n' head])]
      exact ih
  | @remark c _ _ head _ ih =>
    rwa [List.filter_cons_of_neg (by rw [hremark c head]; exact Bool.false_ne_true)]

/-- The named nodes are related as well. -/
theorem filter_isNamed (h : Interleaved Node.IsRemark R ns ns')
    (hkind : ∀ n n', R n n' → n'.kind = n.kind) :
    Interleaved Node.IsRemark R (ns.filter Node.isNamed) (ns'.filter Node.isNamed) := by
  induction h with
  | nil => exact .nil
  | @cons n n' _ _ head _ ih =>
    have hsame : n'.isNamed = n.isNamed := congrArg NodeKind.isNamed (hkind n n' head)
    by_cases hn : n.isNamed = true
    · rw [List.filter_cons_of_pos hn, List.filter_cons_of_pos (by rw [hsame, hn])]
      exact .cons head ih
    · rw [List.filter_cons_of_neg hn, List.filter_cons_of_neg (by rwa [hsame])]
      exact ih
  | @remark c _ _ head _ ih =>
    rw [List.filter_cons_of_pos (by rw [Node.isNamed, head.1]; rfl)]
    exact .remark head ih

/-- The first nodes that pass a test are related, if there are any. -/
theorem find? (h : Interleaved Node.IsRemark R ns ns') (ht : ∀ n n', R n n' → t n' = t n)
    (hremark : ∀ c : Node, c.IsRemark → t c = false) :
    Option.Rel R (ns.find? t) (ns'.find? t) := by
  have hlists := h.filter ht hremark
  rw [← List.head?_filter, ← List.head?_filter]
  generalize ns.filter t = xs at hlists
  generalize ns'.filter t = ys at hlists
  cases hlists with
  | nil => exact .none
  | cons head _ => exact .some head

/-- What is made of related nodes is the same if it is so for any two, and nothing for comments. -/
theorem map_filterMap {α β : Type} {g g' : Node → Option α} {F : α → β}
    (h : Interleaved Node.IsRemark R ns ns') (hg : ∀ n n', R n n' → (g' n').map F = (g n).map F)
    (hremark : ∀ c : Node, c.IsRemark → g' c = none) :
    (ns'.filterMap g').map F = (ns.filterMap g).map F := by
  rw [List.map_filterMap, List.map_filterMap]
  induction h with
  | nil => rfl
  | @cons n n' _ _ head _ ih => rw [List.filterMap_cons, List.filterMap_cons, hg n n' head, ih]
  | @remark c _ _ head _ ih => rw [List.filterMap_cons, hremark c head, Option.map_none, ih]

end Interleaved

/-- A comment cannot take the place of a node. -/
theorem Interleaved.of_singleton {R : Node → Node → Prop} {n n' : Node}
    (h : Interleaved Node.IsRemark R [n] [n']) : R n n' := by
  cases h with
  | cons head _ => exact head
  | remark _ tail => cases tail

/-- What is read off the first of related nodes. -/
theorem map_eq_of_rel {α : Type} {R : Node → Node → Prop} {a b : Option Node} {g g' : Node → α}
    (h : Option.Rel R a b) (hg : ∀ n n', R n n' → g' n' = g n) : b.map g' = a.map g := by
  cases h with
  | none => rfl
  | some h => rw [Option.map_some, Option.map_some, hg _ _ h]

/-- What is made of lists that are related one by one. -/
theorem map_eq_of_forall₂_mem {α β γ : Type} {R : α → β → Prop} {xs : List α} {ys : List β}
    {g : α → γ} {g' : β → γ} (h : List.Forall₂ R xs ys)
    (hg : ∀ x y, x ∈ xs → R x y → g' y = g x) : ys.map g' = xs.map g := by
  induction h with
  | nil => rfl
  | cons head _ ih =>
    rw [List.map_cons, List.map_cons, hg _ _ List.mem_cons_self head,
      ih fun x y hx => hg x y (List.mem_cons_of_mem _ hx)]

namespace Lowering

/-! ## Likenesses -/

/-- The first named children of two nodes are related, or there is none on the one side and a
comment on the other. -/
def FirstsAgree (l l' : Lowering) (f : String → String) (R : Node → Node → Prop) (n n' : Node) :
    Prop :=
  Option.Rel R n.namedChildren.head? n'.namedChildren.head? ∨
    (n.namedChildren.head? = none ∧ ∃ c, n'.namedChildren.head? = some c ∧ c.kind = .comment ∧
      f (l'.text c) = f (l.text n))

/-- What a relation between the nodes of two trees must satisfy so that related nodes stand for the
same type, up to places and up to texts that `f` does not tell apart. -/
structure IsLikeness (l l' : Lowering) (f : String → String) (R : Node → Node → Prop) : Prop where
  kind_eq : ∀ n n', R n n' → n'.kind = n.kind
  field_eq : ∀ n n', R n n' → n'.field = n.field
  isMissing_eq : ∀ n n', R n n' → n'.isMissing = n.isMissing
  isCurrent : ∀ n n', R n n' → n.kind.isCurrent = true
  text_eq : ∀ n n', R n n' → f (l'.text n') = f (l.text n)
  token_eq : ∀ n n', R n n' → n.isToken = true → l'.text n' = l.text n
  children : ∀ n n', R n n' → n.kind.isOpened = true →
    Interleaved Node.IsRemark R n.children n'.children
  first : ∀ n n', R n n' → n.kind.picksFirst = true → FirstsAgree l l' f R n n'
  /-- The parameters of a method are a list in parentheses. -/
  parameters : ∀ n n', R n n' → n.kind = .methodElem → ∀ m ∈ n.children,
    m.field = some .parameters → m.kind = .parameterList
  /-- A line of an interface that is one type is so on both sides. -/
  lone : ∀ n n', R n n' → n.kind = .typeElem →
    (n.namedChildren.length = 1 ↔ n'.namedChildren.length = 1)

/-- A line of an interface that is not one type is kept as its text. -/
theorem typeElement_of_many {l : Lowering} {type : Node → TypeExpr} {n : Node}
    (h : ¬ n.namedChildren.length = 1) : l.typeElement type n = .constraint (l.text n) := by
  unfold typeElement
  split
  · next hterm => exact absurd (by rw [hterm]; rfl) h
  · rfl

namespace IsLikeness

variable {l l' : Lowering} {f : String → String} {R : Node → Node → Prop} {n n' : Node}
  {type type' : Node → TypeExpr}

/-! ### Children -/

/-- Related nodes are of one kind, so a test for a kind does not tell them apart. -/
theorem kind_beq_eq (hR : IsLikeness l l' f R) (kind : NodeKind) (n n' : Node) (h : R n n') :
    (n'.kind == kind) = (n.kind == kind) := by
  rw [hR.kind_eq n n' h]

theorem field_beq_eq (hR : IsLikeness l l' f R) (field : NodeField) (n n' : Node) (h : R n n') :
    (n'.field == some field) = (n.field == some field) := by
  rw [hR.field_eq n n' h]

/-- The first children in a field are related. -/
theorem child? (hR : IsLikeness l l' f R) (h : R n n') (hn : n.kind.isOpened = true)
    (field : NodeField) : Option.Rel R (n.child? field) (n'.child? field) :=
  (hR.children n n' h hn).find? (hR.field_beq_eq field) fun _ hc => hc.field_ne field

/-- The first children of a kind are related, unless comments are asked for. -/
theorem find_kind (hR : IsLikeness l l' f R) (h : R n n') (hn : n.kind.isOpened = true)
    (kind : NodeKind) (hkind : kind ≠ .comment) :
    Option.Rel R (n.children.find? (·.kind == kind)) (n'.children.find? (·.kind == kind)) :=
  (hR.children n n' h hn).find? (hR.kind_beq_eq kind) fun c hc => by
    rw [hc.1]
    exact beq_false_of_ne hkind.symm

/-- The named children are related, but for comments. -/
theorem namedChildren (hR : IsLikeness l l' f R) (h : R n n') (hn : n.kind.isOpened = true) :
    Interleaved Node.IsRemark R n.namedChildren n'.namedChildren :=
  (hR.children n n' h hn).filter_isNamed hR.kind_eq

/-- The tokens in a field that holds single tokens. -/
theorem texts (hR : IsLikeness l l' f R) (h : R n n') (hn : n.kind.isOpened = true)
    (field : NodeField) (hfield : field.isToken = true) :
    (n'.childrenOf field).map l'.text = (n.childrenOf field).map l.text := by
  have hlists : List.Forall₂ R (n.childrenOf field) (n'.childrenOf field) :=
    (hR.children n n' h hn).filter (hR.field_beq_eq field) fun _ hc => hc.field_ne field
  refine map_eq_of_forall₂_mem hlists fun m m' hm hrel => hR.token_eq m m' hrel ?_
  have hin : m.field = some field := by simpa using (List.mem_filter.mp hm).2
  rw [Node.isToken, hin, Option.any_some, hfield, Bool.or_true]

/-- The token in a field, if there is one. -/
theorem text? (hR : IsLikeness l l' f R) (h : R n n') (hn : n.kind.isOpened = true)
    (field : NodeField) (hfield : field.isToken = true) :
    (n'.child? field).map l'.text = (n.child? field).map l.text := by
  have hhead : ∀ m : Node, m.child? field = (m.childrenOf field).head? := fun m =>
    List.head?_filter.symm
  rw [hhead, hhead, ← List.head?_map, ← List.head?_map, hR.texts h hn field hfield]

/-! ### Parts of types

Parts are found by field or by kind, and a comment has neither the fields nor the kinds that are
looked for. So each part is found in both trees, and the parts are related again. -/

/-- What a line of an interface is that has one type. -/
theorem sketch_lone {isGeneric : Prop} [Decidable isGeneric] {text text' : String} {t t' : TypeExpr}
    (htext : f text' = f text) (ht : t'.sketch f = t.sketch f) :
    (match t' with
      | .named package name => Element.embed (.named package name)
      | .verbatim x => if isGeneric then .embed (.verbatim x) else .constraint text'
      | _ => .constraint text').sketch f =
    (match t with
      | .named package name => Element.embed (.named package name)
      | .verbatim x => if isGeneric then .embed (.verbatim x) else .constraint text
      | _ => .constraint text).sketch f := by
  cases t <;> cases t' <;> simp_all [TypeExpr.sketch, Element.sketch]
  split <;> simp_all [TypeExpr.sketch, Element.sketch]

/-- A name with a package is made of two tokens. -/
theorem qualified (hR : IsLikeness l l' f R) (h : R n n') (hn : n.kind = .qualifiedType) :
    (l'.typeWith type' n').sketch f = (l.typeWith type n).sketch f := by
  have hopened : n.kind.isOpened = true := by rw [hn]; rfl
  have hpackage := hR.text? h hopened .package rfl
  have hname := hR.text? h hopened .name rfl
  have htext := hR.text_eq n n' h
  have hkind := hR.kind_eq n n' h
  unfold Lowering.typeWith
  rw [hkind, hn]
  dsimp only
  generalize n.child? .package = p at hpackage ⊢
  generalize n.child? .name = q at hname ⊢
  generalize n'.child? .package = p' at hpackage ⊢
  generalize n'.child? .name = q' at hname ⊢
  cases p <;> cases p' <;> cases q <;> cases q' <;>
    simp_all [TypeExpr.sketch]

section Parts

variable (hR : IsLikeness l l' f R)
  (hin : ∀ n n', R n n' → (type' n').sketch f = (type n).sketch f)

include hR hin

/-- The type of a field is found by its field and not by its place among the children. -/
theorem fieldType (h : R n n') (hn : n.kind = .fieldDeclaration) :
    (Lowering.fieldType type' n').sketch f = (Lowering.fieldType type n).sketch f := by
  have hrel := hR.child? h (by rw [hn]; rfl) .type
  unfold Lowering.fieldType
  generalize n.child? .type = t at hrel
  generalize n'.child? .type = t' at hrel
  cases hrel with
  | none => rfl
  | @some m m' hm =>
    dsimp only
    rw [hR.isMissing_eq m m' hm]
    split
    · rfl
    · exact hin m m' hm

theorem field (h : R n n') (hn : n.kind = .fieldDeclaration) :
    (l'.field type' n').sketch f = (l.field type n).sketch f := by
  have hopened : n.kind.isOpened = true := by rw [hn]; rfl
  have hstar : n'.children.any (·.kind == .symbol "*") = n.children.any (·.kind == .symbol "*") := by
    have hrel := hR.find_kind h hopened (.symbol "*") nofun
    rw [Bool.eq_iff_iff, List.any_eq_true, List.any_eq_true, ← List.find?_isSome,
      ← List.find?_isSome]
    generalize n.children.find? (·.kind == .symbol "*") = star at hrel
    generalize n'.children.find? (·.kind == .symbol "*") = star' at hrel
    cases hrel <;> rfl
  have htype := hR.fieldType hin h hn
  have hnames := hR.texts h hopened .name rfl
  have htag := hR.text? h hopened .tag rfl
  simp only [Lowering.field, FieldDecl.sketch, hnames, htag, hstar]
  split
  · rw [TypeExpr.sketch, TypeExpr.sketch, htype]
  · rw [htype]

/-- The lines of a struct are found by their kind, and a comment has another kind. -/
theorem fields (h : R n n') (hn : n.kind = .structType) :
    (l'.fields type' n').map (FieldDecl.sketch f) = (l.fields type n).map (FieldDecl.sketch f) := by
  have hrel := hR.find_kind h (by rw [hn]; rfl) .fieldDeclarationList nofun
  unfold Lowering.fields
  generalize hlist : n.children.find? (·.kind == .fieldDeclarationList) = list at hrel
  generalize n'.children.find? (·.kind == .fieldDeclarationList) = list' at hrel
  cases hrel with
  | none => rfl
  | @some m m' hm =>
    have hkind : m.kind = .fieldDeclarationList := by simpa using List.find?_some hlist
    have hlines := (hR.children m m' hm (by rw [hkind]; rfl)).filter
      (hR.kind_beq_eq .fieldDeclaration) (fun c hc => by rw [hc.1]; rfl)
    rw [List.map_map, List.map_map]
    refine map_eq_of_forall₂_mem hlines fun k k' hk hrel => hR.field hin hrel ?_
    simpa using (List.mem_filter.mp hk).2

theorem param? (h : R n n') (hn : n.kind.isOpened = true) (variadic : Bool) :
    (l'.param? type' variadic n').map (Param.sketch f) =
      (l.param? type variadic n).map (Param.sketch f) := by
  rw [Lowering.param?, Lowering.param?, Option.map_map, Option.map_map]
  refine map_eq_of_rel (hR.child? h hn .type) fun m m' hm => ?_
  simp only [Function.comp_apply, Param.sketch, hR.texts h hn .name rfl, hin m m' hm]

theorem paramOf? (h : R n n') :
    (l'.paramOf? type' n').map (Param.sketch f) = (l.paramOf? type n).map (Param.sketch f) := by
  rw [Lowering.paramOf?, Lowering.paramOf?, hR.kind_eq n n' h]
  split
  · next hkind => exact hR.param? hin h (by rw [hkind]; rfl) false
  · next hkind => exact hR.param? hin h (by rw [hkind]; rfl) true
  · rfl

/-- Parameters are the named children of a list that are of the kinds of parameters. -/
theorem params (h : R n n') (hn : n.kind = .parameterList) :
    (l'.params type' n').map (Param.sketch f) = (l.params type n).map (Param.sketch f) := by
  refine (hR.namedChildren h (by rw [hn]; rfl)).map_filterMap (fun m m' hm => hR.paramOf? hin hm)
    fun c hc => ?_
  rw [Lowering.paramOf?, hc.1]

/-- Results are found by their field. -/
theorem results (h : R n n') (hn : n.kind = .methodElem) :
    (l'.results type' n').map (Param.sketch f) = (l.results type n).map (Param.sketch f) := by
  have hrel := hR.child? h (by rw [hn]; rfl) .result
  unfold Lowering.results
  generalize n.child? .result = r at hrel
  generalize n'.child? .result = r' at hrel
  cases hrel with
  | none => rfl
  | @some m m' hm =>
    dsimp only
    rw [hR.kind_eq m m' hm]
    split
    · next hkind => exact hR.params hin hm hkind
    · rw [List.map_singleton, List.map_singleton, Param.sketch, Param.sketch, hin m m' hm]

theorem method? (h : R n n') (hn : n.kind = .methodElem) :
    (l'.method? type' n').map (Element.sketch f) = (l.method? type n).map (Element.sketch f) := by
  have hopened : n.kind.isOpened = true := by rw [hn]; rfl
  have hparams : ((n'.child? .parameters).elim [] (l'.params type')).map (Param.sketch f) =
      ((n.child? .parameters).elim [] (l.params type)).map (Param.sketch f) := by
    have hrel := hR.child? h hopened .parameters
    generalize hm : n.child? .parameters = list at hrel
    generalize n'.child? .parameters = list' at hrel
    cases hrel with
    | none => rfl
    | @some m m' hrel =>
      refine hR.params hin hrel (hR.parameters n n' h hn m (List.mem_of_find?_eq_some hm) ?_)
      simpa using List.find?_some hm
  have hname := hR.text? h hopened .name rfl
  have hmap : ∀ (l : Lowering) (type : Node → TypeExpr) (n : Node),
      (l.method? type n).map (Element.sketch f) =
        ((n.child? .name).map l.text).map fun name => Element.method name
          (((n.child? .parameters).elim [] (l.params type)).map (Param.sketch f))
          ((l.results type n).map (Param.sketch f)) default := by
    intro l type n
    rw [Lowering.method?, Option.map_map, Option.map_map]
    refine congrArg (Option.map · _) (funext fun name => ?_)
    rw [Function.comp_apply, Function.comp_apply, Element.sketch, Param.sketchList_eq_map,
      Param.sketchList_eq_map]
  rw [hmap, hmap, hname, hparams, hR.results hin h hn]

/-- A line that is one type is so on both sides, and any other line is kept as its text. -/
theorem typeElement (h : R n n') (hn : n.kind = .typeElem) :
    (l'.typeElement type' n').sketch f = (l.typeElement type n).sketch f := by
  have htext := hR.text_eq n n' h
  have hlone := hR.lone n n' h hn
  by_cases hone : n.namedChildren.length = 1
  · obtain ⟨term, hterm⟩ := List.length_eq_one_iff.mp hone
    obtain ⟨term', hterm'⟩ := List.length_eq_one_iff.mp (hlone.mp hone)
    have hlists := hR.namedChildren h (by rw [hn]; rfl)
    rw [hterm, hterm'] at hlists
    have hrel := hlists.of_singleton
    rw [Lowering.typeElement, Lowering.typeElement, hterm, hterm']
    dsimp only
    rw [hR.kind_eq term term' hrel]
    exact sketch_lone htext (hin term term' hrel)
  · rw [typeElement_of_many hone, typeElement_of_many (mt hlone.mpr hone), Element.sketch,
      Element.sketch, htext]

theorem element? (h : R n n') :
    (l'.element? type' n').map (Element.sketch f) = (l.element? type n).map (Element.sketch f) := by
  have hcurrent := hR.isCurrent n n' h
  unfold Lowering.element?
  rw [hR.kind_eq n n' h]
  split
  · next hn => exact hR.method? hin h hn
  · next hn =>
    rw [hn] at hcurrent
    cases hcurrent
  · next hn => rw [Option.map_some, Option.map_some, hR.typeElement hin h hn]
  · next hn =>
    rw [hn] at hcurrent
    cases hcurrent
  · next hn =>
    rw [hn] at hcurrent
    cases hcurrent
  · rfl

/-- **The lines of an interface** are alike, one by one. -/
theorem elements (h : R n n') (hn : n.kind = .interfaceType) :
    (l'.elements type' n').map (Element.sketch f) = (l.elements type n).map (Element.sketch f) :=
  (hR.namedChildren h (by rw [hn]; rfl)).map_filterMap (fun _ _ => hR.element? hin) fun c hc => by
    rw [Lowering.element?, hc.1]

/-! ### Types -/

/-- A pointer is made of the type behind its star if that is a name. -/
theorem pointer (h : R n n') (hn : n.kind = .pointerType) :
    (l'.typeWith type' n').sketch f = (l.typeWith type n).sketch f := by
  have htext := hR.text_eq n n' h
  have hkind := hR.kind_eq n n' h
  have hfirst := hR.first n n' h (by rw [hn]; rfl)
  unfold Lowering.typeWith
  rw [hkind, hn]
  dsimp only
  rcases hfirst with hrel | ⟨hnone, c, hc, hcomment, -⟩
  · generalize n.namedChildren.head? = m at hrel ⊢
    generalize n'.namedChildren.head? = m' at hrel ⊢
    cases hrel with
    | none => rw [TypeExpr.sketch, TypeExpr.sketch, htext]
    | @some m m' hrel =>
      dsimp only
      rw [hR.kind_eq m m' hrel]
      split
      · rw [TypeExpr.sketch, TypeExpr.sketch, hin m m' hrel]
      · rw [TypeExpr.sketch, TypeExpr.sketch, htext]
  · rw [hnone, hc]
    dsimp only
    rw [hcomment, if_neg (by decide), TypeExpr.sketch, TypeExpr.sketch, htext]

/-- A type in parentheses is the type inside. -/
theorem parenthesized (hremark : ∀ c : Node, c.kind = .comment → type' c = .verbatim (l'.text c))
    (h : R n n') (hn : n.kind = .parenthesizedType) :
    (l'.typeWith type' n').sketch f = (l.typeWith type n).sketch f := by
  have htext := hR.text_eq n n' h
  have hkind := hR.kind_eq n n' h
  have hfirst := hR.first n n' h (by rw [hn]; rfl)
  unfold Lowering.typeWith
  rw [hkind, hn]
  dsimp only
  rcases hfirst with hrel | ⟨hnone, c, hc, hcomment, hsame⟩
  · generalize n.namedChildren.head? = m at hrel ⊢
    generalize n'.namedChildren.head? = m' at hrel ⊢
    cases hrel with
    | none => rw [TypeExpr.sketch, TypeExpr.sketch, htext]
    | @some m m' hrel => exact hin m m' hrel
  · rw [hnone, hc]
    dsimp only
    rw [hremark c hcomment, TypeExpr.sketch, TypeExpr.sketch, hsame]

/-- Related nodes stand for the same type if the types inside them do. -/
theorem typeWith (hremark : ∀ c : Node, c.kind = .comment → type' c = .verbatim (l'.text c))
    (h : R n n') : (l'.typeWith type' n').sketch f = (l.typeWith type n).sketch f := by
  cases hn : n.kind with
  | qualifiedType => exact hR.qualified h hn
  | pointerType => exact hR.pointer hin h hn
  | parenthesizedType => exact hR.parenthesized hin hremark h hn
  | typeIdentifier =>
    have htoken := hR.token_eq n n' h (by rw [Node.isToken, hn]; rfl)
    simp only [Lowering.typeWith, hR.kind_eq n n' h, hn, htoken]
  | structType =>
    simp only [Lowering.typeWith, hR.kind_eq n n' h, hn, TypeExpr.sketch,
      FieldDecl.sketchList_eq_map, hR.fields hin h hn]
  | interfaceType =>
    simp only [Lowering.typeWith, hR.kind_eq n n' h, hn, TypeExpr.sketch,
      Element.sketchList_eq_map, hR.elements hin h hn]
  | _ =>
    have htext := hR.text_eq n n' h
    simp only [Lowering.typeWith, hR.kind_eq n n' h, hn, TypeExpr.sketch, htext]

end Parts

/-- A comment in place of a type is kept as its text. -/
theorem typeWithin_remark (l : Lowering) (depth : Nat) {c : Node} (hc : c.kind = .comment) :
    l.typeWithin depth c = .verbatim (l.text c) := by
  cases depth with
  | zero => rfl
  | succ depth => simp only [typeWithin, Lowering.typeWith, hc]

/-- The likeness goes down into the types, one level at a time. -/
theorem sketch_typeWithin (hR : IsLikeness l l' f R) (depth : Nat) (h : R n n') :
    (l'.typeWithin depth n').sketch f = (l.typeWithin depth n).sketch f := by
  induction depth generalizing n n' with
  | zero =>
    rw [Lowering.typeWithin, Lowering.typeWithin, TypeExpr.sketch, TypeExpr.sketch,
      hR.text_eq n n' h]
  | succ depth ih => exact hR.typeWith (fun _ _ => ih) (fun _ => typeWithin_remark l' depth) h

/-- **Nodes that are alike stand for the same type**, up to places and texts. -/
theorem sketch_type (hR : IsLikeness l l' f R) (h : R n n') :
    (l'.type n').sketch f = (l.type n).sketch f := by
  rw [← typeWithin_of_depth_le (Nat.le_max_left n.depth n'.depth),
    ← typeWithin_of_depth_le (Nat.le_max_right n.depth n'.depth)]
  exact hR.sketch_typeWithin _ h

end IsLikeness

end Lowering

end GoAtlas
