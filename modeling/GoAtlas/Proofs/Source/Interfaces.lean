import GoAtlas.Proofs.Source.Docs

/-!
# Interfaces of a tree

In a tree of a text without errors every interface, wherever it stands, is read line by line, in
order and with nothing dropped (`IsTree.elements`). A line that is nothing but the name of a type is
embedded, unless the language declares the name: such a line is kept as its text, as a union or any
other set of types is (`Lowering.IsElement`).

Every declaration of one type in such a tree is a declaration of the unit, with its name and its
type, and there are no others (`IsTree.declared`).
-/

namespace GoAtlas

open Phrase (IsAt parts placeAll charsOfList)

/-! ## Nodes of a tree -/

namespace Node

/-- A node stands below another one: it is a child of it, or below a child. -/
inductive IsBelow : Node → Node → Prop
  | child {n m} (h : m ∈ n.children) : IsBelow n m
  | deeper {n c m} (h : c ∈ n.children) (below : IsBelow c m) : IsBelow n m

/-- The lines of the body of an interface: its named children, apart from comments. -/
def lines (n : Node) : List Node :=
  n.namedChildren.filter (·.kind != .comment)

/-- The declarations of single types in a tree. -/
def specs (root : Node) : List Node :=
  (root.children.filter (·.kind == .typeDeclaration)).flatMap fun n =>
    n.children.filter (·.kind.isSpec)

theorem IsBelow.trans {a b c : Node} (h : IsBelow a b) (h' : IsBelow b c) : IsBelow a c := by
  induction h with
  | child h => exact .deeper h h'
  | deeper h _ ih => exact .deeper h (ih h')

end Node

/-! ## What the lines of an interface say -/

namespace Lowering

/-- A node is nothing but the name of a type: a plain one, one with its package, or one with type
arguments. -/
inductive NamesType (l : Lowering) : Node → TypeExpr → Prop
  | plain {n} (kind : n.kind = .typeIdentifier) : NamesType l n (typeOfName (l.text n))
  | qualified {n package name} (kind : n.kind = .qualifiedType)
      (inPackage : n.child? .package = some package) (named : n.child? .name = some name) :
      NamesType l n (.named (some (l.text package)) (l.text name))
  | instantiated {n} (kind : n.kind = .genericType) : NamesType l n (.verbatim (l.text n))

/-- What a line of an interface is read as. -/
inductive IsElement (l : Lowering) : Node → Element → Prop
  | method {n name} (kind : n.kind = .methodElem) (named : n.child? .name = some name) :
      IsElement l n (.method (l.text name) ((n.child? .parameters).elim [] (l.params l.type))
        (l.results l.type n) (l.position n))
  /-- A type name is embedded. -/
  | embedded {n term type} (kind : n.kind = .typeElem) (isLone : n.children = [term])
      (names : l.NamesType term type) (isDeclared : ∀ name, type ≠ .predeclared name) :
      IsElement l n (.embed type)
  /-- A name that the language declares is kept as it is. -/
  | predeclared {n term name} (kind : n.kind = .typeElem) (isLone : n.children = [term])
      (names : l.NamesType term (.predeclared name)) : IsElement l n (.constraint (l.text n))
  /-- A type in parentheses is embedded if it comes to a plain name or one with its package. -/
  | enclosed {n term} (kind : n.kind = .typeElem) (isLone : n.children = [term])
      (isEnclosed : term.kind = .parenthesizedType) :
      IsElement l n
        (match l.type term with
        | .named package name => .embed (.named package name)
        | _ => .constraint (l.text n))
  /-- Any other type, with a tilde in front or without, is kept as it is. -/
  | other {n term} (kind : n.kind = .typeElem) (isLone : n.children = [term])
      (notName : term.kind.isTypeName = false) (notEnclosed : term.kind ≠ .parenthesizedType) :
      IsElement l n (.constraint (l.text n))
  /-- A union is kept as it is. -/
  | union {n} (kind : n.kind = .typeElem) (bar : ∃ c ∈ n.children, c.kind = .symbol "|") :
      IsElement l n (.constraint (l.text n))

variable {l : Lowering} {n term : Node} {type : TypeExpr}

/-- A type name stands for the type that it names. -/
theorem NamesType.type_eq (h : l.NamesType n type) : l.type n = type := by
  rw [Lowering.type_eq, typeWith]
  cases h with
  | plain kind => rw [kind]
  | qualified kind inPackage named => rw [kind, inPackage, named]
  | instantiated kind => rw [kind]

/-- What is no name of a type, and stands in no parentheses, does not come to a name. -/
theorem type_ne_named (hname : n.kind.isTypeName = false) (hn : n.kind ≠ .parenthesizedType)
    (package : Option String) (name : String) : l.type n ≠ .named package name := by
  rw [Lowering.type_eq, typeWith]
  split
  · next hkind => exact absurd hname (by rw [hkind]; exact Bool.false_ne_true ∘ Eq.symm)
  · next hkind => exact absurd hname (by rw [hkind]; exact Bool.false_ne_true ∘ Eq.symm)
  · split
    · split <;> exact TypeExpr.noConfusion
    · exact TypeExpr.noConfusion
  · next hkind => exact absurd hkind hn
  · exact TypeExpr.noConfusion
  · exact TypeExpr.noConfusion
  · exact TypeExpr.noConfusion

/-- A line that is no name of a type is kept as it is. -/
theorem typeElement_of_ne_named (hchildren : n.namedChildren = [term])
    (hgeneric : term.kind ≠ .genericType) (hnamed : ∀ package name, l.type term ≠ .named package name) :
    l.typeElement l.type n = .constraint (l.text n) := by
  rw [typeElement, hchildren]
  dsimp only
  split
  · next heq => exact absurd heq (hnamed _ _)
  · rw [if_neg hgeneric]
  · rfl

/-- A line that is a name of a type is embedded, or kept as it is if the language declares the name.
-/
theorem isElement_of_namesType (hkind : n.kind = .typeElem) (hlone : n.children = [term])
    (hterm : term.isNamed = true) (hnames : l.NamesType term type) :
    l.IsElement n (l.typeElement l.type n) := by
  have hchildren : n.namedChildren = [term] := by
    rw [Node.namedChildren, hlone, List.filter_cons_of_pos hterm, List.filter_nil]
  rw [typeElement, hchildren]
  dsimp only
  rw [hnames.type_eq]
  cases hnames with
  | plain kind =>
    have hnames : l.NamesType term (typeOfName (l.text term)) := .plain kind
    rw [typeOfName] at hnames ⊢
    by_cases hpredeclared : Vocabulary.isPredeclared (l.text term) = true
    · rw [if_pos hpredeclared] at hnames ⊢
      exact .predeclared hkind hlone hnames
    · rw [if_neg hpredeclared] at hnames ⊢
      exact .embedded hkind hlone hnames fun _ => TypeExpr.noConfusion
  | qualified kind inPackage named =>
    exact .embedded hkind hlone (.qualified kind inPackage named) fun _ => TypeExpr.noConfusion
  | instantiated kind =>
    dsimp only
    rw [if_pos kind]
    exact .embedded hkind hlone (.instantiated kind) fun _ => TypeExpr.noConfusion

end Lowering

/-! ## Phrases of interfaces -/

namespace Phrase

variable {p q : Phrase} {source : String} {n : Node} {l : Lowering}

/-- A name of a type stands for a type name. -/
theorem Follows.exists_namesType (h : p.Follows) (hat : IsAt source p n)
    (hp : p.kind.isTypeName = true) (l : Lowering) : ∃ type, l.NamesType n type := by
  have hcases : p.kind = .typeIdentifier ∨ p.kind = .qualifiedType ∨ p.kind = .genericType := by
    cases hkind : p.kind <;> rw [hkind] at hp <;>
      first | exact Or.inl rfl | exact Or.inr (Or.inl rfl) | exact Or.inr (Or.inr rfl) | cases hp
  rcases hcases with hkind | hkind | hkind
  · exact ⟨_, .plain (hat.kind_eq.trans hkind)⟩
  · obtain ⟨package, dot, name, hparts, hpackage, hdot, hname⟩ := h.qualifiedType hkind
    have hinPackage : p.child? .package = some package := by
      rw [h.child?_eq, hparts, List.find?_cons_of_pos (by simp [hpackage])]
    have hnamed : p.child? .name = some name := by
      rw [h.child?_eq, hparts, List.find?_cons_of_neg (by simp [hpackage]),
        List.find?_cons_of_neg (by simp [hdot]), List.find?_cons_of_pos (by simp [hname])]
    obtain ⟨m, hm⟩ := hat.exists_child? hinPackage
    obtain ⟨m', hm'⟩ := hat.exists_child? hnamed
    exact ⟨_, .qualified (hat.kind_eq.trans hkind) hm.1 hm'.1⟩
  · exact ⟨_, .instantiated (hat.kind_eq.trans hkind)⟩

/-- What stands on one side of a pairing is paired with something on the other. -/
theorem exists_mem_of_forall₂ {α β : Type} {r : α → β → Prop} {xs : List α} {ys : List β}
    (h : List.Forall₂ r xs ys) {x : α} (hx : x ∈ xs) : ∃ y ∈ ys, r x y := by
  induction h with
  | nil => cases hx
  | cons hxy _ ih =>
    rcases List.mem_cons.mp hx with rfl | hx
    · exact ⟨_, List.mem_cons_self, hxy⟩
    · obtain ⟨y, hy, hxy⟩ := ih hx
      exact ⟨y, List.mem_cons_of_mem _ hy, hxy⟩

/-- A child is a part at its place. -/
theorem IsAt.exists_of_mem {m : Node} (hat : IsAt source p n) (hm : m ∈ n.children) :
    ∃ q ∈ p.children, IsAt source q m :=
  exists_mem_of_forall₂ hat.children.flip hm

/-- A line that is one type is read as what the type says. -/
theorem isElement_of_lone {term : Node} (h : q.Follows) (hq : q.kind.isType = true)
    (hkind : n.kind = .typeElem) (hlone : n.children = [term]) (hterm : IsAt source q term) :
    l.IsElement n (l.typeElement l.type n) := by
  have hnamed : term.isNamed = true := by
    rw [Node.isNamed, hterm.kind_eq]
    exact isNamed_of_isType hq
  have hchildren : n.namedChildren = [term] := by
    rw [Node.namedChildren, hlone, List.filter_cons_of_pos hnamed, List.filter_nil]
  by_cases hname : q.kind.isTypeName = true
  · obtain ⟨type, hnames⟩ := h.exists_namesType hterm hname l
    exact Lowering.isElement_of_namesType hkind hlone hnamed hnames
  have hnotName : term.kind.isTypeName = false := by
    rw [hterm.kind_eq]
    exact Bool.eq_false_iff.mpr hname
  have hgeneric : term.kind ≠ .genericType := by
    intro heq
    rw [heq] at hnotName
    cases hnotName
  by_cases henclosed : term.kind = .parenthesizedType
  · have hread : l.typeElement l.type n =
        match l.type term with
        | .named package name => .embed (.named package name)
        | _ => .constraint (l.text n) := by
      rw [Lowering.typeElement, hchildren]
      dsimp only
      cases l.type term <;> first | rfl | exact if_neg hgeneric
    rw [hread]
    exact .enclosed hkind hlone henclosed
  · rw [Lowering.typeElement_of_ne_named hchildren hgeneric
      (Lowering.type_ne_named hnotName henclosed)]
    exact .other hkind hlone hnotName henclosed

/-- **A line of an interface** is read as what it says. -/
theorem Follows.exists_isElement (h : p.Follows) (hat : IsAt source p n)
    (hp : p.kind = .methodElem ∨ p.kind = .typeElem) (l : Lowering) :
    ∃ e, l.element? l.type n = some e ∧ l.IsElement n e := by
  rcases hp with hp | hp
  · have hkind := hat.kind_eq.trans hp
    obtain ⟨name, params, results, hparts, hname, -⟩ := h.methodElem hp
    have hnamed : p.child? .name = some name := by
      rw [h.child?_eq, hparts, List.find?_cons_of_pos (by simp [hname])]
    obtain ⟨m, hm, -⟩ := hat.exists_child? hnamed
    refine ⟨_, ?_, .method hkind hm⟩
    rw [Lowering.element?, hkind]
    dsimp only
    rw [Lowering.method?, hm, Option.map_some]
  · have hkind := hat.kind_eq.trans hp
    have helement : l.element? l.type n = some (l.typeElement l.type n) := by
      rw [Lowering.element?, hkind]
    refine ⟨_, helement, ?_⟩
    obtain ⟨first, more, hparts, hfirst, hmore⟩ := h.typeElem hp
    cases more with
    | nil =>
      have hone := h.children_eq_singleton hparts
      have hchildren := hat.children
      rw [hone] at hchildren
      generalize hterms : n.children = terms at hchildren
      cases hchildren with
      | cons hterm hrest =>
      cases hrest with
      | nil =>
        have hfollows := h.of_mem_children (hone ▸ List.mem_cons_self : first ∈ p.children)
        exact isElement_of_lone hfollows hfirst hkind hterms hterm
    | cons piece more =>
      rw [List.forall_mem_cons] at hmore
      obtain ⟨⟨bar, term, rfl, hbar, hterm⟩, -⟩ := hmore
      have hmem : ∀ q ∈ [first, bar, term], q ∈ parts p.children := by
        intro q hq
        rw [hparts, List.flatten_cons, ← List.cons_append]
        exact List.mem_append_left _ hq
      obtain ⟨m, hm, hat'⟩ :=
        exists_mem_of_forall₂ hat.children (mem_parts_iff.mp (hmem bar (by simp))).1
      have hlength : 2 ≤ n.namedChildren.length := by
        have hnamed : (parts p.children).filter (·.kind.isNamed) =
            first :: term :: (more.flatten.filter (·.kind.isNamed)) := by
          have hmark : bar.kind.isNamed = false := by
            rw [hbar]
            rfl
          simp [hparts, isNamed_of_isType hfirst, isNamed_of_isType hterm, hmark]
        have hsub := ((@List.filter_sublist _ (!·.isComment) p.children).filter
          (·.kind.isNamed)).length_le
        rw [← hat.namedChildren.length_eq, namedChildren]
        rw [← parts, hnamed] at hsub
        exact Nat.le_trans (by simp) hsub
      rw [Lowering.typeElement_of_many (by omega)]
      exact .union hkind ⟨m, hm, hat'.kind_eq.trans hbar⟩

/-- **The body of an interface** is read line by line. -/
theorem Follows.elements (h : p.Follows) (hat : IsAt source p n) (hp : p.kind = .interfaceType)
    (l : Lowering) :
    ∃ es, l.type n = .interface es ∧ List.Forall₂ l.IsElement n.lines es := by
  refine ⟨l.elements l.type n, ?_, ?_⟩
  · rw [Lowering.type_eq, Lowering.typeWith, hat.kind_eq, hp]
  · refine forall₂_filterMap (fun m hm hline => ?_) fun m _ hremark => ?_
    · obtain ⟨hm, hnamed⟩ := List.mem_filter.mp hm
      obtain ⟨q, hq, hat'⟩ := hat.exists_of_mem hm
      rw [Node.isNamed, hat'.kind_eq] at hnamed
      have hcomment : q.kind ≠ .comment := by
        rw [hat'.kind_eq] at hline
        simpa using hline
      exact (h.of_mem_children hq).exists_isElement hat'
        (h.interfaceType hp hq hnamed hcomment) l
    · have hkind : m.kind = .comment := by simpa using hremark
      rw [Lowering.element?, hkind]

end Phrase

open Phrase

/-! ## Declarations -/

namespace Lowering

variable {l : Lowering} {p : Phrase}

/-- The members of a group are its declarations, one by one. -/
theorem forall₂_member? (elders ns : List Node) :
    List.Forall₂ (fun n spec => ∃ doc, spec = l.spec doc n) (ns.filter (·.kind.isSpec))
      ((Node.withElders elders ns).filterMap l.member?) := by
  induction ns generalizing elders with
  | nil => exact .nil
  | cons n ns ih =>
    rw [Node.withElders]
    cases hspec : n.kind.isSpec with
    | true =>
      have hmember : l.member? (elders, n) = some (l.spec (l.doc? elders n) n) := if_pos hspec
      rw [List.filter_cons, if_pos hspec, List.filterMap_cons_some hmember]
      exact .cons ⟨_, rfl⟩ (ih _)
    | false =>
      have hno : ¬ n.kind.isSpec = true := by
        rw [hspec]
        exact Bool.false_ne_true
      have hmember : l.member? (elders, n) = none := if_neg hno
      rw [List.filter_cons, if_neg hno, List.filterMap_cons_none hmember]
      exact ih _

/-- A type declaration is an item that declares what its children do, one by one. -/
theorem exists_item (h : p.Follows) (hp : p.kind = .typeDeclaration) (before : List Node) (s : Place) :
    ∃ item, l.item? before (p.place s) = some item ∧
      List.Forall₂ (fun n spec => ∃ doc, spec = l.spec doc n)
        ((p.place s).children.filter (·.kind.isSpec)) item.specs := by
  have hkind : (p.place s).kind = .typeDeclaration := (kind_place s p).trans hp
  obtain ⟨word, hword, ⟨spec, hparts, hspec⟩ | ⟨opening, pieces, closing, hparts, hopening, -⟩⟩ :=
    h.typeDeclaration hp
  · obtain ⟨hlone, m, honly⟩ := lone_children hparts hword hspec s
    refine ⟨_, item?_lone hkind hlone honly before, ?_⟩
    rw [honly]
    exact .cons ⟨_, rfl⟩ .nil
  · have hany : (p.place s).children.any (·.kind == .symbol "(") = true := by
      obtain ⟨front, back, hchildren, -⟩ :=
        @exists_of_parts_eq opening p.children [word] (pieces.flatten ++ [closing]) hparts
      rw [children_place, hchildren, placeAll_append, placeAll]
      simp [hopening]
    exact ⟨_, item?_group hkind hany before, forall₂_member? [] _⟩

/-- Nodes declare what their type declarations do, one by one. -/
theorem forall₂_specs {source unit : String} {ps : List Phrase} {s : Place}
    (hfollow : ∀ q ∈ ps, q.Follows) (hholds : HoldsAt source s (charsOfList ps))
    (before : List Node) :
    List.Forall₂ (Declares { source, unit })
      (((placeAll s ps).filter (·.kind == .typeDeclaration)).flatMap fun n =>
        n.children.filter (·.kind.isSpec))
      ((({ source, unit } : Lowering).itemsBehind before (placeAll s ps)).flatMap Item.specs) := by
  induction ps generalizing s before with
  | nil => exact .nil
  | cons p ps ih =>
    rw [List.forall_mem_cons] at hfollow
    rw [charsOfList] at hholds
    rw [placeAll, itemsBehind_cons, List.flatMap_append]
    have hrest := ih hfollow.2 hholds.right (p.place s :: before)
    by_cases hp : p.kind = .typeDeclaration
    · obtain ⟨item, hitem, hspecs⟩ :=
        @exists_item { source, unit } p hfollow.1 hp before s
      rw [List.filter_cons_of_pos (by simpa using hp), List.flatMap_cons, hitem]
      refine List.rel_append ?_ hrest
      rw [Option.toList_some, List.flatMap_singleton]
      have hat : IsAt source p (p.place s) := ⟨s, rfl, hholds.left⟩
      refine ((List.forall₂_and_left _ _).mpr ⟨fun n hn => hn, hspecs⟩).imp fun n spec hboth => ?_
      obtain ⟨hn, hdoc⟩ := hboth
      obtain ⟨hn, hspec⟩ := List.mem_filter.mp hn
      obtain ⟨doc, rfl⟩ := hdoc
      obtain ⟨q, hq, hqat⟩ := hat.exists_of_mem hn
      exact (hfollow.1.of_mem_children hq).declares (hqat.kind_eq ▸ hspec) hqat unit doc
    · rw [List.filter_cons_of_neg (by simpa using hp), item?_eq_none (by
        rw [kind_place]; exact ⟨hp, hfollow.1.kind_ne_error⟩)]
      exact hrest

end Lowering

/-! ## Trees -/

namespace IsTree

variable {source : String} {root n : Node}

/-- Below the root every node is a phrase that follows the grammar. -/
theorem exists_phrase (h : IsTree source root) (hn : Node.IsBelow root n) :
    ∃ p, p.Follows ∧ IsAt source p n := by
  have hbelow : ∀ {m n : Node} {p : Phrase}, p.Follows → IsAt source p m → Node.IsBelow m n →
      ∃ q, q.Follows ∧ IsAt source q n := by
    intro m n p hp hat hn
    induction hn generalizing p with
    | child hmem =>
      obtain ⟨q, hq, hat'⟩ := hat.exists_of_mem hmem
      exact ⟨q, hp.of_mem_children hq, hat'⟩
    | deeper hmem _ ih =>
      obtain ⟨q, hq, hat'⟩ := hat.exists_of_mem hmem
      exact ih (hp.of_mem_children hq) hat'
  obtain ⟨ps, tail, hfile, hchildren, hsource, -⟩ := h.exists_phrases
  have hfollow := (followAll_iff ps).mp hfile.follow
  have hall := forall₂_placeAll (⟨[], tail, hsource, rfl⟩ : HoldsAt source .start (charsOfList ps))
  rw [← hchildren] at hall
  cases hn with
  | child hmem =>
    obtain ⟨q, hq, hat⟩ := exists_mem_of_forall₂ hall.flip hmem
    exact ⟨q, hfollow q hq, hat⟩
  | deeper hmem hbelow' =>
    obtain ⟨q, hq, hat⟩ := exists_mem_of_forall₂ hall.flip hmem
    exact hbelow (hfollow q hq) hat hbelow'

/-- **Every interface of a tree** is read line by line, with nothing dropped. -/
theorem elements (h : IsTree source root) (hn : Node.IsBelow root n) (hkind : n.kind = .interfaceType)
    (unit : String) :
    ∃ es, ({ source, unit } : Lowering).type n = .interface es ∧
      List.Forall₂ (Lowering.IsElement { source, unit }) n.lines es := by
  obtain ⟨p, hp, hat⟩ := h.exists_phrase hn
  exact hp.elements hat (hat.kind_eq.symm.trans hkind) _

/-- **The declarations of a tree** are those of the unit, one by one. -/
theorem declared (h : IsTree source root) (name : String) :
    List.Forall₂ (Lowering.Declares { source, unit := name }) root.specs
      (SourceUnit.ofTree name source root).specs := by
  obtain ⟨ps, tail, hfile, hchildren, hsource, -⟩ := h.exists_phrases
  have hfollow := (followAll_iff ps).mp hfile.follow
  have hholds : HoldsAt source .start (charsOfList ps) := ⟨[], tail, hsource, rfl⟩
  have hspecs := @Lowering.forall₂_specs source name ps .start hfollow hholds []
  rwa [← hchildren] at hspecs

end IsTree

end GoAtlas
