import GoAtlas.Proofs.Extraction.Fates
import GoAtlas.Proofs.Source.Interfaces
import GoAtlas.Proofs.View.Methods

/-!
# What a method set lists as embedded

An interface of the graph goes back to an interface in the source, and what its method set lists as
embedded are the types that the lines of its body embed, in order (`Extraction.methodSet_embedded`).
A line that is nothing but a type name is among them unless the language declares the name: such a
line is kept as a set of types, so that an interface which embeds `error` does not list it
(`Extraction.methodSet_embedded_error`).
-/

namespace GoAtlas

/-! ## Declared interfaces -/

/-- A declaration is an interface if its type is one. -/
theorem TypeSpec.type_of_shape {config : Config} {spec : TypeSpec} {methods : List Signature}
    {embeds : List Reference} {constraints : List String}
    (h : (spec.toDeclaration config).shape = .interface methods embeds constraints) :
    ∃ elements, spec.type = some (.interface elements) ∧
      embeds = elements.filterMap Element.embed? ∧
      constraints = elements.filterMap Element.constraint? := by
  rw [toDeclaration] at h
  dsimp only at h
  rcases htype : spec.type with _ | type
  · rw [htype] at h
    cases h
  · rw [htype, Option.getD_some] at h
    cases type with
    | interface elements =>
      cases h
      exact ⟨elements, rfl, rfl, rfl⟩
    | _ => cases h

namespace Lowering

variable {l : Lowering} {n line term : Node} {e : Element} {type : TypeExpr} {elements : List Element}

/-- A type that comes to an interface is one, or has one in its parentheses. -/
theorem exists_interfaceType (h : l.type n = .interface elements) :
    ∃ m, (m = n ∨ Node.IsBelow n m) ∧ m.kind = .interfaceType ∧ l.type m = .interface elements := by
  induction hdepth : n.depth using Nat.strongRecOn generalizing n with
  | _ depth ih =>
    subst hdepth
    have hread := h
    rw [Lowering.type_eq, typeWith] at hread
    split at hread
    · rw [typeOfName] at hread
      split at hread <;> cases hread
    · split at hread <;> cases hread
    · split at hread
      · split at hread <;> cases hread
      · cases hread
    · split at hread
      · next inner hinner =>
        have hmem := (List.mem_filter.mp (List.mem_of_mem_head? hinner)).1
        obtain ⟨m, hm, hkind, hmtype⟩ := ih _ (Node.depth_lt_of_mem hmem) hread rfl
        refine ⟨m, Or.inr ?_, hkind, hmtype⟩
        rcases hm with rfl | hm
        · exact .child hmem
        · exact .deeper hmem hm
      · cases hread
    · cases hread
    · next hkind => exact ⟨n, Or.inl rfl, hkind, h⟩
    · cases hread

/-- A line that is a type name is embedded, or kept as a set of types if the language declares the
name. -/
theorem IsElement.name_cases (h : l.IsElement line e) (hkind : line.kind = .typeElem)
    (hlone : line.children = [term]) (hnames : l.NamesType term type) :
    ((∃ name, type = .predeclared name) ∧ e.constraint? = some (l.text line)) ∨
      e.embed? = some (.ofEmbedded type) := by
  have hterm : ∀ {m : Node}, line.children = [m] → m = term := fun hm =>
    List.singleton_inj.mp (hm.symm.trans hlone)
  have hname : term.kind = .typeIdentifier ∨ term.kind = .qualifiedType ∨ term.kind = .genericType := by
    cases hnames with
    | plain kind => exact Or.inl kind
    | qualified kind => exact Or.inr (Or.inl kind)
    | instantiated kind => exact Or.inr (Or.inr kind)
  have htype := hnames.type_eq
  cases h with
  | method kind => rw [hkind] at kind; cases kind
  | embedded _ isLone names =>
    obtain rfl := hterm isLone
    rw [names.type_eq] at htype
    exact Or.inr (htype ▸ rfl)
  | predeclared _ isLone names =>
    obtain rfl := hterm isLone
    rw [names.type_eq] at htype
    exact Or.inl ⟨⟨_, htype.symm⟩, rfl⟩
  | enclosed _ isLone isEnclosed =>
    obtain rfl := hterm isLone
    rw [isEnclosed] at hname
    rcases hname with heq | heq | heq <;> cases heq
  | other _ isLone notName =>
    obtain rfl := hterm isLone
    rcases hname with heq | heq | heq <;> rw [heq] at notName <;> cases notName
  | union _ bar =>
    obtain ⟨c, hc, hbar⟩ := bar
    rw [hlone, List.mem_singleton] at hc
    obtain rfl := hc
    rw [hbar] at hname
    rcases hname with heq | heq | heq <;> cases heq

end Lowering

/-- What a tree says of its interfaces is read completely: every interface line by line, and every
declaration of one type. -/
structure Lowering.ReadsInterfaces (l : Lowering) (root : Node) (specs : List TypeSpec) : Prop where
  elements : ∀ n, root.IsBelow n → n.kind = .interfaceType →
    ∃ es, l.type n = .interface es ∧ List.Forall₂ l.IsElement n.lines es
  declared : List.Forall₂ l.Declares root.specs specs

/-- A declared interface goes back to an interface among the types that a tree declares, which has
these elements. -/
structure Lowering.IsDeclaredAt (l : Lowering) (root n : Node) (elements : List Element)
    (position : Position) : Prop where
  isInterface : n.kind = .interfaceType
  declares : ∃ m ∈ root.specs, ∃ t, m.child? .type = some t ∧ (n = t ∨ t.IsBelow n) ∧
    l.position m = position ∧ l.type t = l.type n
  elements : l.type n = .interface elements ∧ List.Forall₂ l.IsElement n.lines elements

/-- A method set lists what the lines of an interface embed, in order: of the lines that are a type
name all but those whose name the language declares, which are sets of types instead. -/
structure Lowering.ListsEmbeds (l : Lowering) (n : Node) (elements : List Element)
    (constraints : List String) (view : MethodSet) : Prop where
  embedded : view.embedded.map EmbeddedInterface.reference = elements.filterMap Element.embed?
  names : ∀ line ∈ n.lines, ∀ term type, line.kind = .typeElem → line.children = [term] →
    l.NamesType term type →
      ((∃ name, type = .predeclared name) ∧ l.text line ∈ constraints) ∨
        .ofEmbedded type ∈ view.embedded.map EmbeddedInterface.reference

namespace Lowering

variable {l : Lowering} {n : Node} {elements : List Element}

/-- An interface that is declared goes back to a node below the root, which is read line by line. -/
theorem exists_isDeclaredAt {source name : String} {root : Node} (h : IsTree source root)
    {spec : TypeSpec} (hspec : spec ∈ (SourceUnit.ofTree name source root).specs)
    (htype : spec.type = some (.interface elements)) :
    ∃ n, IsDeclaredAt { source, unit := name } root n elements spec.position := by
  obtain ⟨m, hm, -, ⟨t, ht, hread⟩, hplaced⟩ :=
    Phrase.exists_mem_of_forall₂ (h.declared name).flip hspec
  have htread := Option.some_inj.mp (hread.symm.trans htype)
  obtain ⟨n, hn, hkind, hnread⟩ := exists_interfaceType htread
  have hmbelow : root.IsBelow m := by
    obtain ⟨c, hc, hm⟩ := List.mem_flatMap.mp hm
    exact .deeper (List.mem_of_mem_filter hc) (.child (List.mem_of_mem_filter hm))
  have htbelow : root.IsBelow t := hmbelow.trans (.child (List.mem_of_find?_eq_some ht))
  have hbelow : root.IsBelow n := by
    rcases hn with rfl | hn
    · exact htbelow
    · exact htbelow.trans hn
  obtain ⟨others, hothers, hlines⟩ := h.elements hbelow hkind name
  obtain rfl : elements = others := TypeExpr.interface.inj (hnread.symm.trans hothers)
  exact ⟨n, hkind, ⟨m, hm, t, ht, hn, hplaced.symm, htread.trans hnread.symm⟩, hnread, hlines⟩

/-- A method set that is made from the lines of an interface lists what the lines embed. -/
theorem listsEmbeds (hlines : List.Forall₂ l.IsElement n.lines elements) {view : MethodSet}
    (hview : view.embedded.map EmbeddedInterface.reference = elements.filterMap Element.embed?) :
    l.ListsEmbeds n elements (elements.filterMap Element.constraint?) view := by
  refine ⟨hview, fun line hline term type hkind hlone hnames => ?_⟩
  obtain ⟨e, he, helement⟩ := Phrase.exists_mem_of_forall₂ hlines hline
  rw [hview]
  rcases helement.name_cases hkind hlone hnames with ⟨hpredeclared, hconstraint⟩ | hembed
  · exact Or.inl ⟨hpredeclared, List.mem_filterMap.mpr ⟨e, he, hconstraint⟩⟩
  · exact Or.inr (List.mem_filterMap.mpr ⟨e, he, hembed⟩)

end Lowering

namespace Extraction

open Phrase (exists_mem_of_forall₂)
open SourceUnit (ofTexts)

variable {parse : String → Node} {texts : List (String × String)}

/-- A declaration with a name and a type is used. -/
theorem not_isMalformed_of_declares {l : Lowering} {m : Node} {spec : TypeSpec}
    (h : l.Declares m spec) :
    ¬ spec.IsMalformed ∧ ∀ n, m.child? .name = some n → spec.trimmedName = l.text n := by
  obtain ⟨⟨n, hn, hname, hword⟩, ⟨t, -, htype⟩, -⟩ := h
  have htrimmed : spec.trimmedName = l.text n := by
    rw [TypeSpec.trimmedName, hname, Option.map_some, Option.getD_some,
      Text.trim_of_isWordText hword]
  refine ⟨?_, fun n' hn' => ?_⟩
  · rintro (hempty | hnone | hmissing)
    · rw [htrimmed] at hempty
      rw [hempty] at hword
      exact absurd hword (by decide)
    · rw [htype] at hnone
      cases hnone
    · rw [htype] at hmissing
      exact l.type_ne_missing t (Option.some_inj.mp hmissing)
  · rw [htrimmed, Option.some_inj.mp (hn.symm.trans hn')]

/-- The declarations of a graph are the first of each name among those of its units that can be
used. -/
theorem declarations_ofUnits (s : Settings) (units : List SourceUnit) :
    (ofUnits s units).graph.declarations = firsts Declaration.name []
      (((units.flatMap SourceUnit.specs).filter fun x => ¬ x.IsMalformed).map
        (TypeSpec.toDeclaration s.toConfig)) := by
  rw [← declared_eq]
  exact (sumsUp_joinUnits s.toConfig units).declarations

/-- A declaration that can be used gives its name to the graph, if it is not the first of the name
then by that one. -/
theorem exists_declaration (s : Settings) {units : List SourceUnit} {spec : TypeSpec}
    (hspec : spec ∈ units.flatMap SourceUnit.specs) (hused : ¬ spec.IsMalformed) :
    ∃ d ∈ (ofUnits s units).graph.declarations, d.name = spec.trimmedName := by
  rw [declarations_ofUnits]
  have hmem : spec ∈ (units.flatMap SourceUnit.specs).filter fun x => ¬ x.IsMalformed :=
    List.mem_filter.mpr ⟨hspec, by simpa using hused⟩
  exact List.mem_map.mp (mem_map_firsts_iff.mpr
    ⟨List.not_mem_nil, List.mem_map.mpr ⟨_, List.mem_map_of_mem hmem, rfl⟩⟩)

/-- A declaration of the graph is one of the source. -/
theorem exists_spec_of_mem_declarations {s : Settings} {units : List SourceUnit} {d : Declaration}
    (hd : d ∈ (ofUnits s units).graph.declarations) :
    ∃ u ∈ units, ∃ spec ∈ u.specs, spec.toDeclaration s.toConfig = d := by
  rw [declarations_ofUnits] at hd
  obtain ⟨spec, hspec, hd⟩ := List.mem_map.mp (firsts_sublist.subset hd)
  obtain ⟨u, hu, hspec⟩ := List.mem_flatMap.mp (List.mem_of_mem_filter hspec)
  exact ⟨u, hu, spec, hspec, hd⟩

/-- **What a method set lists as embedded.** Texts are read as trees without errors. Then every
interface of a text is read line by line, in order and with nothing dropped; a line that is a type
name is embedded unless the language declares the name, and a union or another type is kept as its
text. Every declaration of a type is read, and its name is declared in the graph. A declared
interface of the graph goes back to an interface in one of the texts, and its method set lists what
the lines of that interface embed. -/
theorem methodSet_embedded (h : ∀ file ∈ texts, IsTree file.2 (parse file.2)) (s : Settings) :
    (∀ file ∈ texts,
      Lowering.ReadsInterfaces { source := file.2, unit := file.1 } (parse file.2)
        (SourceUnit.ofTree file.1 file.2 (parse file.2)).specs ∧
      ∀ m ∈ (parse file.2).specs, ∀ n, m.child? .name = some n →
        ∃ d ∈ (ofUnits s (ofTexts parse texts)).graph.declarations,
          d.name = ({ source := file.2, unit := file.1 } : Lowering).text n) ∧
    ∀ d ∈ (ofUnits s (ofTexts parse texts)).graph.declarations,
      ∀ methods embeds constraints, d.shape = .interface methods embeds constraints →
      ∃ file ∈ texts, ∃ n elements,
        Lowering.IsDeclaredAt { source := file.2, unit := file.1 } (parse file.2) n elements
          d.position ∧
        ∀ expand, ∃ view,
          (ofUnits s (ofTexts parse texts)).graph.methodSet expand d.name = .ok view ∧
          Lowering.ListsEmbeds { source := file.2, unit := file.1 } n elements constraints view := by
  have hdeclared : ∀ file ∈ texts,
      List.Forall₂ (Lowering.Declares { source := file.2, unit := file.1 }) (parse file.2).specs
        (SourceUnit.ofTree file.1 file.2 (parse file.2)).specs :=
    fun file hfile => (h file hfile).declared file.1
  refine ⟨fun file hfile => ⟨⟨fun n hn hkind => (h file hfile).elements hn hkind file.1,
    hdeclared file hfile⟩, fun m hm n hn => ?_⟩, ?_⟩
  · obtain ⟨spec, hspec, hdeclares⟩ := exists_mem_of_forall₂ (hdeclared file hfile) hm
    obtain ⟨hused, hname⟩ := not_isMalformed_of_declares hdeclares
    rw [← hname n hn]
    exact exists_declaration s (List.mem_flatMap.mpr ⟨_, List.mem_map_of_mem hfile, hspec⟩) hused
  · intro d hd methods embeds constraints hshape
    obtain ⟨u, hu, spec, hspec, rfl⟩ := exists_spec_of_mem_declarations hd
    obtain ⟨file, hfile, rfl⟩ := List.mem_map.mp hu
    obtain ⟨elements, htype, rfl, rfl⟩ := TypeSpec.type_of_shape hshape
    obtain ⟨n, hat⟩ := Lowering.exists_isDeclaredAt (h file hfile) hspec htype
    refine ⟨file, hfile, n, elements, hat, fun expand =>
      ⟨_, TypeGraph.methodSet_eq (TypeGraph.find?_of_mem hd) hshape, ?_⟩⟩
    refine Lowering.listsEmbeds hat.elements.2 ?_
    rw [List.map_map]
    exact List.map_id _

/-- An interface that embeds `error`, an interface of another package and an instance, and has a
union and a method besides. -/
def medley : String × String :=
  ("t.go", "package p\n\ntype I interface \x7b\n\terror\n\tfmt.Stringer; List[int] // both\n\t" ++
    "~int | string\n\tTemporary() bool\n\x7d\n")

theorem methodSet_embedded_medley : ∃ n elements constraints view,
    Lowering.IsDeclaredAt { source := medley.2, unit := medley.1 } (SourceText.tree medley.2) n
      elements ⟨"t.go", 3, 6⟩ ∧
    (ofUnits default (ofTexts SourceText.tree [medley])).graph.methodSet true "I" = .ok view ∧
    Lowering.ListsEmbeds { source := medley.2, unit := medley.1 } n elements constraints view ∧
    view.embedded.map EmbeddedInterface.reference =
      [.named (some "fmt") "Stringer" false, .named none "List" false] := by
  have htree : ∀ file ∈ [medley], IsTree file.2 (SourceText.tree file.2) :=
    List.forall_mem_singleton.mpr (SourceText.isTree_of_certifies (by decide +kernel))
  obtain ⟨-, hdeclared⟩ := methodSet_embedded htree default
  have hview : ((ofUnits default (ofTexts SourceText.tree [medley])).graph.methodSet true "I").map
      (fun view => view.embedded.map EmbeddedInterface.reference) =
      .ok [.named (some "fmt") "Stringer" false, .named none "List" false] := by decide +kernel
  have hposition : ∀ d ∈ (ofUnits default (ofTexts SourceText.tree [medley])).graph.declarations,
      d.position = ⟨"t.go", 3, 6⟩ := by decide +kernel
  rcases hset : (ofUnits default (ofTexts SourceText.tree [medley])).graph.methodSet true "I" with
    _ | view
  · rw [hset] at hview
    cases hview
  · obtain ⟨d, methods, embeds, constraints, hfind, hshape, -⟩ :=
      TypeGraph.methodSet_eq_ok_iff.mp hset
    obtain ⟨hd, hname⟩ := TypeGraph.find?_eq_some_iff.mp hfind
    obtain ⟨file, hfile, n, elements, hat, hviews⟩ := hdeclared d hd methods embeds constraints hshape
    obtain rfl := List.mem_singleton.mp hfile
    obtain ⟨other, hother, hlists⟩ := hviews true
    rw [hname, hset] at hother
    obtain rfl := Except.ok.inj hother
    rw [hset] at hview
    exact ⟨n, elements, constraints, view, hposition d hd ▸ hat, rfl, hlists, Except.ok.inj hview⟩

/-- **An interface that embeds `error`** keeps the line as a set of types, and its method set lists
nothing as embedded. -/
theorem methodSet_embedded_error :
    let text := "package p\n\ntype I interface \x7b\n\terror\n\tTemporary() bool\n\x7d\n"
    (SourceUnit.ofText "t.go" text).specs.map TypeSpec.type =
      [some (.interface [.constraint "error",
        .method "Temporary" [] [⟨[], .predeclared "bool", false⟩] ⟨"t.go", 5, 2⟩])] ∧
    ((ofUnits default [SourceUnit.ofText "t.go" text]).graph.methodSet true "I").map
      MethodSet.embedded = .ok [] := by
  decide +kernel

end Extraction

end GoAtlas
