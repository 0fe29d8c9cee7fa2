import GoAtlas.Proofs.Source.PhraseLikeness
import GoAtlas.Proofs.Text.Blank

/-!
# What a phrase stands for

A phrase can be read where it is all there is of a text. What it stands for there is what it stands
for in every other text and behind any blanks, up to places: this holds of the types
(`Phrase.SameButGap.sketch_type`) and of the declarations of single types
(`Phrase.SameButGap.unplaced_spec`). Statements about a text that holds a phrase can therefore be
made in terms of the phrase.

The items of a tree are those of its children in order, where the children that are neither type
declarations nor errors give none (`Lowering.itemsBehind_append`, `Lowering.itemsBehind_eq_nil`).
-/

namespace GoAtlas

/-! ## Declarations of one type -/

namespace Lowering.IsLikeness

variable {l l' : Lowering} {R : Node → Node → Prop} {n n' : Node}

theorem isOpened_of_isSpec {kind : NodeKind} (h : kind.isSpec = true) : kind.isOpened = true := by
  cases kind <;> first | rfl | cases h

/-- **Declarations that are alike declare the same type** under the same name, with the same type
parameters, up to places. Both are given the same doc here, since the doc of a declaration stands
outside of it. -/
theorem unplaced_spec (hR : IsLikeness l l' id R) (h : R n n') (hn : n.kind.isSpec = true)
    (doc : Option String) : (l'.spec doc n').unplaced = (l.spec doc n).unplaced := by
  have hopened := isOpened_of_isSpec hn
  have hname : ((n'.child? .name).filter (!·.isMissing)).map l'.text =
      ((n.child? .name).filter (!·.isMissing)).map l.text := by
    have hrel := hR.child? h hopened .name
    have hlists := hR.text? h hopened .name rfl
    generalize n.child? .name = m at hrel hlists
    generalize n'.child? .name = m' at hrel hlists
    cases hrel with
    | none => rfl
    | some hm =>
      rw [Option.map_some, Option.map_some, Option.some_inj] at hlists
      simp only [Option.filter_some, hR.isMissing_eq _ _ hm]
      split
      · rw [Option.map_some, Option.map_some, hlists]
      · rfl
  have hparams : (n'.child? .typeParameters).map l'.text = (n.child? .typeParameters).map l.text :=
    map_eq_of_rel (hR.child? h hopened .typeParameters) hR.text_eq
  have htype : (((n'.child? .type).filter fun t => !t.isMissing && t.kind != .error).map
        l'.type).map TypeExpr.unplaced =
      (((n.child? .type).filter fun t => !t.isMissing && t.kind != .error).map
        l.type).map TypeExpr.unplaced := by
    have hrel := hR.child? h hopened .type
    generalize n.child? .type = m at hrel
    generalize n'.child? .type = m' at hrel
    cases hrel with
    | none => rfl
    | some hm =>
      simp only [Option.filter_some, hR.isMissing_eq _ _ hm, hR.kind_eq _ _ hm]
      split
      · simp only [Option.map_some, TypeExpr.unplaced, hR.sketch_type hm]
      · rfl
  unfold Lowering.spec TypeSpec.unplaced
  rw [hname, hparams, htype, hR.kind_eq n n' h]

end Lowering.IsLikeness

/-! ## Phrases by themselves -/

namespace Phrase

variable {source : String} {p q : Phrase} {n : Node}

/-- What a phrase is read with when it is all there is of a text. -/
def alone (p : Phrase) : Lowering :=
  { source := write [p], unit := "" }

/-- The type that a phrase stands for. -/
def type (p : Phrase) : TypeExpr :=
  p.alone.type (p.place .start)

/-- The declaration that a phrase stands for under a doc. -/
def spec (doc : Option String) (p : Phrase) : TypeSpec :=
  p.alone.spec doc (p.place .start)

/-- A phrase stands at the start of the text that it is all of. -/
theorem isAt_alone (p : Phrase) : IsAt p.alone.source p (p.place .start) := by
  refine ⟨.start, rfl, [], [], ?_, rfl⟩
  rw [alone, write, String.toList_ofList, charsOfList, charsOfList, List.nil_append]

/-- What a phrase stands for does not depend on where it stands. -/
theorem SameButGap.sketch_type (h : SameButGap p q) (hq : IsAt source q n) (f : String → String)
    (unit : String) :
    (({ source, unit } : Lowering).type n).sketch f = p.type.sketch f :=
  (isLikeness_withGap f).sketch_type h (isAt_alone p) hq "" unit

/-- What a phrase declares does not depend on where it stands. -/
theorem SameButGap.unplaced_spec (h : SameButGap p q) (hp : p.kind.isSpec = true)
    (hq : IsAt source q n) (doc : Option String) (unit : String) :
    (({ source, unit } : Lowering).spec doc n).unplaced = (p.spec doc).unplaced := by
  refine ((isLikeness_withGap id).lowering p.alone.source source "" unit).unplaced_spec
    ⟨p, q, h, isAt_alone p, hq⟩ ?_ doc
  rwa [kind_place]

end Phrase

/-! ## Parts of declarations -/

/-- No blank is part of an identifier. -/
theorem Text.isBlank_of_isIdentifierInner {c : Char} (h : isIdentifierInner c = true) :
    isBlank c = false := by
  have hblanks : ∀ n ∈ blankNumbers, isIdentifierInner (Char.ofNat n) = false := by decide +kernel
  rw [Bool.eq_false_iff]
  intro hblank
  rw [eq_false_of_isBlank hblanks hblank] at h
  cases h

theorem Text.isEmpty_of_isWordText {s : String} (h : Phrase.isWordText s = true) :
    s.isEmpty = false := by
  refine Bool.eq_false_iff.mpr fun hempty => ?_
  rw [String.isEmpty_iff.mp hempty] at h
  exact absurd h (by decide)

/-- A word has no blanks around it. -/
theorem Text.trim_of_isWordText {s : String} (h : Phrase.isWordText s = true) : trim s = s := by
  have hne : s.toList ≠ [] := by
    intro hnil
    rw [Phrase.isWordText, hnil] at h
    cases h
  rw [Phrase.isWordText, Bool.and_eq_true, List.all_eq_true] at h
  obtain ⟨first, rest, hs⟩ := List.exists_cons_of_ne_nil hne
  have hinner : ∀ c ∈ s.toList, isBlank c = false := by
    rw [hs] at h ⊢
    rw [List.forall_mem_cons]
    refine ⟨isBlank_of_isIdentifierInner ?_, fun c hc => isBlank_of_isIdentifierInner (h.2 c hc)⟩
    rw [isIdentifierInner, Bool.or_eq_true]
    exact Or.inl (by simpa using h.1)
  have hkept := trimChars_append (List.forall_mem_nil _) hinner hne []
  have hnil : dropTrailing isBlank [] = [] := rfl
  rw [List.nil_append, List.append_nil, hnil, List.append_nil] at hkept
  rw [trim, hkept, String.ofList_toList]

/-- A declaration has the name, the type and the place of a node. -/
structure Lowering.Declares (l : Lowering) (n : Node) (spec : TypeSpec) : Prop where
  named : ∃ m, n.child? .name = some m ∧ spec.name = some (l.text m) ∧
    Phrase.isWordText (l.text m) = true
  typed : ∃ m, n.child? .type = some m ∧ spec.type = some (l.type m)
  placed : spec.position = l.position n

/-- **A declaration that follows the grammar** declares a type under a name. -/
theorem Phrase.Follows.declares {p : Phrase} {source : String} {n : Node} (h : p.Follows)
    (hp : p.kind.isSpec = true) (hat : IsAt source p n) (unit : String) (doc : Option String) :
    Lowering.Declares { source, unit } n (({ source, unit } : Lowering).spec doc n) := by
  obtain ⟨name, hname, hnameFollows, hnameKind⟩ := h.child?_name hp
  obtain ⟨type, htype, htypeFollows, -⟩ := h.child?_type hp
  obtain ⟨m, hm, hmat⟩ := hat.exists_child? hname
  obtain ⟨t, ht, htat⟩ := hat.exists_child? htype
  have hword : Phrase.isWordText (({ source, unit } : Lowering).text m) = true := by
    rw [hmat.text_eq]
    exact hnameFollows.isWordText (by rw [hnameKind]; rfl)
  have hne : ({ source, unit } : Lowering).text m ≠ "" := by
    intro hempty
    rw [hempty] at hword
    exact absurd hword (by decide)
  have hkind : t.kind ≠ .error := htat.kind_eq ▸ htypeFollows.kind_ne_error
  refine ⟨⟨m, hm, ?_, hword⟩, ⟨t, ht, ?_⟩, rfl⟩
  · rw [Lowering.spec, hm]
    simp [hmat.isMissing_eq hnameFollows, hne]
  · rw [Lowering.spec, ht]
    simp [htat.isMissing_eq htypeFollows, hkind]

/-! ## Items -/

namespace Node

/-- The elders of what comes later are those of what comes first, and what comes first itself. -/
theorem withElders_append (elders ns ms : List Node) :
    withElders elders (ns ++ ms) = withElders elders ns ++ withElders (ns.reverse ++ elders) ms := by
  induction ns generalizing elders with
  | nil => rfl
  | cons n ns ih =>
    rw [List.cons_append, withElders, withElders, ih, List.reverse_cons, List.append_assoc]
    rfl

theorem map_snd_withElders (elders ns : List Node) :
    (withElders elders ns).map Prod.snd = ns := by
  induction ns generalizing elders with
  | nil => rfl
  | cons n ns ih => rw [withElders, List.map_cons, ih]

end Node

namespace Lowering

variable (l : Lowering)

/-- The items that some children of the root stand for, behind others. -/
def itemsBehind (before ns : List Node) : List Item :=
  (Node.withElders before ns).filterMap fun (before, n) => l.item? before n

/-- All items of a tree are those behind nothing. -/
theorem items_eq (root : Node) : l.items root = l.itemsBehind [] root.children :=
  rfl

/-- Items are found from left to right, with what has been passed kept for the docs. -/
theorem itemsBehind_append (before ns ms : List Node) :
    l.itemsBehind before (ns ++ ms) =
      l.itemsBehind before ns ++ l.itemsBehind (ns.reverse ++ before) ms := by
  rw [itemsBehind, Node.withElders_append, List.filterMap_append]
  rfl

theorem itemsBehind_cons (before : List Node) (n : Node) (ns : List Node) :
    l.itemsBehind before (n :: ns) = (l.item? before n).toList ++ l.itemsBehind (n :: before) ns := by
  rw [itemsBehind, Node.withElders, List.filterMap_cons]
  dsimp only
  cases l.item? before n <;> rfl

variable {l}

/-- What is neither a type declaration nor an error gives no item. -/
theorem item?_eq_none {n : Node} (h : n.kind ≠ .typeDeclaration ∧ n.kind ≠ .error)
    (before : List Node) : l.item? before n = none := by
  rw [item?, if_neg h.1, if_neg fun herror => h.2 herror.1]

/-- A token that is its own name gives no item. -/
theorem item?_symbol {n : Node} {text : String} (h : n.kind = .symbol text) (before : List Node) :
    l.item? before n = none := by
  refine item?_eq_none ⟨?_, ?_⟩ before
  · rw [h]
    rintro ⟨⟩
  · rw [h]
    rintro ⟨⟩

/-- Lines that are no declarations give nothing. -/
theorem itemsBehind_eq_nil {ns : List Node}
    (h : ∀ n ∈ ns, n.kind ≠ .typeDeclaration ∧ n.kind ≠ .error) (before : List Node) :
    l.itemsBehind before ns = [] := by
  induction ns generalizing before with
  | nil => rfl
  | cons n ns ih =>
    rw [List.forall_mem_cons] at h
    rw [itemsBehind_cons, item?_eq_none h.1, ih h.2]
    rfl

/-- A declaration of one type is a single item under the doc above the declaration. -/
theorem item?_single {n word m : Node} (hn : n.kind = .typeDeclaration)
    (hchildren : n.children = [word, m]) (hword : word.kind = .symbol "type")
    (hm : m.kind.isSpec = true) (before : List Node) :
    l.item? before n = some (.single (l.spec (l.doc? before n) m)) := by
  have hparen : (m.kind == .symbol "(") = false := by
    cases hkind : m.kind <;> rw [hkind] at hm <;> first | rfl | cases hm
  have hspec : word.kind.isSpec = false := by
    rw [hword]
    rfl
  have hno : n.children.any (·.kind == .symbol "(") = false := by
    rw [hchildren, List.any_cons, List.any_cons, hword, hparen]
    rfl
  have hfind : n.children.find? (·.kind.isSpec) = some m := by
    simp [hchildren, hspec, hm]
  rw [item?, if_pos hn, declaration?, hno, hfind]
  rfl

/-- The declaration that a node in a group stands for, if it is one. -/
def member? (l : Lowering) : List Node × Node → Option TypeSpec := fun (elders, m) =>
  if m.kind.isSpec then some (l.spec (l.doc? elders m) m) else none

/-- A declaration in parentheses is a group, in which each declaration has the doc above itself. -/
theorem item?_group {n : Node} (hn : n.kind = .typeDeclaration)
    (hparen : n.children.any (·.kind == .symbol "(") = true) (before : List Node) :
    l.item? before n =
      some (.group (l.position n) ((Node.withElders [] n.children).filterMap l.member?)) := by
  rw [item?, if_pos hn, declaration?, if_pos hparen]
  dsimp only
  rw [← List.filterMap_eq_filter, ← List.filterMap_eq_map, List.filterMap_filterMap]
  refine congrArg (fun members => some (Item.group _ members))
    (List.filterMap_congr fun pair _ => ?_)
  rw [member?, Option.guard]
  cases pair.2.kind.isSpec <;> rfl

end Lowering

end GoAtlas
