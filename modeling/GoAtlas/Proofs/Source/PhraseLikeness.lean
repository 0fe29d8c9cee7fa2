import GoAtlas.Proofs.Source.Derivations
import GoAtlas.Proofs.Source.Likeness

/-!
# Phrases that stand for the same type

A likeness between phrases is a likeness between the nodes that they become, wherever the phrases
stand in whatever texts (`Phrase.IsLikeness.lowering`). So phrases that are alike stand for the same
type, up to places and up to the texts that types are kept as (`Phrase.IsLikeness.sketch_type`).

The first likeness is that of a phrase to itself at another place, behind other blanks
(`Phrase.isLikeness_withGap`): what a phrase stands for depends on neither, but for the places in
it.
-/

namespace GoAtlas.Phrase

/-! ## Likenesses between phrases -/

/-- The parts of a phrase that are named. -/
def namedChildren (p : Phrase) : List Phrase :=
  p.children.filter (·.kind.isNamed)

/-- Whether a phrase is a single token: the name of a type, or a phrase in a field that holds one.
-/
def isToken (p : Phrase) : Bool :=
  p.kind == .typeIdentifier || p.field.any NodeField.isToken

/-- Whether a phrase stands for a part that the text leaves out. -/
def isAbsent : Phrase → Bool
  | absent .. => true
  | _ => false

/-- The first named parts of two phrases are related, or there is none on the one side and a comment
on the other. -/
def FirstsAgree (f : String → String) (Q : Phrase → Phrase → Prop) (p q : Phrase) : Prop :=
  Option.Rel Q p.namedChildren.head? q.namedChildren.head? ∨
    (p.namedChildren.head? = none ∧ ∃ c, q.namedChildren.head? = some c ∧ c.kind = .comment ∧
      f c.text = f p.text)

/-- What a relation between phrases must satisfy so that related phrases stand for the same type, up
to places and up to texts that `f` does not tell apart. -/
structure IsLikeness (f : String → String) (Q : Phrase → Phrase → Prop) : Prop where
  kind_eq : ∀ p q, Q p q → q.kind = p.kind
  field_eq : ∀ p q, Q p q → q.field = p.field
  isAbsent_eq : ∀ p q, Q p q → q.isAbsent = p.isAbsent
  isCurrent : ∀ p q, Q p q → p.kind.isCurrent = true
  text_eq : ∀ p q, Q p q → f q.text = f p.text
  token_eq : ∀ p q, Q p q → p.isToken = true → q.text = p.text
  children : ∀ p q, Q p q → p.kind.isOpened = true →
    Interleaved IsRemark Q p.children q.children
  first : ∀ p q, Q p q → p.kind.picksFirst = true → FirstsAgree f Q p q
  parameters : ∀ p q, Q p q → p.kind = .methodElem → ∀ r ∈ p.children,
    r.field = some .parameters → r.kind = .parameterList
  lone : ∀ p q, Q p q → p.kind = .typeElem →
    (p.namedChildren.length = 1 ↔ q.namedChildren.length = 1)

variable {source source' : String} {p q : Phrase} {n n' : Node} {Q : Phrase → Phrase → Prop}

/-- A node is missing when its phrase is absent, wherever it stands. -/
theorem isMissing_place (s : Place) (p : Phrase) : (p.place s).isMissing = p.isAbsent := by
  cases p <;> rfl

theorem IsAt.isMissing_eq_isAbsent (h : IsAt source p n) : n.isMissing = p.isAbsent := by
  obtain ⟨s, rfl, -⟩ := h
  exact isMissing_place s p

/-- Whether a node is a single token is a matter of its kind and field. -/
theorem IsAt.isToken_eq (h : IsAt source p n) : n.isToken = p.isToken := by
  rw [Node.isToken, isToken, h.kind_eq, h.field_eq]

/-- The named children of a node are the named parts of its phrase. -/
theorem IsAt.namedChildren (h : IsAt source p n) :
    List.Forall₂ (IsAt source) p.namedChildren n.namedChildren :=
  List.rel_filter (fun _ _ hq => by simp only [Node.isNamed, hq.kind_eq]) h.children

/-- Nodes are related by a relation between the phrases that they are. -/
def NodesRelated (source source' : String) (Q : Phrase → Phrase → Prop) (n n' : Node) : Prop :=
  ∃ p q, Q p q ∧ IsAt source p n ∧ IsAt source' q n'

/-- Lists of phrases that are related become lists of nodes that are. -/
theorem interleaved_nodes {ps qs : List Phrase} {ns ns' : List Node}
    (h : Interleaved IsRemark Q ps qs) (hps : List.Forall₂ (IsAt source) ps ns)
    (hqs : List.Forall₂ (IsAt source') qs ns') :
    Interleaved Node.IsRemark (NodesRelated source source' Q) ns ns' := by
  induction h generalizing ns ns' with
  | nil =>
    cases hps
    cases hqs
    exact .nil
  | cons head _ ih =>
    cases hps with
    | cons hp hps =>
    cases hqs with
    | cons hq hqs => exact .cons ⟨_, _, head, hp, hq⟩ (ih hps hqs)
  | remark head _ ih =>
    cases hqs with
    | cons hq hqs => exact .remark ⟨hq.kind_eq.trans head.1, hq.field_eq.trans head.2⟩ (ih hps hqs)

/-- What holds between the first ones of lists of phrases and of lists of nodes. -/
theorem head?_nodes {ps qs : List Phrase} {ns ns' : List Node}
    (h : Option.Rel Q ps.head? qs.head?) (hps : List.Forall₂ (IsAt source) ps ns)
    (hqs : List.Forall₂ (IsAt source') qs ns') :
    Option.Rel (NodesRelated source source' Q) ns.head? ns'.head? := by
  cases hps with
  | nil =>
    cases hqs with
    | nil => exact .none
    | cons => cases h
  | cons hp =>
    cases hqs with
    | nil => cases h
    | cons hq =>
      cases h with
      | some h => exact .some ⟨_, _, h, hp, hq⟩

/-- **Phrases that are alike become nodes that are alike**, in any two texts. -/
theorem IsLikeness.lowering {f : String → String} (hQ : IsLikeness f Q)
    (source source' unit unit' : String) :
    Lowering.IsLikeness ⟨source, unit⟩ ⟨source', unit'⟩ f (NodesRelated source source' Q) where
  kind_eq := fun n n' ⟨p, q, h, hp, hq⟩ => by rw [hp.kind_eq, hq.kind_eq, hQ.kind_eq p q h]
  field_eq := fun n n' ⟨p, q, h, hp, hq⟩ => by rw [hp.field_eq, hq.field_eq, hQ.field_eq p q h]
  isMissing_eq := fun n n' ⟨p, q, h, hp, hq⟩ => by
    rw [hp.isMissing_eq_isAbsent, hq.isMissing_eq_isAbsent, hQ.isAbsent_eq p q h]
  isCurrent := fun n n' ⟨p, q, h, hp, _⟩ => by rw [hp.kind_eq, hQ.isCurrent p q h]
  text_eq := fun n n' ⟨p, q, h, hp, hq⟩ => by rw [hp.text_eq, hq.text_eq, hQ.text_eq p q h]
  token_eq := fun n n' ⟨p, q, h, hp, hq⟩ hn => by
    rw [hp.text_eq, hq.text_eq, hQ.token_eq p q h (hp.isToken_eq ▸ hn)]
  children := fun n n' ⟨p, q, h, hp, hq⟩ hn =>
    interleaved_nodes (hQ.children p q h (hp.kind_eq ▸ hn)) hp.children hq.children
  first := fun n n' ⟨p, q, h, hp, hq⟩ hn => by
    rcases hQ.first p q h (hp.kind_eq ▸ hn) with hrel | ⟨hnone, c, hc, hkind, htext⟩
    · exact Or.inl (head?_nodes hrel hp.namedChildren hq.namedChildren)
    · right
      have hn := hp.namedChildren
      have hn' := hq.namedChildren
      rw [List.head?_eq_none_iff] at hnone
      rw [hnone] at hn
      obtain ⟨rest, hrest⟩ := List.head?_eq_some_iff.mp hc
      rw [hrest] at hn'
      generalize n.namedChildren = ms at hn
      generalize hms : n'.namedChildren = ms' at hn'
      cases hn
      cases hn' with
      | @cons _ m _ _ hm _ =>
        exact ⟨rfl, m, rfl, hm.kind_eq.trans hkind, by rw [hm.text_eq, hp.text_eq, htext]⟩
  parameters := fun n n' ⟨p, q, h, hp, _⟩ hn m hm hfield => by
    obtain ⟨i, hi, rfl⟩ := List.mem_iff_getElem.mp hm
    have hlength := hp.children.length_eq
    have hat := hp.children.get (i := i) (by omega) hi
    have hkind := hQ.parameters p q h (hp.kind_eq ▸ hn) _ (List.getElem_mem (by omega))
      (hat.field_eq ▸ hfield)
    exact hat.kind_eq.trans hkind
  lone := fun n n' ⟨p, q, h, hp, hq⟩ hn => by
    rw [← hp.namedChildren.length_eq, ← hq.namedChildren.length_eq]
    exact hQ.lone p q h (hp.kind_eq ▸ hn)

/-- **Phrases that are alike stand for the same type** in any two texts, up to places and texts. -/
theorem IsLikeness.sketch_type {f : String → String} (hQ : IsLikeness f Q) (h : Q p q)
    (hp : IsAt source p n) (hq : IsAt source' q n') (unit unit' : String) :
    (({ source := source', unit := unit' } : Lowering).type n').sketch f =
      (({ source, unit } : Lowering).type n).sketch f :=
  (hQ.lowering source source' unit unit').sketch_type ⟨p, q, h, hp, hq⟩

/-! ## Other blanks in front -/

@[simp]
theorem kind_withGap (gap : String) (p : Phrase) : (p.withGap gap).kind = p.kind := by
  cases p <;> rfl

@[simp]
theorem field_withGap (gap : String) (p : Phrase) : (p.withGap gap).field = p.field := by
  cases p <;> rfl

theorem isAbsent_withGap (gap : String) (p : Phrase) : (p.withGap gap).isAbsent = p.isAbsent := by
  cases p <;> rfl

/-- Only the first part of a phrase gets the other blanks. -/
theorem children_withGap (gap : String) (p : Phrase) :
    (p.withGap gap).children = withGapOfList gap p.children := by
  cases p <;> rfl

mutual

/-- What is written behind the blanks does not change with them. -/
theorem body_withGap (gap : String) : (p : Phrase) → (p.withGap gap).body = p.body
  | leaf .. => rfl
  | absent .. => rfl
  | node _ _ children => bodyOfList_withGapOfList gap children

theorem bodyOfList_withGapOfList (gap : String) : (ps : List Phrase) →
    bodyOfList (withGapOfList gap ps) = bodyOfList ps
  | [] => rfl
  | p :: rest => by rw [withGapOfList, bodyOfList, bodyOfList, body_withGap gap p]

end

/-- Hence a node has the same text. -/
theorem text_withGap (gap : String) (p : Phrase) : (p.withGap gap).text = p.text := by
  rw [text, text, body_withGap]

mutual

/-- The blanks in front of a phrase may be put there once more. -/
theorem withGap_gap : (p : Phrase) → p.withGap p.gap = p
  | leaf .. => rfl
  | absent .. => rfl
  | node kind field children => congrArg (node kind field) (withGapOfList_gapOfList children)

theorem withGapOfList_gapOfList : (ps : List Phrase) → withGapOfList (gapOfList ps) ps = ps
  | [] => rfl
  | p :: rest => congrArg (· :: rest) (withGap_gap p)

end

/-- A phrase that follows the grammar, and the same phrase behind other blanks. -/
def SameButGap (p q : Phrase) : Prop :=
  p.Follows ∧ ∃ gap, q = p.withGap gap

/-- A phrase is like itself. -/
theorem SameButGap.refl (h : p.Follows) : SameButGap p p :=
  ⟨h, p.gap, (withGap_gap p).symm⟩

/-- Lists of phrases that follow the grammar are the same but for the blanks in front of the first.
-/
theorem forall₂_sameButGap (gap : String) {ps : List Phrase} (h : ∀ p ∈ ps, p.Follows) :
    List.Forall₂ SameButGap ps (withGapOfList gap ps) := by
  cases ps with
  | nil => exact .nil
  | cons p rest =>
    rw [List.forall_mem_cons] at h
    refine .cons ⟨h.1, gap, rfl⟩ (List.forall₂_same.mpr fun q hq => .refl (h.2 q hq))

theorem forall₂_filter_sameButGap (gap : String) {ps : List Phrase} (h : ∀ p ∈ ps, p.Follows) :
    List.Forall₂ SameButGap (ps.filter (·.kind.isNamed))
      ((withGapOfList gap ps).filter (·.kind.isNamed)) := by
  refine List.rel_filter (fun a b hab => ?_) (forall₂_sameButGap gap h)
  obtain ⟨-, other, rfl⟩ := hab
  simp only [kind_withGap]

/-- The named parts are alike, one by one. -/
theorem forall₂_namedChildren_withGap (gap : String) (h : p.Follows) :
    List.Forall₂ SameButGap p.namedChildren (p.withGap gap).namedChildren := by
  rw [namedChildren, namedChildren, children_withGap]
  exact forall₂_filter_sameButGap gap fun q hq => h.of_mem_children hq

/-- **A phrase is like itself** behind other blanks. -/
theorem isLikeness_withGap (f : String → String) : IsLikeness f SameButGap where
  kind_eq := by
    rintro p _ ⟨-, gap, rfl⟩
    exact kind_withGap gap p
  field_eq := by
    rintro p _ ⟨-, gap, rfl⟩
    exact field_withGap gap p
  isAbsent_eq := by
    rintro p _ ⟨-, gap, rfl⟩
    exact isAbsent_withGap gap p
  isCurrent := by
    rintro p _ ⟨h, -⟩
    obtain ⟨hspec, helem, hname⟩ := h.isCurrent
    cases hkind : p.kind <;> first | rfl | simp_all
  text_eq := by
    rintro p _ ⟨-, gap, rfl⟩
    rw [text_withGap]
  token_eq := by
    rintro p _ ⟨-, gap, rfl⟩ -
    exact text_withGap gap p
  children := by
    rintro p _ ⟨h, gap, rfl⟩ -
    rw [children_withGap]
    exact .of_forall₂ (forall₂_sameButGap gap fun q hq => h.of_mem_children hq)
  first := by
    rintro p _ ⟨h, gap, rfl⟩ -
    refine Or.inl ?_
    have hnamed := forall₂_namedChildren_withGap gap h
    generalize p.namedChildren = ps at hnamed
    generalize (p.withGap gap).namedChildren = qs at hnamed
    cases hnamed with
    | nil => exact .none
    | cons head => exact .some head
  parameters := by
    rintro p _ ⟨h, -⟩ hp r hr hfield
    exact h.parameters hp hr hfield
  lone := by
    rintro p _ ⟨h, gap, rfl⟩ -
    rw [(forall₂_namedChildren_withGap gap h).length_eq]

end GoAtlas.Phrase
