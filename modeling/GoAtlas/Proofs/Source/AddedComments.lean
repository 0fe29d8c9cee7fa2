import GoAtlas.Proofs.Source.PhraseLikeness

/-!
# Comments in types

A comment may stand between any two parts of a construct that is not a single token. Where the type
of a construct is read off its first named part, which is so for pointers and for types in
parentheses, a comment that comes before that part takes its place, and the construct is kept as
text. Everywhere else the comment makes no difference, but for places and for the texts that types
are kept as.

`Phrase.AddsComment` relates a phrase, the phrase with one comment more, and the phrase as which the
second one is read: the first one again, or the first one with a construct emptied of its parts, so
that it is kept as text. The law is that the second stands for the same type as the third
(`Phrase.AddsComment.outline_eq`).
-/

namespace GoAtlas.Phrase

/-! ## One comment more -/

/-- A phrase `p` with one comment more is `p'`, and it is read as `q`: that is `p` again, unless the
comment comes before the first named part of a pointer or of a type in parentheses. -/
inductive AddsComment (remark : Phrase) : Phrase → Phrase → Phrase → Prop
  /-- The comment stands between two parts and is not the first named one that a type is read off. -/
  | between {kind : NodeKind} {field : Option NodeField} {front back : List Phrase} {gap : String}
      (before : front ≠ []) (behind : back ≠ [])
      (later : kind.picksFirst = true → ∃ p ∈ front, p.kind.isNamed = true) :
      AddsComment remark (node kind field (front ++ back)) (node kind field (front ++ back))
        (node kind field (front ++ remark :: withGapOfList gap back))
  /-- The comment comes before the first named part of a construct that is read off that part. -/
  | first {kind : NodeKind} {field : Option NodeField} {front back : List Phrase} {gap : String}
      (before : front ≠ []) (behind : back ≠ []) (picks : kind.picksFirst = true)
      (marks : ∀ p ∈ front, p.kind.isNamed = false) :
      AddsComment remark (node kind field (front ++ back)) (node kind field [])
        (node kind field (front ++ remark :: withGapOfList gap back))
  /-- The comment stands in a part. -/
  | inside {kind : NodeKind} {field : Option NodeField} {front back : List Phrase}
      {p q p' : Phrase} (token : p.isToken = false) (part : AddsComment remark p q p') :
      AddsComment remark (node kind field (front ++ p :: back))
        (node kind field (front ++ q :: back)) (node kind field (front ++ p' :: back))

namespace AddsComment

variable {remark p q p' : Phrase}

/-- A comment changes neither the kind of the phrase that it is added to nor that of the phrase it
is read as. -/
theorem kind_eq (h : AddsComment remark p q p') : q.kind = p.kind ∧ p'.kind = p.kind := by
  cases h <;> exact ⟨rfl, rfl⟩

theorem field_eq (h : AddsComment remark p q p') : q.field = p.field ∧ p'.field = p.field := by
  cases h <;> exact ⟨rfl, rfl⟩

theorem isAbsent_eq (h : AddsComment remark p q p') :
    q.isAbsent = false ∧ p'.isAbsent = false := by
  cases h <;> exact ⟨rfl, rfl⟩

theorem isToken_eq (h : AddsComment remark p q p') : q.isToken = p.isToken := by
  rw [isToken, isToken, h.kind_eq.1, h.field_eq.1]

end AddsComment

/-! ## Sets of types -/

/-- Of two or more phrases with no comment at either end two or more are no comments. -/
theorem two_le_length_parts {front back : List Phrase} (hfront : front ≠ []) (hback : back ≠ [])
    (h : isEnclosed (front ++ back) = true) : 2 ≤ (parts (front ++ back)).length := by
  obtain ⟨x, front, rfl⟩ := List.exists_cons_of_ne_nil hfront
  obtain ⟨back, y, rfl⟩ := (List.eq_nil_or_concat' back).resolve_left hback
  rw [isEnclosed, Bool.and_eq_true, ← List.append_assoc, List.getLast?_concat] at h
  simp only [List.cons_append, List.head?_cons, Option.any_some] at h
  rw [parts, List.filter_append, List.filter_append, List.filter_cons, if_pos h.1, List.filter_cons,
    if_pos h.2]
  simp only [List.length_append, List.length_cons]
  omega

/-- A set of types with two or more parts has two or more types. -/
theorem Follows.two_le_length_namedChildren {field : Option NodeField} {front back : List Phrase}
    (h : (node .typeElem field (front ++ back)).Follows) (hfront : front ≠ []) (hback : back ≠ []) :
    2 ≤ (namedChildren (node .typeElem field (front ++ back))).length := by
  obtain ⟨first, more, hparts, hfirst, hmore⟩ := h.typeElem rfl
  have hlength := two_le_length_parts hfront hback h.isEnclosed
  replace hparts : parts (front ++ back) = first :: more.flatten := hparts
  have hnamed : ∀ kind : NodeKind, kind.isType = true → kind.isNamed = true := by
    intro kind hkind
    cases kind <;> first | rfl | cases hkind
  have hsub : ((parts (front ++ back)).filter (·.kind.isNamed)).Sublist
      (namedChildren (node .typeElem field (front ++ back))) :=
    (List.filter_sublist).filter _
  refine Nat.le_trans ?_ hsub.length_le
  cases more with
  | nil =>
    rw [hparts] at hlength
    simp at hlength
  | cons piece more =>
    obtain ⟨bar, term, rfl, -, hterm⟩ := hmore piece List.mem_cons_self
    rw [hparts, List.filter_cons, if_pos (hnamed _ hfirst), List.flatten_cons, List.filter_append]
    have hbehind : ([bar, term].filter (·.kind.isNamed)).length ≥ 1 :=
      List.length_pos_of_mem (List.mem_filter.mpr ⟨by simp, hnamed _ hterm⟩)
    rw [List.length_cons, List.length_append]
    omega

/-! ## The likeness -/

/-- A phrase `q` is read where `p'` stands: the two are the same but for blanks, or `p'` is a phrase
that follows the grammar with one comment more and is read as `q`. -/
def ReadAs (remark q p' : Phrase) : Prop :=
  SameButGap q p' ∨ ∃ p, p.Follows ∧ p.isToken = false ∧ AddsComment remark p q p'

variable {remark p q p' : Phrase} {kind : NodeKind} {field : Option NodeField}
  {front back : List Phrase}

/-- Parts that follow the grammar are read as they are. -/
theorem forall₂_readAs {ps : List Phrase} (h : ∀ p ∈ ps, p.Follows) :
    List.Forall₂ (ReadAs remark) ps ps :=
  List.forall₂_same.mpr fun p hp => Or.inl (.refl (h p hp))

/-- Where the comment stands in a part, the other parts are read as they are. -/
theorem forall₂_inside (h : (node kind field (front ++ p :: back)).Follows)
    (htoken : p.isToken = false) (hpart : AddsComment remark p q p') :
    List.Forall₂ (ReadAs remark) (front ++ q :: back) (front ++ p' :: back) := by
  have hfollows : ∀ r ∈ front ++ p :: back, r.Follows := fun r hr => h.of_mem_children hr
  rw [List.forall_mem_append, List.forall_mem_cons] at hfollows
  obtain ⟨hfront, hp, hback⟩ := hfollows
  exact List.rel_append (forall₂_readAs hfront)
    (.cons (Or.inr ⟨p, hp, htoken, hpart⟩) (forall₂_readAs hback))

theorem kind_eq_of_readAs (h : ReadAs remark q p') : p'.kind = q.kind := by
  rcases h with ⟨-, gap, rfl⟩ | ⟨p, -, -, h⟩
  · exact kind_withGap gap q
  · rw [h.kind_eq.1, h.kind_eq.2]

/-- Where no comment is added, named parts stay beside each other. -/
theorem forall₂_namedChildren {ps qs : List Phrase} (h : List.Forall₂ (ReadAs remark) ps qs) :
    List.Forall₂ (ReadAs remark) (ps.filter (·.kind.isNamed)) (qs.filter (·.kind.isNamed)) :=
  List.rel_filter (fun _ _ hq => by simp only [kind_eq_of_readAs hq]) h

theorem rel_imp {α : Type} {Q Q' : α → α → Prop} {a b : Option α} (h : Option.Rel Q a b)
    (hQ : ∀ x y, Q x y → Q' x y) : Option.Rel Q' a b := by
  cases h with
  | none => exact .none
  | some h => exact .some (hQ _ _ h)

theorem rel_head?_of_forall₂ {α : Type} {Q : α → α → Prop} {xs ys : List α}
    (h : List.Forall₂ Q xs ys) : Option.Rel Q xs.head? ys.head? := by
  cases h with
  | nil => exact .none
  | cons head => exact .some head

/-- The first named part is read as it is, or a comment stands in its place. -/
theorem firstsAgree_readAs (hremark : remark.IsRemark) (h : p.Follows)
    (hadds : AddsComment remark p q p') (hpicks : p.kind.picksFirst = true) :
    FirstsAgree (fun _ => "") (ReadAs remark) q p' := by
  cases hadds with
  | between _ _ later =>
    obtain ⟨r, hr, hnamed⟩ := later hpicks
    have hmem : r ∈ List.filter (·.kind.isNamed) _ := List.mem_filter.mpr ⟨hr, hnamed⟩
    left
    rw [namedChildren, namedChildren, children, children, List.filter_append, List.filter_append,
      List.head?_append_of_ne_nil _ (List.ne_nil_of_mem hmem),
      List.head?_append_of_ne_nil _ (List.ne_nil_of_mem hmem)]
    refine rel_head?_of_forall₂ (forall₂_readAs fun a ha => h.of_mem_children ?_)
    exact List.mem_append_left _ (List.mem_filter.mp ha).1
  | @first kind field front back gap _ _ picks marks =>
    right
    refine ⟨rfl, remark, ?_, hremark.1, rfl⟩
    have hnone : front.filter (·.kind.isNamed) = [] :=
      List.filter_eq_nil_iff.mpr fun r hr => by rw [marks r hr]; exact Bool.false_ne_true
    rw [namedChildren, children, List.filter_append, hnone, List.filter_cons, hremark.1]
    rfl
  | inside token part =>
    exact Or.inl (rel_head?_of_forall₂ (forall₂_namedChildren (forall₂_inside h token part)))

/-- The parts are read as they are, but for the comment, if no type is read off the first one. -/
theorem interleaved_readAs (hremark : remark.IsRemark) (h : p.Follows)
    (hadds : AddsComment remark p q p') (hpicks : p.kind.picksFirst = false) :
    Interleaved IsRemark (ReadAs remark) q.children p'.children := by
  cases hadds with
  | @between kind field front back gap _ _ _ =>
    have hfollows : ∀ r ∈ front ++ back, r.Follows := fun r hr => h.of_mem_children hr
    rw [List.forall_mem_append] at hfollows
    exact (Interleaved.of_forall₂ (forall₂_readAs hfollows.1)).append
      (.remark hremark (.of_forall₂ ((forall₂_sameButGap gap hfollows.2).imp fun _ _ => Or.inl)))
  | first _ _ picks _ => cases picks.symm.trans hpicks
  | inside token part => exact .of_forall₂ (forall₂_inside h token part)

/-- A set of types has one type with the comment if it has one without. -/
theorem lone_readAs (hremark : remark.IsRemark) (h : p.Follows)
    (hadds : AddsComment remark p q p') (hkind : p.kind = .typeElem) :
    q.namedChildren.length = 1 ↔ p'.namedChildren.length = 1 := by
  cases hadds with
  | @between kind field front back gap before behind _ =>
    obtain rfl : kind = .typeElem := hkind
    have hmany := h.two_le_length_namedChildren before behind
    have hback := (forall₂_filter_sameButGap gap fun r hr =>
      h.of_mem_children (List.mem_append_right front hr)).length_eq
    have hmore : (namedChildren (node .typeElem field (front ++ back))).length + 1 =
        (namedChildren (node .typeElem field
          (front ++ remark :: withGapOfList gap back))).length := by
      rw [namedChildren, namedChildren, children, children, List.filter_append,
        List.filter_append, List.filter_cons, hremark.1, List.length_append, List.length_append,
        hback]
      rfl
    omega
  | @first kind _ _ _ _ _ _ picks _ =>
    obtain rfl : kind = .typeElem := hkind
    cases picks
  | inside token part =>
    have hlists := forall₂_namedChildren (forall₂_inside h token part)
    exact iff_of_eq (congrArg (· = 1) hlists.length_eq)

/-- Where the comment stands in a part of a method, the parameters are a list all the same. -/
theorem parameters_readAs (h : p.Follows) (hadds : AddsComment remark p q p')
    (hkind : p.kind = .methodElem) :
    ∀ r ∈ q.children, r.field = some .parameters → r.kind = .parameterList := by
  intro r hr hfield
  cases hadds with
  | between => exact h.parameters hkind hr hfield
  | first => cases hr
  | @inside _ _ front back part part' _ _ hpart =>
    rcases List.mem_append.mp hr with hfront | hback
    · exact h.parameters hkind (List.mem_append_left _ hfront) hfield
    · rcases List.mem_cons.mp hback with rfl | hback
      · rw [hpart.kind_eq.1]
        refine h.parameters hkind (List.mem_append_right _ List.mem_cons_self) ?_
        rw [← hpart.field_eq.1, hfield]
      · exact h.parameters hkind (List.mem_append_right _ (List.mem_cons_of_mem _ hback)) hfield

/-- **A phrase with one comment more** is like the phrase as which it is read. -/
theorem isLikeness_readAs (hremark : remark.IsRemark) :
    IsLikeness (fun _ => "") (ReadAs remark) where
  kind_eq _ _ := kind_eq_of_readAs
  field_eq q p' h := by
    rcases h with h | ⟨p, -, -, h⟩
    · exact (isLikeness_withGap id).field_eq q p' h
    · rw [h.field_eq.1, h.field_eq.2]
  isAbsent_eq q p' h := by
    rcases h with h | ⟨p, -, -, h⟩
    · exact (isLikeness_withGap id).isAbsent_eq q p' h
    · rw [h.isAbsent_eq.1, h.isAbsent_eq.2]
  isCurrent q p' h := by
    rcases h with h | ⟨p, hp, -, h⟩
    · exact (isLikeness_withGap id).isCurrent q p' h
    · rw [h.kind_eq.1]
      exact (isLikeness_withGap id).isCurrent p p (.refl hp)
  text_eq _ _ _ := rfl
  token_eq q p' h hq := by
    rcases h with h | ⟨p, -, htoken, h⟩
    · exact (isLikeness_withGap id).token_eq q p' h hq
    · rw [h.isToken_eq, htoken] at hq
      cases hq
  children q p' h hq := by
    rcases h with h | ⟨p, hp, -, h⟩
    · refine ((isLikeness_withGap id).children q p' h hq).imp fun _ _ => Or.inl
    · refine interleaved_readAs hremark hp h ?_
      rw [h.kind_eq.1, NodeKind.isOpened, Bool.and_eq_true, Bool.not_eq_true'] at hq
      exact hq.2
  first q p' h hq := by
    rcases h with h | ⟨p, hp, -, h⟩
    · refine ((isLikeness_withGap fun _ => "").first q p' h hq).imp (fun h => ?_) id
      exact rel_imp h fun _ _ => Or.inl
    · exact firstsAgree_readAs hremark hp h (h.kind_eq.1 ▸ hq)
  parameters q p' h hq := by
    rcases h with h | ⟨p, hp, -, h⟩
    · exact (isLikeness_withGap id).parameters q p' h hq
    · exact parameters_readAs hp h (h.kind_eq.1 ▸ hq)
  lone q p' h hq := by
    rcases h with h | ⟨p, hp, -, h⟩
    · exact (isLikeness_withGap id).lone q p' h hq
    · exact lone_readAs hremark hp h (h.kind_eq.1 ▸ hq)

end GoAtlas.Phrase
