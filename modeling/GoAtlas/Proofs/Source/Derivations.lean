import GoAtlas.Proofs.Source.Placing

/-!
# Constructs taken apart

What the grammar says of the constructs that declarations are read off, one law for each construct:
a phrase that follows the grammar has such and such parts, apart from comments, in such and such
fields. The laws are read off the rules once; what is proved of the constructs later rests on them
and not on the rules.
-/

namespace GoAtlas.Phrase

variable {p q : Phrase} {rule : Rule}

/-- A phrase is a comment, and plays no part in the phrase around it. -/
def IsRemark (p : Phrase) : Prop :=
  p.kind = .comment ∧ p.field = none

theorem isComment_eq_true_iff : p.isComment = true ↔ p.kind = .comment := by
  rw [isComment, beq_iff_eq]

theorem mem_parts_iff {ps : List Phrase} : q ∈ parts ps ↔ q ∈ ps ∧ q.kind ≠ .comment := by
  rw [parts, List.mem_filter, Bool.not_eq_true', ← Bool.not_eq_true, isComment_eq_true_iff]

/-- A construct that has a rule is not a leaf. -/
theorem rule?_eq_none_of_spells {kind : NodeKind} {text : String} (h : spells kind text = true) :
    kind.rule? = none := by
  unfold spells at h
  cases kind <;> first | rfl | simp [NodeKind.rule?] at h

/-- **The parts of a construct** follow its rule. -/
theorem Follows.derives (h : p.Follows) (hrule : p.kind.rule? = some rule) :
    rule.Derives (parts p.children) := by
  cases p with
  | node kind field children =>
    rw [Follows] at h
    exact h.2.1 rule hrule
  | absent => cases h
  | leaf kind field gap text =>
    rw [Follows] at h
    cases hrule.symm.trans (rule?_eq_none_of_spells h.2.1)

/-- A comment that follows the grammar plays no part in the phrase around it. -/
theorem Follows.isRemark (h : p.Follows) (hp : p.kind = .comment) : p.IsRemark := by
  refine ⟨hp, ?_⟩
  cases p with
  | leaf kind field gap text =>
    obtain rfl : kind = .comment := hp
    rw [Follows] at h
    have hfield : field = none := by simpa using h.2.2
    exact hfield
  | absent => cases h
  | node kind field children =>
    obtain rfl : kind = .comment := hp
    rw [Follows] at h
    simp at h

/-- The first and the last part of a construct are not comments. -/
theorem Follows.isEnclosed {kind : NodeKind} {field : Option NodeField} {children : List Phrase}
    (h : (node kind field children).Follows) : isEnclosed children = true := by
  rw [Follows] at h
  simp only [Bool.and_eq_true] at h
  exact h.1.2

/-- Constructs of older grammars are not in trees that follow the grammar. -/
theorem Follows.isCurrent (h : p.Follows) :
    p.kind ≠ .methodSpec ∧ p.kind ≠ .constraintElem ∧ p.kind ≠ .interfaceTypeName := by
  refine ⟨fun hp => ?_, fun hp => ?_, fun hp => ?_⟩ <;>
  · obtain ⟨q, -, -, hq⟩ : NodeKind.noRule.Derives (parts p.children) := h.derives (by rw [hp]; rfl)
    cases hq

/-- A phrase of a kind of words is a word. -/
theorem Follows.isWordText (h : p.Follows) (hp : p.kind.isWord = true) :
    isWordText p.text = true := by
  cases p with
  | absent => cases h
  | node kind field children =>
    replace hp : kind.isWord = true := hp
    rw [Follows, hp] at h
    simp at h
  | leaf kind field gap text =>
    replace hp : kind.isWord = true := hp
    rw [Follows] at h
    have hspells := h.2.1
    unfold spells at hspells
    split at hspells
    · cases hp
    · cases hp
    · cases hp
    · rw [hp, Bool.not_true, Bool.false_or, Bool.and_eq_true] at hspells
      rw [text_leaf]
      exact hspells.2

/-- A phrase that follows the grammar is not an error. -/
theorem Follows.kind_ne_error (h : p.Follows) : p.kind ≠ .error := by
  intro hkind
  cases p with
  | absent => cases h
  | leaf kind field gap text =>
    obtain rfl : kind = .error := hkind
    rw [Follows] at h
    exact absurd h.2.1 Bool.false_ne_true
  | node kind field children =>
    obtain rfl : kind = .error := hkind
    rw [Follows] at h
    simp at h

/-- A comment and a mark have no parts. -/
theorem Follows.children_eq_nil (h : p.Follows) (hp : p.kind = .comment ∨ p.kind.isNamed = false) :
    p.children = [] := by
  cases p with
  | leaf | absent => rfl
  | node kind field children =>
    replace hp : kind = .comment ∨ kind.isNamed = false := hp
    rw [Follows] at h
    rcases hp with rfl | hp
    · simp at h
    · simp [hp] at h

/-- A place among the parts is a place among the phrases with the comments. -/
theorem exists_of_parts_eq {ps front back : List Phrase} (h : parts ps = front ++ q :: back) :
    ∃ front' back', ps = front' ++ q :: back' ∧ parts front' = front ∧ parts back' = back := by
  induction ps generalizing front with
  | nil => cases front <;> cases h
  | cons p ps ih =>
    by_cases hcomment : p.isComment = true
    · have hp : ∀ ps, parts (p :: ps) = parts ps := fun ps =>
        List.filter_cons_of_neg (by simp [hcomment])
      rw [hp] at h
      obtain ⟨front', back', rfl, hfront, hback⟩ := ih h
      exact ⟨p :: front', back', rfl, by rw [hp, hfront], hback⟩
    · have hp : ∀ ps, parts (p :: ps) = p :: parts ps := fun ps =>
        List.filter_cons_of_pos (by simp [hcomment])
      rw [hp] at h
      cases front with
      | nil =>
        obtain ⟨rfl, hback⟩ := List.cons.inj h
        exact ⟨[], ps, rfl, rfl, hback⟩
      | cons r front =>
        obtain ⟨rfl, hrest⟩ := List.cons.inj h
        obtain ⟨front', back', rfl, hfront, hback⟩ := ih hrest
        exact ⟨p :: front', back', rfl, by rw [hp, hfront], hback⟩

/-- What is the only part of a construct has no comments beside it. -/
theorem Follows.children_eq_singleton (h : p.Follows) (hparts : parts p.children = [q]) :
    p.children = [q] := by
  obtain ⟨front, back, hchildren, hfront, hback⟩ := @exists_of_parts_eq q p.children [] [] hparts
  have hcomments : ∀ {ps : List Phrase}, parts ps = [] → ∀ r ∈ ps, r.isComment = true := by
    intro ps hps r hr
    have hnone := List.filter_eq_nil_iff.mp hps r hr
    simpa using hnone
  have henclosed : Phrase.isEnclosed p.children = true := by
    cases p with
    | leaf | absent => cases hparts
    | node => exact h.isEnclosed
  rw [Phrase.isEnclosed, hchildren, Bool.and_eq_true] at henclosed
  have hfrontNil : front = [] := by
    cases front with
    | nil => rfl
    | cons r front => simp [hcomments hfront r List.mem_cons_self] at henclosed
  have hbackNil : back = [] := by
    rcases List.eq_nil_or_concat' back with rfl | ⟨rest, r, rfl⟩
    · rfl
    · have hr := hcomments hback r (List.mem_append_right _ (List.mem_singleton_self r))
      have hlast : (front ++ q :: (rest ++ [r])).getLast? = some r := by
        rw [← List.cons_append, ← List.append_assoc, List.getLast?_concat]
      simp [hlast, hr] at henclosed
  rw [hchildren, hfrontNil, hbackNil]
  rfl

/-! ## Parts in fields -/

/-- The first part in a field. -/
def child? (field : NodeField) (p : Phrase) : Option Phrase :=
  p.children.find? fun q => q.field == some field

/-- The first things that pass a test in lists that are related one by one. -/
theorem rel_find? {α β : Type} {R : α → β → Prop} {f : α → Bool} {g : β → Bool} {xs : List α}
    {ys : List β} (h : List.Forall₂ R xs ys) (hfg : ∀ x y, R x y → g y = f x) :
    Option.Rel R (xs.find? f) (ys.find? g) := by
  induction h with
  | nil => exact .none
  | @cons x y _ _ head _ ih =>
    rw [List.find?_cons, List.find?_cons, hfg x y head]
    cases f x with
    | true => exact .some head
    | false => exact ih

/-- The first child in a field is the first part in it, at its place. -/
theorem IsAt.child? {source : String} {n : Node} (h : IsAt source p n) (field : NodeField) :
    Option.Rel (IsAt source) (p.child? field) (n.child? field) :=
  rel_find? h.children fun _ _ hq => by rw [hq.field_eq]

/-- The child in a field, if the phrase has such a part. -/
theorem IsAt.exists_child? {source : String} {n : Node} {field : NodeField} (hat : IsAt source p n)
    (h : p.child? field = some q) : ∃ m, n.child? field = some m ∧ IsAt source q m := by
  have hrel := hat.child? field
  rw [h] at hrel
  generalize n.child? field = m at hrel
  cases hrel with
  | some hm => exact ⟨_, rfl, hm⟩

/-- A test that no comment passes can be made on the other parts. -/
theorem find?_parts {ps : List Phrase} {t : Phrase → Bool}
    (h : ∀ q ∈ ps, q.kind = .comment → t q = false) : (parts ps).find? t = ps.find? t := by
  induction ps with
  | nil => rfl
  | cons q ps ih =>
    rw [List.forall_mem_cons] at h
    rw [parts, List.filter_cons, List.find?_cons]
    by_cases hcomment : q.kind = .comment
    · rw [if_neg (by simp [isComment, hcomment]), h.1 hcomment]
      exact ih h.2
    · rw [if_pos (by simp [isComment, hcomment]), List.find?_cons]
      split
      · rfl
      · exact ih h.2

/-- Comments play no part, so the first part in a field is found among the others. -/
theorem Follows.child?_eq (h : p.Follows) (field : NodeField) :
    p.child? field = (parts p.children).find? fun q => q.field == some field := by
  refine (find?_parts fun q hq hcomment => ?_).symm
  rw [((h.of_mem_children hq).isRemark hcomment).2]
  rfl

/-! ## Lines -/

theorem isNamed_of_isTerminator {kind : NodeKind} (h : kind.isTerminator = true) :
    kind.isNamed = false := by
  cases kind <;> first | rfl | cases h

/-- A line and what ends it. -/
def IsLine (isKind : NodeKind → Bool) (piece : List Phrase) : Prop :=
  ∃ line ending, piece = [line, ending] ∧ isKind line.kind = true ∧ ending.kind.isTerminator = true

/-- Lines are pieces of a line and what ends it, and perhaps a last line. -/
theorem exists_lines {field : Option NodeField} {isKind : NodeKind → Bool} {ps : List Phrase}
    (h : (NodeKind.lines (.part field isKind)).Derives ps) :
    ∃ (pieces : List (List Phrase)) (last : List Phrase), ps = pieces.flatten ++ last ∧
      (∀ piece ∈ pieces, IsLine isKind piece) ∧
        (last = [] ∨ ∃ line, last = [line] ∧ isKind line.kind = true) := by
  obtain ⟨_, last, rfl, ⟨pieces, rfl, hpieces⟩, hlast⟩ := h
  refine ⟨pieces, last, rfl, fun piece hpiece => ?_, ?_⟩
  · obtain ⟨_, _, rfl, ⟨line, rfl, -, hline⟩, ending, rfl, -, hending⟩ := hpieces piece hpiece
    exact ⟨line, ending, rfl, hline, hending⟩
  · rcases hlast with ⟨line, rfl, -, hline⟩ | rfl
    · exact Or.inr ⟨line, rfl, hline⟩
    · exact Or.inl rfl

/-! ## Declarations -/

theorem isNamed_of_isSpec {kind : NodeKind} (h : kind.isSpec = true) : kind.isNamed = true := by
  cases kind <;> first | rfl | cases h

/-- A type declaration has one declaration behind the word `type`, or several between parentheses.
-/
theorem Follows.typeDeclaration (h : p.Follows) (hp : p.kind = .typeDeclaration) :
    ∃ word, word.kind = .symbol "type" ∧
      ((∃ spec, parts p.children = [word, spec] ∧ spec.kind.isSpec = true) ∨
        ∃ (opening : Phrase) (pieces : List (List Phrase)) (closing : Phrase),
          parts p.children = word :: opening :: (pieces.flatten ++ [closing]) ∧
            opening.kind = .symbol "(" ∧ closing.kind = .symbol ")" ∧
            ∀ piece ∈ pieces, IsLine NodeKind.isSpec piece) := by
  have hderives := h.derives (by rw [hp]; rfl)
  obtain ⟨_, _, hparts, ⟨word, rfl, -, hword⟩, hrest⟩ := hderives
  refine ⟨word, eq_of_beq hword, ?_⟩
  rcases hrest with ⟨spec, rfl, -, hspec⟩ | ⟨_, _, rfl, ⟨opening, rfl, -, hopening⟩, _, _, rfl,
    ⟨pieces, rfl, hpieces⟩, _, _, rfl, ⟨closing, rfl, -, hclosing⟩, rfl⟩
  · exact Or.inl ⟨spec, hparts, hspec⟩
  · refine Or.inr ⟨opening, pieces, closing, hparts, eq_of_beq hopening, eq_of_beq hclosing,
      fun piece hpiece => ?_⟩
    obtain ⟨_, _, rfl, ⟨spec, rfl, -, hspec⟩, ending, rfl, -, hending⟩ := hpieces piece hpiece
    exact ⟨spec, ending, rfl, hspec, hending⟩

/-- A declaration of one type has a name in front and a type at its end. -/
theorem Follows.spec (h : p.Follows) (hp : p.kind.isSpec = true) :
    ∃ name more type, parts p.children = name :: (more ++ [type]) ∧
      name.field = some .name ∧ name.kind = .typeIdentifier ∧
      (∀ q ∈ more, q.field ≠ some .name ∧ q.field ≠ some .type) ∧
      type.field = some .type ∧ type.kind.isType = true := by
  have hhead : ∀ {ps : List Phrase}, NodeKind.headRule.Derives ps →
      ∃ name more, ps = name :: more ∧ name.field = some .name ∧ name.kind = .typeIdentifier ∧
        ∀ q ∈ more, q.field ≠ some .name ∧ q.field ≠ some .type := by
    rintro _ ⟨_, more, rfl, ⟨name, rfl, hname, hkind⟩, ⟨params, rfl, hparams, -⟩ | rfl⟩
    · refine ⟨name, [params], rfl, hname, eq_of_beq hkind, ?_⟩
      rw [List.forall_mem_singleton, hparams]
      exact ⟨nofun, nofun⟩
    · exact ⟨name, [], rfl, hname, eq_of_beq hkind, List.forall_mem_nil _⟩
  cases hkind : p.kind with
  | typeSpec =>
    obtain ⟨_, _, hparts, hfront, type, rfl, htype, hisType⟩ :
      (Rule.both NodeKind.headRule NodeKind.typeRule).Derives _ := h.derives (by rw [hkind]; rfl)
    obtain ⟨name, more, rfl, hname, hword, hmore⟩ := hhead hfront
    exact ⟨name, more, type, hparts, hname, hword, hmore, htype, hisType⟩
  | typeAlias =>
    obtain ⟨_, _, hparts, hfront, _, _, rfl, ⟨mark, rfl, hmark, -⟩, _, _, rfl,
      ⟨type, rfl, htype, hisType⟩, rfl⟩ :
      (Rule.inOrder [NodeKind.headRule, Rule.mark "=", NodeKind.typeRule]).Derives _ :=
        h.derives (by rw [hkind]; rfl)
    obtain ⟨name, more, rfl, hname, hword, hmore⟩ := hhead hfront
    refine ⟨name, more ++ [mark], type, ?_, hname, hword, ?_, htype, hisType⟩
    · rw [hparts]
      simp
    · rw [List.forall_mem_append, List.forall_mem_singleton, hmark]
      exact ⟨hmore, nofun, nofun⟩
  | _ =>
    rw [hkind] at hp
    cases hp

/-- A declaration of one type has a name that is a word. -/
theorem Follows.child?_name (h : p.Follows) (hp : p.kind.isSpec = true) :
    ∃ name, p.child? .name = some name ∧ name.Follows ∧ name.kind = .typeIdentifier := by
  obtain ⟨name, more, type, hparts, hname, hkind, -⟩ := h.spec hp
  refine ⟨name, ?_, h.of_mem_children (mem_parts_iff.mp (hparts ▸ List.mem_cons_self)).1, hkind⟩
  rw [h.child?_eq, hparts, List.find?_cons, hname]
  rfl

/-- A declaration of one type has a type. -/
theorem Follows.child?_type (h : p.Follows) (hp : p.kind.isSpec = true) :
    ∃ type, p.child? .type = some type ∧ type.Follows ∧ type.kind.isType = true := by
  obtain ⟨name, more, type, hparts, hname, -, hmore, htype, hisType⟩ := h.spec hp
  have hmem : type ∈ parts p.children := by
    rw [hparts]
    simp
  refine ⟨type, ?_, h.of_mem_children (mem_parts_iff.mp hmem).1, hisType⟩
  have hnone : more.find? (fun q => q.field == some NodeField.type) = none :=
    List.find?_eq_none.mpr fun q hq => by simpa using (hmore q hq).2
  rw [h.child?_eq, hparts, List.find?_cons_of_neg (by simp [hname]), List.find?_append, hnone]
  simp [htype]

/-! ## Types -/

theorem isNamed_of_isType {kind : NodeKind} (h : kind.isType = true) : kind.isNamed = true := by
  cases kind <;> first | rfl | cases h

/-- A name with a package is made of a package and a name. -/
theorem Follows.qualifiedType (h : p.Follows) (hp : p.kind = .qualifiedType) :
    ∃ package dot name, parts p.children = [package, dot, name] ∧
      package.field = some .package ∧ dot.field = none ∧ name.field = some .name := by
  have hderives := h.derives (by rw [hp]; rfl)
  obtain ⟨_, _, hparts, ⟨package, rfl, hpackage, -⟩, _, _, rfl, ⟨dot, rfl, hdot, -⟩, _, _, rfl,
    ⟨name, rfl, hname, -⟩, rfl⟩ := hderives
  exact ⟨package, dot, name, hparts, hpackage, hdot, hname⟩

/-! ## Interfaces -/

/-- The named parts of an interface are methods and sets of types. -/
theorem Follows.interfaceType (h : p.Follows) (hp : p.kind = .interfaceType) (hq : q ∈ p.children)
    (hnamed : q.kind.isNamed = true) (hcomment : q.kind ≠ .comment) :
    q.kind = .methodElem ∨ q.kind = .typeElem := by
  have hderives := h.derives (by rw [hp]; rfl)
  obtain ⟨_, _, hparts, ⟨word, rfl, -, hword⟩, _, _, rfl, ⟨opening, rfl, -, hopening⟩, _, _, rfl,
    hlines, _, _, rfl, ⟨closing, rfl, -, hclosing⟩, rfl⟩ := hderives
  obtain ⟨pieces, last, rfl, hpieces, hlast⟩ := exists_lines hlines
  have hmark : ∀ {r : Phrase} {mark : String}, (r.kind == .symbol mark) = true → q ≠ r := by
    rintro r mark hr rfl
    rw [eq_of_beq hr] at hnamed
    cases hnamed
  have hline : ∀ kind : NodeKind, (kind == .methodElem || kind == .typeElem) = true →
      kind = .methodElem ∨ kind = .typeElem := fun kind hkind => by simpa using hkind
  have hmem := mem_parts_iff.mpr ⟨hq, hcomment⟩
  rw [hparts] at hmem
  simp only [List.mem_append, List.mem_singleton, List.mem_flatten, List.append_nil] at hmem
  rcases hmem with hmem | hmem | (⟨piece, hpiece, hmem⟩ | hmem) | hmem
  · exact absurd hmem (hmark hword)
  · exact absurd hmem (hmark hopening)
  · obtain ⟨line, ending, rfl, hkind, hending⟩ := hpieces piece hpiece
    rw [List.mem_cons, List.mem_singleton] at hmem
    rcases hmem with rfl | rfl
    · exact hline _ hkind
    · rw [isNamed_of_isTerminator hending] at hnamed
      cases hnamed
  · rcases hlast with rfl | ⟨line, rfl, hkind⟩
    · cases hmem
    · rw [List.mem_singleton.mp hmem]
      exact hline _ hkind
  · exact absurd hmem (hmark hclosing)

/-- A method has a name, parameters and perhaps a result. -/
theorem Follows.methodElem (h : p.Follows) (hp : p.kind = .methodElem) :
    ∃ name params results, parts p.children = name :: params :: results ∧ name.field = some .name ∧
      params.field = some .parameters ∧ params.kind = .parameterList ∧
      ∀ r ∈ results, r.field = some .result := by
  have hderives := h.derives (by rw [hp]; rfl)
  obtain ⟨_, _, hparts, ⟨name, rfl, hname, -⟩, _, _, rfl, ⟨params, rfl, hfield, hkind⟩, results, _,
    rfl, hresults, rfl⟩ := hderives
  refine ⟨name, params, results, ?_, hname, hfield, eq_of_beq hkind, ?_⟩
  · rw [hparts, List.append_nil]
    rfl
  · rcases hresults with ⟨r, rfl, hr, -⟩ | rfl
    · exact List.forall_mem_singleton.mpr hr
    · exact List.forall_mem_nil _

/-- The parameters of a method are a list. -/
theorem Follows.parameters (h : p.Follows) (hp : p.kind = .methodElem)
    (hq : q ∈ p.children) (hfield : q.field = some .parameters) : q.kind = .parameterList := by
  obtain ⟨name, params, results, hparts, hname, -, hparams, hresults⟩ := h.methodElem hp
  have hremark : q.kind ≠ .comment := fun hremark => by
    have hnone := (h.of_mem_children hq).isRemark hremark
    rw [hnone.2] at hfield
    cases hfield
  have hmem := mem_parts_iff.mpr ⟨hq, hremark⟩
  rw [hparts, List.mem_cons, List.mem_cons] at hmem
  rcases hmem with rfl | rfl | hmem
  · rw [hname] at hfield
    cases hfield
  · exact hparams
  · rw [hresults q hmem] at hfield
    cases hfield

/-- A set of types is a type and further types behind bars. -/
theorem Follows.typeElem (h : p.Follows) (hp : p.kind = .typeElem) :
    ∃ (first : Phrase) (more : List (List Phrase)),
      parts p.children = first :: more.flatten ∧
      first.kind.isType = true ∧
      ∀ piece ∈ more, ∃ bar term, piece = [bar, term] ∧ bar.kind = .symbol "|" ∧
        term.kind.isType = true := by
  have hderives := h.derives (by rw [hp]; rfl)
  obtain ⟨_, _, hparts, ⟨first, rfl, -, hfirst⟩, more, rfl, hmore⟩ := hderives
  refine ⟨first, more, hparts, hfirst, fun piece hpiece => ?_⟩
  obtain ⟨_, _, rfl, ⟨bar, rfl, -, hbar⟩, term, rfl, -, hterm⟩ := hmore piece hpiece
  exact ⟨bar, term, rfl, eq_of_beq hbar, hterm⟩

end GoAtlas.Phrase
