import GoAtlas.Proofs.Printing.Structured

/-!
# Printed types are read back

The node that a printed type becomes stands for the type, with its parts at the places at which they
were printed (`TypeExpr.type_phrase`). The proof is an induction over types and the types in their
bodies, with one law for each thing that is printed: names, lines of structs, parameters, results,
and lines of interfaces.

The laws speak of a text that holds what is printed behind some place; what stands around it does
not matter.
-/

namespace GoAtlas

namespace Phrase

variable {source unit : String} {s : Place} {p : Phrase} {n : Node}

/-! ## Parts of printed phrases -/

/-- No part is in a field. -/
theorem find?_placeAll_eq_none {part : NodeField} {ps : List Phrase}
    (h : ∀ q ∈ ps, q.field ≠ some part) (s : Place) :
    (placeAll s ps).find? (fun child => child.field == some part) = none := by
  induction ps generalizing s with
  | nil => rfl
  | cons q ps ih =>
    rw [List.forall_mem_cons] at h
    rw [placeAll, List.find?_cons_of_neg (by simpa using h.1), ih h.2]

/-- The part in a field, at its place behind the parts in front of it. -/
theorem child?_place {kind : NodeKind} {field : Option NodeField} {front back : List Phrase}
    {part : NodeField} (hfront : ∀ q ∈ front, q.field ≠ some part) (hp : p.field = some part)
    (s : Place) :
    ((node kind field (front ++ p :: back)).place s).child? part =
      some (p.place (s.advance (charsOfList front))) := by
  rw [Node.child?, children_place, children, placeAll_append, List.find?_append,
    find?_placeAll_eq_none hfront, placeAll, List.find?_cons_of_pos (by simpa using hp)]
  rfl

/-- The texts of the children in a field are those of the parts in it. -/
theorem IsAt.texts (h : IsAt source p n) (part : NodeField) :
    (n.childrenOf part).map ({ source, unit } : Lowering).text =
      (p.children.filter (·.field == some part)).map text := by
  have hlists : List.Forall₂ (IsAt source) (p.children.filter (·.field == some part))
      (n.childrenOf part) :=
    List.rel_filter (fun _ _ hq => by simp only [hq.field_eq]) h.children
  exact map_eq_of_forall₂_mem hlists fun _ _ _ hq => hq.text_eq unit

/-- The text of the first child in a field is that of the first part in it. -/
theorem IsAt.text? (h : IsAt source p n) (part : NodeField) :
    (n.child? part).map ({ source, unit } : Lowering).text =
      (p.children.find? (·.field == some part)).map text := by
  have hrel := h.child? part
  rw [Phrase.child?] at hrel
  generalize p.children.find? _ = a at hrel ⊢
  generalize n.child? part = b at hrel ⊢
  cases hrel with
  | none => rfl
  | some hq => rw [Option.map_some, Option.map_some, hq.text_eq]

/-- A node has a child of a kind if its phrase has such a part. -/
theorem IsAt.any_kind (h : IsAt source p n) (kind : NodeKind) :
    n.children.any (·.kind == kind) = p.children.any (·.kind == kind) := by
  have hchildren := h.children
  generalize p.children = ps at hchildren ⊢
  generalize n.children = ns at hchildren ⊢
  induction hchildren with
  | nil => rfl
  | cons head _ ih => rw [List.any_cons, List.any_cons, head.kind_eq, ih]

@[simp]
theorem kind_within (part : NodeField) (p : Phrase) : (p.within part).kind = p.kind := by
  cases p <;> rfl

@[simp]
theorem field_within (part : NodeField) (p : Phrase) : (p.within part).field = some part := by
  cases p <;> rfl

@[simp]
theorem text_within (part : NodeField) (p : Phrase) : (p.within part).text = p.text := by
  cases p <;> rfl

/-! ## Names -/

/-- Names are found in their field. -/
theorem texts_names (kind : NodeKind) (gap : String) (ns : List String) :
    ((names kind gap ns).filter (·.field == some .name)).map text = ns := by
  cases ns with
  | nil => rfl
  | cons first more =>
    rw [names, List.filter_cons_of_pos rfl, List.map_cons, text_leaf]
    congr 1
    induction more with
    | nil => rfl
    | cons name more ih =>
      rw [List.flatMap_cons, List.filter_append, List.map_append, ih]
      simp [mark, field]

/-- Names and the commas between them play no other part. -/
theorem field_of_mem_names {kind : NodeKind} {gap : String} {ns : List String} {q : Phrase}
    (h : q ∈ names kind gap ns) : q.field = some .name ∨ q.field = none := by
  cases ns with
  | nil => cases h
  | cons first more =>
    rw [names, List.mem_cons, List.mem_flatMap] at h
    rcases h with rfl | ⟨name, -, hq⟩
    · exact Or.inl rfl
    · rw [List.mem_cons, List.mem_singleton] at hq
      rcases hq with rfl | rfl
      · exact Or.inr rfl
      · exact Or.inl rfl

/-- Names behind a gap are written as the gap and the names. -/
theorem charsOfList_names (kind : NodeKind) (gap : String) {ns : List String} (h : ns ≠ []) :
    charsOfList (names kind gap ns) = gap.toList ++ charsOfList (names kind "" ns) := by
  cases ns with
  | nil => exact absurd rfl h
  | cons first more =>
    simp only [names, charsOfList, chars, List.append_assoc]
    rfl

/-! ## Bodies -/

/-- The place behind the opening brace of a body, seen from the word in front of it. -/
theorem advance_opening (s : Place) (gap word : String) :
    (s.advance (mark gap word).chars).advance " \x7b".toList =
      (s.advance gap.toList).advance (word ++ " \x7b").toList := by
  simp only [mark, chars, String.toList_append, Place.advance_append]

/-- A test that no mark passes selects the lines of a body, behind its opening brace. -/
theorem filter_braces {t : Node → Bool} (ht : ∀ n text, n.kind = .symbol text → t n = false)
    (depth : Nat) (lines : List Phrase) (s : Place) :
    (placeAll s (braces depth lines)).filter t =
      (placeAll (s.advance " \x7b".toList) lines).filter t := by
  have hmark : ∀ gap text s, t ((mark gap text).place s) = false := fun gap text s =>
    ht _ text (kind_place ..)
  cases lines with
  | nil => simp [braces, placeAll, hmark]
  | cons line lines =>
    have hbraces : braces depth (line :: lines) =
        mark " " "\x7b" :: (line :: lines ++ [mark (tabs depth) "\x7d"]) := rfl
    have hclosing : ∀ s, (placeAll s [mark (tabs depth) "\x7d"]).filter t = [] := fun s => by
      simp [placeAll, hmark]
    rw [hbraces, placeAll, List.filter_cons_of_neg (by rw [hmark]; exact Bool.false_ne_true),
      placeAll_append, List.filter_append, hclosing, List.append_nil]
    rfl

/-- A text that holds a body holds its lines behind the opening brace, if there are any. -/
theorem holdsAt_braces {depth : Nat} {lines : List Phrase}
    (h : HoldsAt source s (charsOfList (braces depth lines))) :
    lines = [] ∨ HoldsAt source (s.advance " \x7b".toList) (charsOfList lines) := by
  cases lines with
  | nil => exact Or.inl rfl
  | cons line lines =>
    have hbraces : braces depth (line :: lines) =
        mark " " "\x7b" :: (line :: lines ++ [mark (tabs depth) "\x7d"]) := rfl
    rw [hbraces, charsOfList, charsOfList_append] at h
    exact Or.inr h.right.left

end Phrase

open Phrase

section Lowered

variable {literal : String → Phrase} {source unit : String} {s : Place} {depth : Nat}
  {gap : String}

/-! ## Names of types -/

theorem TypeExpr.kind_namePhrase {t : TypeExpr} (h : t.isTypeName = true)
    (field : Option NodeField) (gap : String) :
    (t.namePhrase field gap).kind.isTypeName = true ∧ (t.namePhrase field gap).field = field := by
  cases t with
  | named package name => cases package <;> exact ⟨rfl, rfl⟩
  | predeclared => exact ⟨rfl, rfl⟩
  | pointer | struct | interface | verbatim | missing => cases h

/-- A printed name stands for itself. -/
theorem TypeExpr.type_namePhrase {t : TypeExpr} (h : t.isTypeName = true)
    (field : Option NodeField) (hholds : HoldsAt source s (t.namePhrase field gap).chars) :
    ({ source, unit } : Lowering).type ((t.namePhrase field gap).place s) = t := by
  have hat : IsAt source (t.namePhrase field gap) ((t.namePhrase field gap).place s) :=
    ⟨s, rfl, hholds⟩
  have hkind := hat.kind_eq
  rw [Lowering.type_eq, Lowering.typeWith, hkind]
  cases t with
  | named package name =>
    cases package with
    | none =>
      have hplain : Vocabulary.isPredeclared name = false := by
        simp only [isTypeName, isDeclaredName, Bool.and_eq_true, Bool.not_eq_true'] at h
        exact h.2
      have htext := hat.text_eq unit
      rw [namePhrase, text_leaf] at htext
      simp only [namePhrase, Phrase.kind, htext, Lowering.typeOfName, hplain]
      rfl
    | some package =>
      have hpackage := (@IsAt.text? source unit _ _ hat .package).trans
        (congrArg some (text_leaf .packageIdentifier (some .package) gap package))
      have hname := (@IsAt.text? source unit _ _ hat .name).trans
        (congrArg some (text_leaf .typeIdentifier (some .name) "" name))
      dsimp only [namePhrase, Phrase.kind] at hpackage hname ⊢
      generalize Node.child? .package _ = a at hpackage ⊢
      generalize Node.child? .name _ = b at hname ⊢
      cases a with
      | none => cases hpackage
      | some a =>
        cases b with
        | none => cases hname
        | some b =>
          rw [Option.map_some, Option.some_inj] at hpackage hname
          dsimp only
          rw [hpackage, hname]
  | predeclared name =>
    have hpredeclared : Vocabulary.isPredeclared name = true := h
    have htext := hat.text_eq unit
    rw [namePhrase, text_leaf] at htext
    simp only [namePhrase, Phrase.kind, htext, Lowering.typeOfName, hpredeclared, if_true]
  | pointer | struct | interface | verbatim | missing => cases h

theorem TypeExpr.gap_namePhrase {t : TypeExpr} (h : t.isTypeName = true)
    (field : Option NodeField) (gap : String) : (t.namePhrase field gap).gap = gap := by
  cases t with
  | named package name => cases package <;> rfl
  | predeclared => rfl
  | pointer | struct | interface | verbatim | missing => cases h

theorem TypeExpr.isAbsent_namePhrase {t : TypeExpr} (h : t.isTypeName = true)
    (field : Option NodeField) (gap : String) : (t.namePhrase field gap).isAbsent = false := by
  cases t with
  | named package name => cases package <;> rfl
  | predeclared => rfl
  | pointer | struct | interface | verbatim | missing => cases h

theorem TypeExpr.placed_of_isFlat {t : TypeExpr} (h : t.isFlat = true) (depth : Nat) (s : Place) :
    t.placed literal unit depth s = t := by
  cases t with
  | struct | interface => cases h
  | named | predeclared | pointer | verbatim | missing => rfl

theorem TypeExpr.isFlat_of_isTypeName {t : TypeExpr} (h : t.isTypeName = true) :
    t.isFlat = true := by
  cases t with
  | named | predeclared => rfl
  | pointer | struct | interface | verbatim | missing => cases h

/-! ## What is proved of types -/

/-- The phrase of a string literal has the text of the literal, and is neither a mark nor a word. -/
def CutsLiterals (literal : String → Phrase) : Prop :=
  ∀ text, Lexeme.isStringLiteral text = true →
    (literal text).text = text ∧ (literal text).kind.isNamed = true

/-- What is said of a type: wherever it is printed, it is read back with its parts at their places.
-/
def TypeExpr.IsReadBack (literal : String → Phrase) (source unit : String) (t : TypeExpr) : Prop :=
  ∀ field depth gap s, HoldsAt source s (t.phrase literal field depth gap).chars →
    ({ source, unit } : Lowering).type ((t.phrase literal field depth gap).place s) =
      t.placed literal unit depth (s.advance gap.toList)

/-- A printed type plays the part that it is given, and is there. -/
theorem TypeExpr.field_phrase {t : TypeExpr} (h : t.isStructured = true)
    (field : Option NodeField) (depth : Nat) (gap : String) :
    (t.phrase literal field depth gap).field = field ∧
      (t.phrase literal field depth gap).isAbsent = false := by
  cases t with
  | named package name => cases package <;> exact ⟨rfl, rfl⟩
  | predeclared | pointer | struct | interface => exact ⟨rfl, rfl⟩
  | verbatim | missing => cases h

/-! ## Lines of structs -/

/-- The tag of a line, which is the only part of it in its field. -/
theorem Phrase.texts_tag (hliteral : CutsLiterals literal) {tag : Option String}
    (htag : tag.all Lexeme.isStringLiteral = true) {front : List Phrase}
    (hfront : ∀ q ∈ front, q.field ≠ some .tag) :
    ((front ++ Phrase.tag literal tag).find? (·.field == some .tag)).map text = tag := by
  have hnone : front.find? (·.field == some NodeField.tag) = none :=
    List.find?_eq_none.mpr fun q hq => by simpa using hfront q hq
  rw [List.find?_append, hnone, Option.none_or]
  cases tag with
  | none => rfl
  | some value =>
    rw [Phrase.tag, Option.toList_some, List.map_singleton, List.find?_cons_of_pos (by simp),
      Option.map_some, text_within, text_withGap, (hliteral value htag).1]

/-- A tag is named and plays no other part. -/
theorem Phrase.of_mem_tag (hliteral : CutsLiterals literal) {tag : Option String}
    (htag : tag.all Lexeme.isStringLiteral = true) {q : Phrase} (hq : q ∈ Phrase.tag literal tag) :
    q.field = some .tag ∧ q.kind.isNamed = true := by
  cases tag with
  | none => cases hq
  | some value =>
    obtain rfl := List.mem_singleton.mp hq
    rw [field_within, kind_within, kind_withGap]
    exact ⟨rfl, (hliteral value htag).2⟩

/-- What stands in front of a type: names, and perhaps a mark. -/
def Phrase.namesAndMark (kind : NodeKind) (text gap : String) (ns : List String) (behind : String)
    (isMarked : Bool) : List Phrase :=
  names kind gap ns ++ if isMarked then [mark behind text] else []

/-- What stands in front of the type in a line of a struct: names, or perhaps a star. -/
def Phrase.lineFront (gap : String) (ns : List String) (starGap : String) (star : Bool) :
    List Phrase :=
  namesAndMark .fieldIdentifier "*" gap ns starGap star

/-- A line of a struct: what stands in front of its type, the type, and perhaps a tag. -/
def Phrase.structLine (literal : String → Phrase) (front : List Phrase) (type : Phrase)
    (tag : Option String) : Phrase :=
  node .fieldDeclaration none (front ++ type :: Phrase.tag literal tag)

section Front

variable {kind : NodeKind} {sign : String} {ns : List String} {behind : String} {isMarked : Bool}

/-- Nothing in front of a type is in another field than that of names. -/
theorem Phrase.field_of_mem_namesAndMark {part : NodeField} (hpart : part ≠ .name) :
    ∀ q ∈ namesAndMark kind sign gap ns behind isMarked, q.field ≠ some part := by
  intro q hq
  have hfield : q.field = some .name ∨ q.field = none := by
    rcases List.mem_append.mp hq with hq | hq
    · exact field_of_mem_names hq
    · cases isMarked with
      | false => cases hq
      | true => exact Or.inr (by rw [List.mem_singleton.mp hq]; rfl)
  rcases hfield with h | h
  · rw [h]
    exact fun heq => hpart (Option.some_inj.mp heq).symm
  · rw [h]
    nofun

theorem Phrase.texts_namesAndMark :
    ((namesAndMark kind sign gap ns behind isMarked).filter (·.field == some .name)).map text =
      ns := by
  rw [namesAndMark, List.filter_append, List.map_append, texts_names]
  cases isMarked <;> exact List.append_nil ns

theorem Phrase.any_star_lineFront :
    (lineFront gap ns behind isMarked).any (·.kind == .symbol "*") = isMarked := by
  have hnames : (names .fieldIdentifier gap ns).any (·.kind == .symbol "*") = false := by
    cases ns with
    | nil => rfl
    | cons first more => simp [names, mark, Phrase.kind]
  rw [lineFront, namesAndMark, List.any_append, hnames]
  cases isMarked <;> rfl

end Front

section Lines

variable {ns : List String} {starGap : String} {star : Bool}

theorem NodeKind.isNamed_of_isTypeName {kind : NodeKind} (h : kind.isTypeName = true) :
    kind.isNamed = true := by
  cases kind <;> first | rfl | cases h

/-- A printed type is of a kind that can stand where a type is asked for. -/
theorem TypeExpr.isType_phrase {t : TypeExpr} (h : t.isStructured = true)
    (field : Option NodeField) (depth : Nat) (gap : String) :
    (t.phrase literal field depth gap).kind.isType = true := by
  cases t with
  | named package name => cases package <;> rfl
  | predeclared | pointer | struct | interface => rfl
  | verbatim | missing => cases h

/-- What is read off a line of a struct. -/
theorem Lowering.field_line (hliteral : CutsLiterals literal) {p : Phrase} {tag : Option String}
    {type : TypeExpr} (hfield : p.field = some .type) (hpresent : p.isAbsent = false)
    (hnamed : p.kind.isNamed = true) (htag : tag.all Lexeme.isStringLiteral = true)
    (hholds : HoldsAt source s (structLine literal (lineFront gap ns starGap star) p tag).chars)
    (htype : ({ source, unit } : Lowering).type
      (p.place (s.advance (charsOfList (lineFront gap ns starGap star)))) = type) :
    ({ source, unit } : Lowering).field ({ source, unit } : Lowering).type
        ((structLine literal (lineFront gap ns starGap star) p tag).place s) =
      { names := ns, type := if ns.isEmpty && star then .pointer type else type, tag
        position := (s.advance
          (structLine literal (lineFront gap ns starGap star) p tag).gap.toList).position unit } := by
  have hat : IsAt source (structLine literal (lineFront gap ns starGap star) p tag)
    ((structLine literal (lineFront gap ns starGap star) p tag).place s) := ⟨s, rfl, hholds⟩
  have hfront : ∀ part, part ≠ .name → ∀ q ∈ lineFront gap ns starGap star,
      q.field ≠ some part := fun _ hpart => field_of_mem_namesAndMark hpart
  have htags : ∀ q ∈ Phrase.tag literal tag, q.field = some .tag ∧ q.kind.isNamed = true :=
    fun q hq => of_mem_tag hliteral htag hq
  have hchild := @child?_place p .fieldDeclaration none (lineFront gap ns starGap star)
    (Phrase.tag literal tag) .type (hfront .type (by decide)) hfield s
  have hnames : ((structLine literal (lineFront gap ns starGap star) p tag).children.filter
      (·.field == some .name)).map Phrase.text = ns := by
    have hnone : (p :: Phrase.tag literal tag).filter (·.field == some NodeField.name) = [] := by
      rw [List.filter_eq_nil_iff, List.forall_mem_cons, hfield]
      exact ⟨by simp, fun q hq => by rw [(htags q hq).1]; simp⟩
    rw [structLine, children, List.filter_append, hnone, List.append_nil, lineFront,
      texts_namesAndMark]
  have htagText : ((structLine literal (lineFront gap ns starGap star) p tag).children.find?
      (·.field == some .tag)).map Phrase.text = tag := by
    have hsplit : lineFront gap ns starGap star ++ p :: Phrase.tag literal tag =
        (lineFront gap ns starGap star ++ [p]) ++ Phrase.tag literal tag := by simp
    rw [structLine, children, hsplit]
    refine texts_tag hliteral htag ?_
    rw [List.forall_mem_append, List.forall_mem_singleton, hfield]
    exact ⟨hfront .tag (by decide), by decide⟩
  have hstar : (structLine literal (lineFront gap ns starGap star) p tag).children.any
      (·.kind == .symbol "*") = star := by
    have hnone : (p :: Phrase.tag literal tag).any (·.kind == .symbol "*") = false := by
      rw [List.any_eq_false, List.forall_mem_cons]
      have hmark : ∀ {kind : NodeKind}, kind.isNamed = true → ¬ (kind == .symbol "*") = true := by
        intro kind hkind heq
        rw [eq_of_beq heq] at hkind
        cases hkind
      exact ⟨hmark hnamed, fun q hq => hmark (htags q hq).2⟩
    rw [structLine, children, List.any_append, hnone, any_star_lineFront, Bool.or_false]
  rw [Lowering.field, hat.texts, hnames, hat.text?, htagText, hat.any_kind, hstar,
    Lowering.fieldType, structLine, hchild]
  dsimp only
  rw [isMissing_place, hpresent, if_neg Bool.false_ne_true, htype, Lowering.position, start_place]

theorem Phrase.holdsAt_structLine {front : List Phrase} {p : Phrase} {tag : Option String}
    (h : HoldsAt source s (structLine literal front p tag).chars) :
    HoldsAt source (s.advance (charsOfList front)) p.chars := by
  rw [structLine, chars, charsOfList_append, charsOfList] at h
  exact h.right.left

/-- **A line of a struct** is read back. -/
theorem FieldDecl.field_phrase (hliteral : CutsLiterals literal) {f : FieldDecl}
    (hf : f.isStructured = true) (hread : f.type.IsReadBack literal source unit)
    (hholds : HoldsAt source s (f.phrase literal depth gap).chars) :
    ({ source, unit } : Lowering).field ({ source, unit } : Lowering).type
        ((f.phrase literal depth gap).place s) =
      f.placed literal unit depth (s.advance gap.toList) := by
  obtain ⟨ns, type, tag, position⟩ := f
  simp only [isStructured, Bool.and_eq_true, Bool.or_eq_true, Bool.not_eq_true'] at hf
  obtain ⟨⟨⟨-, hflat⟩, htype⟩, htag⟩ := hf
  cases ns with
  | nil =>
    rcases TypeExpr.isTypeName_or_pointer htype (hflat.resolve_left (by decide)) with hname | hpointer
    · -- a name is embedded
      have hphrase : FieldDecl.phrase literal depth gap ⟨[], type, tag, position⟩ =
          structLine literal (lineFront "" [] "" false) (type.namePhrase (some .type) gap) tag := by
        cases type with
        | named | predeclared => rfl
        | pointer | struct | interface | verbatim | missing => cases hname
      obtain ⟨hkind, hfield⟩ := TypeExpr.kind_namePhrase hname (some .type) gap
      rw [hphrase] at hholds ⊢
      rw [Lowering.field_line hliteral hfield (TypeExpr.isAbsent_namePhrase hname _ _)
        (NodeKind.isNamed_of_isTypeName hkind) htag hholds
        (TypeExpr.type_namePhrase hname _ hholds.left), placed,
        TypeExpr.placed_of_isFlat (TypeExpr.isFlat_of_isTypeName hname)]
      have hgap := TypeExpr.gap_namePhrase hname (some .type) gap
      exact congrArg (fun g : String => FieldDecl.mk [] type tag ((s.advance g.toList).position unit))
        hgap
    · -- a pointer to a name is embedded
      obtain ⟨target, rfl, hname⟩ := hpointer
      have hphrase : FieldDecl.phrase literal depth gap ⟨[], .pointer target, tag, position⟩ =
          structLine literal (lineFront "" [] gap true) (target.namePhrase (some .type) "") tag := rfl
      obtain ⟨hkind, hfield⟩ := TypeExpr.kind_namePhrase hname (some .type) ""
      rw [hphrase] at hholds ⊢
      rw [Lowering.field_line hliteral hfield (TypeExpr.isAbsent_namePhrase hname _ _)
        (NodeKind.isNamed_of_isTypeName hkind) htag hholds
        (TypeExpr.type_namePhrase hname _ (holdsAt_structLine hholds)), placed,
        TypeExpr.placed_of_isFlat rfl]
      rfl
  | cons first more =>
    -- the type follows names
    have hphrase : FieldDecl.phrase literal depth gap ⟨first :: more, type, tag, position⟩ =
        structLine literal (lineFront gap (first :: more) "" false)
          (type.phrase literal (some .type) depth " ") tag := by
      rw [phrase, if_neg (by simp), structLine, lineFront, namesAndMark,
        if_neg Bool.false_ne_true, List.append_nil, List.append_assoc, List.singleton_append]
    have hchars : charsOfList (lineFront gap (first :: more) "" false) =
        gap.toList ++ charsOfList (Phrase.names .fieldIdentifier "" (first :: more)) := by
      rw [lineFront, namesAndMark, if_neg Bool.false_ne_true, List.append_nil,
        charsOfList_names _ _ (List.cons_ne_nil first more)]
    obtain ⟨hfield, hpresent⟩ := @TypeExpr.field_phrase literal type htype (some .type) depth " "
    rw [hphrase] at hholds ⊢
    rw [Lowering.field_line hliteral hfield hpresent
      (isNamed_of_isType (TypeExpr.isType_phrase htype _ _ _)) htag
      hholds (hread _ _ _ _ (holdsAt_structLine hholds)), placed, hchars, Place.advance_append,
      ← Place.advance_append _ _ " ".toList]
    rfl

end Lines

theorem FieldDecl.kind_phrase (f : FieldDecl) (depth : Nat) (gap : String) :
    (f.phrase literal depth gap).kind = .fieldDeclaration := by
  cases f
  rfl

/-- **The lines of a struct** are read back. -/
theorem FieldDecl.fields_phrases (hliteral : CutsLiterals literal) {fields : List FieldDecl}
    (hfields : ∀ f ∈ fields, f.isStructured = true)
    (hread : ∀ f ∈ fields, f.type.IsReadBack literal source unit)
    (hholds : HoldsAt source s (charsOfList (FieldDecl.phrases literal depth gap fields))) :
    ((placeAll s (FieldDecl.phrases literal depth gap fields)).filter
        (·.kind == .fieldDeclaration)).map
        (({ source, unit } : Lowering).field ({ source, unit } : Lowering).type) =
      FieldDecl.placedList literal unit depth gap s fields := by
  induction fields generalizing gap s with
  | nil => rfl
  | cons f fields ih =>
    rw [List.forall_mem_cons] at hfields hread
    rw [phrases, charsOfList, charsOfList] at hholds
    have hkind : ((f.phrase literal depth gap).place s).kind = .fieldDeclaration := by
      rw [kind_place, kind_phrase]
    rw [phrases, placeAll, placeAll, List.filter_cons_of_pos (by simpa using hkind),
      List.filter_cons_of_neg (by simp [newline, Phrase.kind]), List.map_cons, placedList,
      field_phrase hliteral hfields.1 hread.1 hholds.left,
      ih hfields.2 hread.2 hholds.right.right, ← Place.advance_append]
    rw [charsOfList, charsOfList, charsOfList, List.append_nil]

/-- The body of a struct is read back. -/
theorem FieldDecl.fields_braces (hliteral : CutsLiterals literal) {fields : List FieldDecl}
    (hfields : ∀ f ∈ fields, f.isStructured = true)
    (hread : ∀ f ∈ fields, f.type.IsReadBack literal source unit)
    (hholds : HoldsAt source s (charsOfList (braces depth
      (FieldDecl.phrases literal (depth + 1) (firstGap (depth + 1)) fields)))) :
    ((placeAll s (braces depth (FieldDecl.phrases literal (depth + 1) (firstGap (depth + 1))
        fields))).filter (·.kind == .fieldDeclaration)).map
        (({ source, unit } : Lowering).field ({ source, unit } : Lowering).type) =
      FieldDecl.placedList literal unit (depth + 1) (firstGap (depth + 1))
        (s.advance " \x7b".toList) fields := by
  rw [filter_braces fun n text hn => by rw [hn]; rfl]
  rcases holdsAt_braces hholds with hnil | hlines
  · cases fields with
    | nil => rfl
    | cons => rw [FieldDecl.phrases] at hnil; cases hnil
  · exact fields_phrases hliteral hfields hread hlines

/-! ## Parameters -/

/-- **Parameters that share a type** are read back. -/
theorem Param.paramOf?_phrase {p : Param} (hp : p.isStructured = true)
    (hread : p.type.IsReadBack literal source unit)
    (hholds : HoldsAt source s (p.phrase literal depth gap).chars) :
    ({ source, unit } : Lowering).paramOf? ({ source, unit } : Lowering).type
        ((p.phrase literal depth gap).place s) =
      some (p.placed literal unit depth (s.advance gap.toList)) := by
  obtain ⟨ns, type, variadic⟩ := p
  have htype := isStructured_type hp
  let kind := if variadic then NodeKind.variadicParameterDeclaration else .parameterDeclaration
  let front := namesAndMark .identifier "..." gap ns (gapBehind ns gap) variadic
  let typeGap := if variadic then "" else gapBehind ns gap
  have hphrase : Param.phrase literal depth gap ⟨ns, type, variadic⟩ =
      node kind none (front ++ [type.phrase literal (some .type) depth typeGap]) := by
    cases variadic with
    | false => simp [phrase, kind, front, typeGap, namesAndMark]
    | true => simp [phrase, kind, front, typeGap, namesAndMark]
  have hchars : charsOfList front ++ typeGap.toList =
      gap.toList ++ (charsOfList (Phrase.names .identifier "" ns) ++
        ((gapBehind ns "").toList ++ if variadic then ['.', '.', '.'] else [])) := by
    have hmark : ∀ behind, (mark behind "...").chars = behind.toList ++ ['.', '.', '.'] :=
      fun _ => rfl
    cases ns with
    | nil => cases variadic <;> simp [front, typeGap, namesAndMark, Phrase.names, gapBehind, hmark,
        charsOfList]
    | cons first more =>
      have hnames := charsOfList_names .identifier gap (List.cons_ne_nil first more)
      cases variadic <;> simp [front, typeGap, namesAndMark, gapBehind, hmark, hnames,
        charsOfList_append, charsOfList]
  obtain ⟨hfield, hpresent⟩ := @TypeExpr.field_phrase literal type htype (some .type) depth typeGap
  rw [hphrase] at hholds ⊢
  have hat : IsAt source (node kind none (front ++ [type.phrase literal (some .type) depth typeGap]))
    ((node kind none (front ++ [type.phrase literal (some .type) depth typeGap])).place s) :=
      ⟨s, rfl, hholds⟩
  have hchild := @child?_place _ kind none front [] .type (field_of_mem_namesAndMark nofun) hfield s
  have hnames : ((node kind none (front ++ [type.phrase literal (some .type) depth
      typeGap])).children.filter (·.field == some .name)).map Phrase.text = ns := by
    rw [children, List.filter_append, List.filter_singleton, hfield, List.map_append,
      texts_namesAndMark]
    exact List.append_nil ns
  have hpart : HoldsAt source (s.advance (charsOfList front))
      (type.phrase literal (some .type) depth typeGap).chars := by
    rw [chars, charsOfList_append, charsOfList] at hholds
    exact hholds.right.left
  have hparam : ({ source, unit } : Lowering).param? ({ source, unit } : Lowering).type variadic
      ((node kind none (front ++ [type.phrase literal (some .type) depth typeGap])).place s) =
        some (Param.placed literal unit depth (s.advance gap.toList) ⟨ns, type, variadic⟩) := by
    rw [Lowering.param?, hat.texts, hnames, hchild, Option.map_some, hread _ _ _ _ hpart,
      ← Place.advance_append, hchars, Place.advance_append, placed]
  rw [Lowering.paramOf?, kind_place]
  cases variadic with
  | false => exact hparam
  | true => exact hparam

theorem Param.isNamed_phrase (p : Param) (depth : Nat) (gap : String) :
    (p.phrase literal depth gap).kind.isNamed = true := by
  obtain ⟨names, type, variadic⟩ := p
  cases variadic <;> rfl

/-- **A list of parameters** is read back. -/
theorem Param.entries_phrases {ps : List Param} (hps : ∀ p ∈ ps, p.isStructured = true)
    (hread : ∀ p ∈ ps, p.type.IsReadBack literal source unit)
    (hholds : HoldsAt source s (charsOfList (Param.phrases literal depth gap ps))) :
    ((placeAll s (Param.phrases literal depth gap ps)).filter Node.isNamed).filterMap
        (({ source, unit } : Lowering).paramOf? ({ source, unit } : Lowering).type) =
      Param.placedList literal unit depth gap s ps := by
  induction ps generalizing gap s with
  | nil => rfl
  | cons p ps ih =>
    rw [List.forall_mem_cons] at hps hread
    rw [phrases, charsOfList, charsOfList_append] at hholds
    have hcomma : ∀ t, (placeAll t (commaBefore ps)).filter Node.isNamed = [] := fun t => by
      cases ps <;> rfl
    have hnamed : ((p.phrase literal depth gap).place s).isNamed = true := by
      rw [Node.isNamed, kind_place, isNamed_phrase]
    rw [phrases, placeAll, placeAll_append, List.filter_cons_of_pos hnamed, List.filter_append,
      hcomma, List.nil_append, List.filterMap_cons_some (paramOf?_phrase hps.1 hread.1 hholds.left),
      ih hps.2 hread.2 hholds.right.right, placedList, ← Place.advance_append]
    rfl

/-- The entries of a list in parentheses. -/
theorem Lowering.params_parameters (l : Lowering) (field : NodeField) (gap : String)
    (ps : List Phrase) (s : Place) :
    l.params l.type ((parameters field gap ps).place s) =
      ((placeAll (s.advance (gap.toList ++ ['('])) ps).filter Node.isNamed).filterMap
        (l.paramOf? l.type) := by
  have hmark : ∀ gap text s, ((mark gap text).place s).isNamed = false := fun _ _ _ => rfl
  rw [params, Node.namedChildren, children_place, parameters, children, placeAll,
    List.filter_cons_of_neg (by rw [hmark]; exact Bool.false_ne_true), placeAll_append,
    List.filter_append, placeAll, List.filter_cons_of_neg (by rw [hmark]; exact Bool.false_ne_true),
    placeAll, List.filter_nil, List.append_nil]
  rfl

/-! ## Methods -/

section Methods

variable {front : List Phrase}

/-- A method that has nothing behind its parameters has no results. -/
theorem Lowering.results_nil (hfront : ∀ q ∈ front, q.field ≠ some .result) :
    ({ source, unit } : Lowering).results ({ source, unit } : Lowering).type
      ((node .methodElem none front).place s) = [] := by
  have hnone : ((node .methodElem none front).place s).child? .result = none := by
    rw [Node.child?, children_place, children, find?_placeAll_eq_none hfront]
  rw [Lowering.results, hnone]

/-- One result that is only a type is read back. -/
theorem Lowering.results_lone {type : TypeExpr} (hfront : ∀ q ∈ front, q.field ≠ some .result)
    (htype : type.isStructured = true) (hread : type.IsReadBack literal source unit)
    (hholds : HoldsAt source (s.advance (charsOfList front))
      (type.phrase literal (some .result) depth " ").chars) :
    ({ source, unit } : Lowering).results ({ source, unit } : Lowering).type
        ((node .methodElem none (front ++ [type.phrase literal (some .result) depth " "])).place s) =
      [⟨[], type.placed literal unit depth ((s.advance (charsOfList front)).advance [' ']),
        false⟩] := by
  obtain ⟨hfield, -⟩ := @TypeExpr.field_phrase literal type htype (some .result) depth " "
  have hchild := @child?_place _ .methodElem none front [] .result hfront hfield s
  have hkind : (type.phrase literal (some .result) depth " ").kind ≠ .parameterList := by
    intro heq
    have hisType := @TypeExpr.isType_phrase literal type htype (some .result) depth " "
    rw [heq] at hisType
    cases hisType
  rw [Lowering.results, hchild]
  dsimp only
  rw [kind_place, if_neg hkind, hread _ _ _ _ hholds]
  rfl

/-- A list of parameters is written between its parentheses, behind its gap. -/
theorem Phrase.chars_parameters (field : NodeField) (gap : String) (entries : List Phrase) :
    (parameters field gap entries).chars =
      (gap.toList ++ ['(']) ++ (charsOfList entries ++ [')']) := by
  rw [parameters, chars, charsOfList, charsOfList_append]
  rfl

/-- Results in parentheses are read back. -/
theorem Lowering.results_listed {rs : List Param} (hfront : ∀ q ∈ front, q.field ≠ some .result)
    (hrs : ∀ p ∈ rs, p.isStructured = true)
    (hread : ∀ p ∈ rs, p.type.IsReadBack literal source unit)
    (hholds : HoldsAt source (s.advance (charsOfList front))
      (parameters .result " " (Param.phrases literal depth "" rs)).chars) :
    ({ source, unit } : Lowering).results ({ source, unit } : Lowering).type
        ((node .methodElem none
          (front ++ [parameters .result " " (Param.phrases literal depth "" rs)])).place s) =
      Param.placedList literal unit depth "" ((s.advance (charsOfList front)).advance [' ', '('])
        rs := by
  have hchild := @child?_place (parameters .result " " (Param.phrases literal depth "" rs))
    .methodElem none front [] .result hfront rfl s
  rw [chars_parameters] at hholds
  rw [Lowering.results, hchild]
  dsimp only
  rw [kind_place, parameters, if_pos (show (node .parameterList _ _).kind = .parameterList from rfl),
    ← parameters, Lowering.params_parameters]
  exact Param.entries_phrases hrs hread hholds.right.left

/-- Results without parentheses are none, or one that is only a type. -/
theorem Param.eq_of_areBare {rs : List Param} (h : areBare rs = true) :
    rs = [] ∨ ∃ type, rs = [⟨[], type, false⟩] := by
  cases rs with
  | nil => exact Or.inl rfl
  | cons r rs =>
    obtain ⟨ns, type, variadic⟩ := r
    cases rs with
    | nil =>
      obtain ⟨rfl, rfl⟩ : ns = [] ∧ variadic = false := by simpa [areBare] using h
      exact Or.inr ⟨type, rfl⟩
    | cons => cases h

/-- The results of a method are read back, in parentheses or without. -/
theorem Lowering.results_phrases {rs : List Param}
    (hfront : ∀ q ∈ front, q.field ≠ some .result) (hrs : ∀ p ∈ rs, p.isStructured = true)
    (hread : ∀ p ∈ rs, p.type.IsReadBack literal source unit)
    (hholds : HoldsAt source s (charsOfList (front ++
      if Param.areBare rs then Param.barePhrases literal depth rs
      else [parameters .result " " (Param.phrases literal depth "" rs)]))) :
    ({ source, unit } : Lowering).results ({ source, unit } : Lowering).type
        ((node .methodElem none (front ++
          if Param.areBare rs then Param.barePhrases literal depth rs
          else [parameters .result " " (Param.phrases literal depth "" rs)])).place s) =
      if Param.areBare rs then
        Param.placedBare literal unit depth ((s.advance (charsOfList front)).advance [' ']) rs
      else Param.placedList literal unit depth ""
        ((s.advance (charsOfList front)).advance [' ', '(']) rs := by
  rw [charsOfList_append] at hholds
  by_cases hbare : Param.areBare rs = true
  · rw [if_pos hbare] at hholds ⊢
    rw [if_pos hbare]
    rcases Param.eq_of_areBare hbare with rfl | ⟨type, rfl⟩
    · rw [Param.barePhrases, List.append_nil, results_nil hfront, Param.placedBare]
    · have htype := Param.isStructured_type (hrs _ (List.mem_singleton_self _))
      exact results_lone hfront htype (hread _ (List.mem_singleton_self _)) hholds.right.left
  · rw [if_neg hbare] at hholds ⊢
    rw [if_neg hbare]
    exact results_listed hfront hrs hread hholds.right.left

/-- What stands in front of the results of a method: its name and its parameters. -/
def Phrase.methodFront (literal : String → Phrase) (depth : Nat) (gap name : String)
    (params : List Param) : List Phrase :=
  [leaf .fieldIdentifier (some .name) gap name,
    parameters .parameters "" (Param.phrases literal depth "" params)]

/-- What is read off a method: its name, its parameters and its results. -/
theorem Lowering.method?_line {name : String} {params results : List Param} {back : List Phrase}
    (hparams : ∀ p ∈ params, p.isStructured = true)
    (hread : ∀ p ∈ params, p.type.IsReadBack literal source unit)
    (hholds : HoldsAt source s
      (node .methodElem none (methodFront literal depth gap name params ++ back)).chars)
    (hresults : ({ source, unit } : Lowering).results ({ source, unit } : Lowering).type
      ((node .methodElem none (methodFront literal depth gap name params ++ back)).place s) =
        results) :
    ({ source, unit } : Lowering).method? ({ source, unit } : Lowering).type
        ((node .methodElem none (methodFront literal depth gap name params ++ back)).place s) =
      some (.method name
        (Param.placedList literal unit depth ""
          ((s.advance gap.toList).advance (name.toList ++ ['('])) params)
        results ((s.advance gap.toList).position unit)) := by
  let head := leaf .fieldIdentifier (some .name) gap name
  let list := parameters .parameters "" (Param.phrases literal depth "" params)
  have hat : IsAt source (node .methodElem none (methodFront literal depth gap name params ++ back))
    ((node .methodElem none (methodFront literal depth gap name params ++ back)).place s) :=
      ⟨s, rfl, hholds⟩
  obtain ⟨m, hm, htext⟩ := Option.map_eq_some_iff.mp
    ((@IsAt.text? source unit _ _ hat .name).trans
      (congrArg some (text_leaf .fieldIdentifier (some .name) gap name)))
  have hlist : ((node .methodElem none (methodFront literal depth gap name params ++ back)).place
      s).child? .parameters = some (list.place (s.advance (charsOfList [head]))) :=
    @child?_place list .methodElem none [head] back .parameters (List.forall_mem_singleton.mpr nofun)
      rfl s
  have hinner : (s.advance (charsOfList [head])).advance ("".toList ++ ['(']) =
      (s.advance gap.toList).advance (name.toList ++ ['(']) := by
    simp [head, charsOfList, chars, Place.advance_append]
  have hposition : ((node .methodElem none (methodFront literal depth gap name params ++ back)).place
      s).start = s.advance gap.toList := start_place ..
  have hentries : HoldsAt source ((s.advance (charsOfList [head])).advance ("".toList ++ ['(']))
      (charsOfList (Param.phrases literal depth "" params)) := by
    have hcut : methodFront literal depth gap name params ++ back = [head] ++ (list :: back) := rfl
    rw [chars, hcut, charsOfList_append, charsOfList.eq_def (list :: back)] at hholds
    exact (chars_parameters .parameters "" _ ▸ hholds.right.left).right.left
  rw [Lowering.method?, hm, Option.map_some, htext, hlist, Option.elim_some,
    Lowering.params_parameters, Param.entries_phrases hparams hread hentries, hinner, hresults,
    Lowering.position, hposition]

end Methods

/-! ## Lines of interfaces -/

/-- An embedded name is read back. -/
theorem Element.element?_embed {type : TypeExpr} (h : type.isDeclaredName = true)
    (hholds : HoldsAt source s ((Element.embed type).phrase literal depth gap).chars) :
    ({ source, unit } : Lowering).element? ({ source, unit } : Lowering).type
      (((Element.embed type).phrase literal depth gap).place s) = some (.embed type) := by
  have hname : type.isTypeName = true := by
    cases type with
    | named => exact h
    | predeclared | pointer | struct | interface | verbatim | missing => cases h
  have hnamed := NodeKind.isNamed_of_isTypeName (TypeExpr.kind_namePhrase hname none gap).1
  have hterm : (((Element.embed type).phrase literal depth gap).place s).namedChildren =
      [(type.namePhrase none gap).place s] := by
    rw [Node.namedChildren, children_place, phrase, children, placeAll, placeAll,
      List.filter_cons_of_pos (by rw [Node.isNamed, kind_place, hnamed]), List.filter_nil]
  rw [phrase, chars, charsOfList, charsOfList, List.append_nil] at hholds
  have htype := @TypeExpr.type_namePhrase _ unit _ _ _ hname none hholds
  rw [Lowering.element?, kind_place]
  dsimp only [phrase, Phrase.kind]
  rw [← phrase, Lowering.typeElement, hterm]
  dsimp only
  rw [htype]
  cases type with
  | named => rfl
  | predeclared | pointer | struct | interface | verbatim | missing => cases h

/-- **A line of an interface** is read back. -/
theorem Element.element?_phrase {e : Element} (he : e.isStructured = true)
    (hread : ∀ t ∈ e.types, t.IsReadBack literal source unit)
    (hholds : HoldsAt source s (e.phrase literal depth gap).chars) :
    ({ source, unit } : Lowering).element? ({ source, unit } : Lowering).type
        ((e.phrase literal depth gap).place s) =
      some (e.placed literal unit depth (s.advance gap.toList)) := by
  cases e with
  | method name params results position =>
    simp only [isStructured, Bool.and_eq_true, Param.areStructured_eq_all, List.all_eq_true] at he
    obtain ⟨⟨⟨-, hparams⟩, -⟩, hresults⟩ := he
    have htypes : ∀ p ∈ params ++ results, p.type.IsReadBack literal source unit :=
      fun p hp => hread _ (List.mem_map_of_mem hp)
    rw [List.forall_mem_append] at htypes
    have hphrase : Element.phrase literal depth gap (.method name params results position) =
        node .methodElem none (methodFront literal depth gap name params ++
          if Param.areBare results then Param.barePhrases literal depth results
          else [parameters .result " " (Param.phrases literal depth "" results)]) := by
      rw [phrase]
      rfl
    have hfront : ∀ q ∈ methodFront literal depth gap name params, q.field ≠ some .result := by
      simp [methodFront, parameters, field]
    have hbehind : s.advance (charsOfList (methodFront literal depth gap name params)) =
        (s.advance gap.toList).advance (name.toList ++
          (parameters .parameters "" (Param.phrases literal depth "" params)).chars) := by
      simp [methodFront, charsOfList, chars, Place.advance_append]
    rw [hphrase] at hholds ⊢
    have hmore := Lowering.results_phrases hfront hresults htypes.2 hholds
    rw [hbehind] at hmore
    rw [Lowering.element?, kind_place]
    exact Lowering.method?_line hparams htypes.1 hholds hmore
  | embed type => exact element?_embed he hholds
  | constraint => cases he

theorem Element.isNamed_phrase (e : Element) (depth : Nat) (gap : String) :
    (e.phrase literal depth gap).kind.isNamed = true := by
  cases e <;> rfl

/-- **The lines of an interface** are read back. -/
theorem Element.elements_phrases {es : List Element} (hes : ∀ e ∈ es, e.isStructured = true)
    (hread : ∀ e ∈ es, ∀ t ∈ e.types, t.IsReadBack literal source unit)
    (hholds : HoldsAt source s (charsOfList (Element.phrases literal depth gap es))) :
    ((placeAll s (Element.phrases literal depth gap es)).filter Node.isNamed).filterMap
        (({ source, unit } : Lowering).element? ({ source, unit } : Lowering).type) =
      Element.placedList literal unit depth gap s es := by
  induction es generalizing gap s with
  | nil => rfl
  | cons e es ih =>
    rw [List.forall_mem_cons] at hes hread
    rw [phrases, charsOfList, charsOfList] at hholds
    have hnamed : ((e.phrase literal depth gap).place s).isNamed = true := by
      rw [Node.isNamed, kind_place, isNamed_phrase]
    have hfeed : ∀ t, ¬ (newline.place t).isNamed = true := fun _ => Bool.false_ne_true
    rw [phrases, placeAll, placeAll, List.filter_cons_of_pos hnamed,
      List.filter_cons_of_neg (hfeed _),
      List.filterMap_cons_some (element?_phrase hes.1 hread.1 hholds.left),
      ih hes.2 hread.2 hholds.right.right, placedList, ← Place.advance_append]
    rw [charsOfList, charsOfList, charsOfList, List.append_nil]

/-- The body of an interface is read back. -/
theorem Element.elements_braces {es : List Element} (hes : ∀ e ∈ es, e.isStructured = true)
    (hread : ∀ e ∈ es, ∀ t ∈ e.types, t.IsReadBack literal source unit)
    (hholds : HoldsAt source s (charsOfList (braces depth
      (Element.phrases literal (depth + 1) (firstGap (depth + 1)) es)))) :
    ((placeAll s (braces depth (Element.phrases literal (depth + 1) (firstGap (depth + 1))
        es))).filter Node.isNamed).filterMap
        (({ source, unit } : Lowering).element? ({ source, unit } : Lowering).type) =
      Element.placedList literal unit (depth + 1) (firstGap (depth + 1))
        (s.advance " \x7b".toList) es := by
  rw [filter_braces fun n text hn => by rw [Node.isNamed, hn]; rfl]
  rcases holdsAt_braces hholds with hnil | hlines
  · cases es with
    | nil => rfl
    | cons => rw [Element.phrases] at hnil; cases hnil
  · exact elements_phrases hes hread hlines

/-! ## Types -/

/-- **A printed type is read back**, with its parts at their places. -/
theorem TypeExpr.type_phrase (hliteral : CutsLiterals literal) (t : TypeExpr)
    (h : t.isStructured = true) : t.IsReadBack literal source unit := by
  induction t using nestedInduction with
  | named package name =>
    have hname : (named package name).isTypeName = true := h
    exact fun field _ _ _ => type_namePhrase hname field
  | predeclared name =>
    have hname : (predeclared name).isTypeName = true := h
    exact fun field _ _ _ => type_namePhrase hname field
  | pointer target =>
    intro field depth gap s hholds
    obtain ⟨hkind, -⟩ := kind_namePhrase h none ""
    have htarget : (((TypeExpr.pointer target).phrase literal field depth gap).place
        s).namedChildren.head? =
          some ((target.namePhrase none "").place (s.advance (mark gap "*").chars)) := by
      have hnamed := NodeKind.isNamed_of_isTypeName hkind
      rw [Node.namedChildren, children_place, phrase, children, placeAll, placeAll,
        List.filter_cons_of_neg (by exact Bool.false_ne_true),
        List.filter_cons_of_pos (by rw [Node.isNamed, kind_place, hnamed]), List.head?_cons]
    rw [phrase, chars, charsOfList, charsOfList] at hholds
    rw [Lowering.type_eq, Lowering.typeWith, kind_place]
    dsimp only [phrase, Phrase.kind]
    rw [← phrase, htarget]
    dsimp only
    rw [kind_place, if_pos hkind, type_namePhrase h none hholds.right.left]
    rfl
  | struct fields ih =>
    intro field depth gap s hholds
    rw [isStructured, FieldDecl.areStructured_eq_all, List.all_eq_true] at h
    have hread : ∀ f ∈ fields, f.type.IsReadBack literal source unit :=
      fun f hf => ih f hf (FieldDecl.isStructured_type (h f hf))
    let lines := FieldDecl.phrases literal (depth + 1) (firstGap (depth + 1)) fields
    have hlist : ((TypeExpr.phrase literal field depth gap (.struct fields)).place
        s).children.find? (·.kind == .fieldDeclarationList) =
          some ((node .fieldDeclarationList none (braces depth lines)).place
            (s.advance (mark gap "struct").chars)) := by
      rw [children_place, phrase, children, placeAll, placeAll,
        List.find?_cons_of_neg (by exact Bool.false_ne_true), List.find?_cons_of_pos (by rfl)]
    rw [phrase, chars, charsOfList, charsOfList] at hholds
    have hlines := FieldDecl.fields_braces hliteral h hread hholds.right.left
    have hopening : "struct" ++ " \x7b" = "struct \x7b" := rfl
    rw [advance_opening, hopening] at hlines
    rw [Lowering.type_eq, Lowering.typeWith, kind_place]
    dsimp only [phrase, Phrase.kind]
    rw [← phrase, Lowering.fields, hlist]
    dsimp only
    rw [children_place, children, hlines, placed]
  | interface elements ih =>
    intro field depth gap s hholds
    rw [isStructured, Element.areStructured_eq_all, List.all_eq_true] at h
    have hread : ∀ e ∈ elements, ∀ t ∈ e.types, t.IsReadBack literal source unit :=
      fun e he t ht => ih e he t ht (Element.isStructured_of_mem_types (h e he) ht)
    rw [phrase, chars, charsOfList] at hholds
    have hlines := Element.elements_braces h hread hholds.right
    have hopening : "interface" ++ " \x7b" = "interface \x7b" := rfl
    rw [advance_opening, hopening] at hlines
    rw [Lowering.type_eq, Lowering.typeWith, kind_place]
    dsimp only [phrase, Phrase.kind]
    rw [← phrase, Lowering.elements, Node.namedChildren, children_place, phrase, children, placeAll,
      List.filter_cons_of_neg (by exact Bool.false_ne_true), hlines, placed]
  | verbatim | missing => cases h

end Lowered

end GoAtlas
