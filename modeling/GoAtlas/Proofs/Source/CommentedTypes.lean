import GoAtlas.Proofs.Source.AddedComments
import GoAtlas.Proofs.Source.Certificates
import GoAtlas.Proofs.Source.Entries

/-!
# Comments in declared types

A unit that declares one type, and the unit with one comment more between two tokens of that type: a
parser that reads both as they are written gives types that are the same up to places and up to the
texts that types are kept as, unless the comment is the first thing named behind the star of a
pointer or behind an opening parenthesis. Then that one pointer, or that one type in parentheses, is
kept as text, and all around it stays the same (`SourceUnit.outlines_declaring`).

No comment is left out by this: between any two parts of a phrase it is of the one sort or of the
other (`Phrase.exists_addsComment`).
-/

namespace GoAtlas

namespace Phrase

/-! ## Texts of units -/

/-- A unit that declares a type under a name, behind other lines. -/
def declaring (preface : List Phrase) (name : String) (type : Phrase) : List Phrase :=
  onLines preface ++
    [node .typeDeclaration none
      [leaf (.symbol "type") none "" "type",
        node .typeSpec none [leaf .typeIdentifier (some .name) " " name, type]],
      newline]

variable {preface : List Phrase} {p q p' : Phrase}

/-- Between any two parts of a phrase a comment can be added, and the phrase is read as some phrase
then. -/
theorem exists_addsComment (remark : Phrase) (kind : NodeKind) (field : Option NodeField)
    {front back : List Phrase} (hfront : front ≠ []) (hback : back ≠ []) (gap : String) :
    ∃ q, AddsComment remark (node kind field (front ++ back)) q
      (node kind field (front ++ remark :: withGapOfList gap back)) := by
  by_cases hlater : kind.picksFirst = true → ∃ p ∈ front, p.kind.isNamed = true
  · exact ⟨_, .between hfront hback hlater⟩
  · rw [Classical.not_imp] at hlater
    refine ⟨_, .first hfront hback hlater.1 fun p hp => ?_⟩
    exact Bool.eq_false_iff.mpr fun hnamed => hlater.2 ⟨p, hp, hnamed⟩

/-- A comment is not added to the name of a type, which has no parts. -/
theorem AddsComment.kind_ne_typeIdentifier {remark : Phrase} (h : AddsComment remark p q p')
    (hp : p.Follows) : p.kind ≠ .typeIdentifier := by
  have hnode : ∀ {kind : NodeKind} {field : Option NodeField} {children : List Phrase},
      (node kind field children).Follows → kind ≠ .typeIdentifier := by
    rintro kind field children hfollows rfl
    rw [Follows] at hfollows
    simp [NodeKind.isWord] at hfollows
  cases h <;> exact hnode hp

end Phrase

open Phrase

namespace SourceUnit

/-- The types that the declarations of a unit have. -/
def types (u : SourceUnit) : List TypeExpr :=
  u.specs.filterMap TypeSpec.type

variable {parse : String → Node} {preface : List Phrase} {name : String} {remark p q p' : Phrase}

/-- A unit that declares one type has the type that stands at the place of its phrase. -/
theorem types_declaring (hpreface : NoItems preface) (hfield : p.field = some .type)
    (hpresent : p.isAbsent = false) (herror : p.kind ≠ .error)
    (hreads : ReadsAs parse (declaring preface name p)) (unit : String) :
    ∃ n, IsAt (write (declaring preface name p)) p n ∧
      (ofTree unit (write (declaring preface name p))
        (parse (write (declaring preface name p)))).types =
          [({ source := write (declaring preface name p), unit } : Lowering).type n] := by
  have hholds := holdsAt_write (declaring preface name p)
  generalize hsource : write (declaring preface name p) = source at hreads hholds ⊢
  rw [declaring, charsOfList_append] at hholds
  rw [ReadsAs, hsource, declaring, placeAll_append] at hreads
  have hlast := forall₂_placeAll hholds.right
  rw [ofTree, types, specs, Lowering.items_eq, hreads]
  dsimp only
  rw [Lowering.itemsBehind_append, Lowering.itemsBehind_eq_nil (hpreface.onLines.placeAll _),
    List.nil_append]
  generalize Phrase.placeAll _ [_, newline] = ns at hlast ⊢
  -- the declaration, its two parts, and the two parts of the second
  obtain ⟨n, nl, rfl, hn, hnl⟩ := forall₂_pair hlast
  obtain ⟨word, m, hchildren, hword, hm⟩ := forall₂_pair hn.children
  obtain ⟨title, t, hparts, htitle, ht⟩ := forall₂_pair hm.children
  refine ⟨t, ht, ?_⟩
  have hmissing : t.isMissing = false := ht.isMissing_eq_isAbsent.trans hpresent
  have hkind : t.kind ≠ .error := ht.kind_eq ▸ herror
  have htitleField : title.field = some .name := htitle.field_eq
  have htypeField : t.field = some .type := ht.field_eq.trans hfield
  have htype : m.child? .type = some t := by
    simp [Node.child?, hparts, htitleField, htypeField]
  rw [Lowering.itemsBehind_cons, Lowering.itemsBehind_cons,
    Lowering.item?_single hn.kind_eq hchildren hword.kind_eq (by rw [hm.kind_eq]; rfl),
    Lowering.item?_symbol hnl.kind_eq]
  simp [Lowering.itemsBehind, Node.withElders, Item.specs, Lowering.spec, htype, hmissing, hkind]

/-- **One comment more in a declared type.** A unit declares a type, and a comment is added between
two tokens of it. When a parser reads both units as they are written, the first declares the type
that its phrase stands for, and the second what the phrase `q` stands for, as which it is read: the
same type, unless the comment comes before all that is named in a pointer or in a type in
parentheses, which is emptied in `q` and so kept as text. All this is up to places and to the texts
that types are kept as. -/
theorem outlines_declaring (hpreface : NoItems preface) (hremark : remark.IsRemark)
    (hp : p.Follows) (hfield : p.field = some .type) (hadds : AddsComment remark p q p')
    (hplain : ReadsAs parse (declaring preface name p))
    (hcommented : ReadsAs parse (declaring preface name p')) (unit : String) :
    (ofTree unit (write (declaring preface name p))
        (parse (write (declaring preface name p)))).types.map TypeExpr.outline =
      [p.type.outline] ∧
    (ofTree unit (write (declaring preface name p'))
        (parse (write (declaring preface name p')))).types.map TypeExpr.outline =
      [q.type.outline] := by
  have hpresent : p.isAbsent = false := by
    cases p with
    | absent => cases hp
    | leaf | node => rfl
  obtain ⟨n, hn, htypes⟩ := types_declaring hpreface hfield hpresent hp.kind_ne_error hplain unit
  obtain ⟨n', hn', htypes'⟩ := types_declaring hpreface (hadds.field_eq.2.trans hfield)
    hadds.isAbsent_eq.2 (by rw [hadds.kind_eq.2]; exact hp.kind_ne_error) hcommented unit
  have htoken : p.isToken = false := by
    rw [isToken, hfield, Bool.or_eq_false_iff]
    exact ⟨beq_false_of_ne (hadds.kind_ne_typeIdentifier hp), rfl⟩
  rw [htypes, htypes', List.map_singleton, List.map_singleton]
  refine ⟨?_, ?_⟩
  · exact congrArg (fun t => [t]) ((SameButGap.refl hp).sketch_type hn _ unit)
  · exact congrArg (fun t => [t]) ((isLikeness_readAs hremark).sketch_type
      (Or.inr ⟨p, hp, htoken, hadds⟩) (isAt_alone q) hn' "" unit)

/-! ## An example -/

/-- A struct with one field, whose type is a pointer made of some phrases. -/
def owner (pointer : List Phrase) : Phrase :=
  node .structType (some .type)
    [leaf (.symbol "struct") none " " "struct",
      node .fieldDeclarationList none
        [leaf (.symbol "\x7b") none " " "\x7b",
          node .fieldDeclaration none
            [leaf .fieldIdentifier (some .name) " " "next", node .pointerType (some .type) pointer],
          leaf (.symbol "\x7d") none " " "\x7d"]]

/-- A star, and a name behind it. -/
def star : Phrase := leaf (.symbol "*") none " " "*"

def target : Phrase := leaf .typeIdentifier none " " "Node"

def aside : Phrase := leaf .comment none " " "/* the next one */"

theorem outlines_declaring_owner :
    AddsComment aside (owner [star, target]) (owner []) (owner [star, aside, target]) ∧
    (owner [star, target]).type.outline =
      .struct [⟨["next"], .pointer (.named none "Node"), none, default⟩] ∧
    (owner []).type.outline = .struct [⟨["next"], .verbatim "", none, default⟩] ∧
    (ofText "a.go" (write (declaring [SourceText.clause] "T" (owner [star, target])))).types.map
        TypeExpr.outline = [(owner [star, target]).type.outline] ∧
    (ofText "a.go" (write (declaring [SourceText.clause] "T" (owner [star, aside, target])))).types.map
        TypeExpr.outline = [(owner []).type.outline] := by
  have hadds : AddsComment aside (owner [star, target]) (owner []) (owner [star, aside, target]) := by
    refine @AddsComment.inside _ _ _ [_] [] _ _ _ rfl ?_
    refine @AddsComment.inside _ _ _ [_] [_] _ _ _ rfl ?_
    refine @AddsComment.inside _ _ _ [_] [] _ _ _ rfl ?_
    exact @AddsComment.first _ _ _ [star] [target] " " nofun nofun rfl (by decide)
  have hplain : ReadsAs SourceText.tree (declaring [SourceText.clause] "T" (owner [star, target])) :=
    SourceText.readsAs_tree (by decide +kernel) (by decide +kernel)
  have hcommented :
      ReadsAs SourceText.tree (declaring [SourceText.clause] "T" (owner [star, aside, target])) :=
    SourceText.readsAs_tree (by decide +kernel) (by decide +kernel)
  have hreads := outlines_declaring (by decide) ⟨rfl, rfl⟩ (by decide +kernel) rfl hadds hplain
    hcommented "a.go"
  exact ⟨hadds, by decide +kernel, by decide +kernel, hreads⟩

/-- **A comment behind a parenthesis or a star** makes text of a type that is a name or a pointer to
one without it. -/
theorem types_declaring_behind :
    (ofText "t.go" "package p\n\ntype T (X)\n").types = [.named none "X"] ∧
    (ofText "t.go" "package p\n\ntype T (/* c */ X)\n").types = [.verbatim "/* c */"] ∧
    (ofText "t.go" "package p\n\ntype T *X\n").types = [.pointer (.named none "X")] ∧
    (ofText "t.go" "package p\n\ntype T * /* c */ X\n").types = [.verbatim "* /* c */ X"] := by
  decide +kernel

end SourceUnit

end GoAtlas
