import GoAtlas.Proofs.Printing.Types
import GoAtlas.Proofs.Source.Certificates

/-!
# Printed units are read back

Structured declarations, printed one by one or in groups, each under its doc and with a blank line
between any two items, are read back as they were printed: the same items, each at the place at
which it was printed (`SourceUnit.ofTree_print`). This is so for every parser that reads the printed
text as the phrases that it was written from.

A declaration under its doc is an entry, so what is known of entries gives the docs; the types are
read back by `TypeExpr.type_phrase`. Behind each item a fresh row starts, which carries the
induction over the items.
-/

namespace GoAtlas

open Phrase

/-! ## Docs -/

/-- Pieces with the separator between them are the list again. -/
theorem Text.intercalate_pieces {α : Type} [DecidableEq α] (separator : α) (cs : List α) :
    [separator].intercalate (pieces separator cs) = cs := by
  induction cs with
  | nil => rfl
  | cons c rest ih =>
    obtain ⟨piece, more, hpieces⟩ := List.exists_cons_of_ne_nil (pieces_ne_nil separator rest)
    rw [pieces]
    split
    · next hc =>
      rw [hpieces, List.intercalate_cons_cons, ← hpieces, ih, hc]
      rfl
    · rw [hpieces] at ih ⊢
      cases more with
      | nil =>
        rw [List.intercalate_singleton] at ih ⊢
        rw [ih]
      | cons next more =>
        rw [List.intercalate_cons_cons] at ih ⊢
        rw [← ih]
        rfl

/-- A line comment says its line. -/
theorem Comment.content_line {line : List Char}
    (h : Text.dropTrailing Text.isBlank line = line) :
    content ("// " ++ String.ofList line) = String.ofList line := by
  have htoList : ("// " ++ String.ofList line).toList = '/' :: '/' :: ' ' :: line := by simp
  rw [content, htoList]
  exact congrArg String.ofList h

/-- The comments of a declaration say its doc. -/
theorem TypeSpec.docOf_comments {x : TypeSpec} (hx : x.isStructured = true) :
    docOf x.comments = x.doc := by
  simp only [isStructured, Bool.and_eq_true] at hx
  have hlines := hx.2
  cases hdoc : x.doc with
  | none =>
    rw [comments, hdoc]
    rfl
  | some doc =>
    rw [hdoc, Option.all_some, List.all_eq_true] at hlines
    have hsaid : x.comments.map Comment.content =
        (Text.pieces '\n' doc.toList).map String.ofList := by
      rw [comments, hdoc, Option.elim_some, List.map_map]
      refine List.map_congr_left fun line hline => ?_
      exact Comment.content_line (by simpa using hlines line hline)
    have hjoined : "\n".intercalate ((Text.pieces '\n' doc.toList).map String.ofList) = doc := by
      apply String.toList_injective
      have hchars : String.toList ∘ String.ofList = id := funext fun _ => String.toList_ofList
      rw [String.toList_intercalate, List.map_map, hchars, List.map_id]
      exact Text.intercalate_pieces '\n' doc.toList
    rw [docOf, hsaid]
    obtain ⟨piece, more, hpieces⟩ :=
      List.exists_cons_of_ne_nil (Text.pieces_ne_nil '\n' doc.toList)
    rw [hpieces] at hjoined ⊢
    exact congrArg some hjoined

/-- The comments of a declaration are one line each. -/
theorem TypeSpec.feed_notMem_comments (x : TypeSpec) : ∀ line ∈ x.comments, '\n' ∉ line.toList := by
  intro line hline
  rw [comments] at hline
  cases hdoc : x.doc with
  | none =>
    rw [hdoc] at hline
    cases hline
  | some doc =>
    rw [hdoc] at hline
    obtain ⟨piece, hpiece, rfl⟩ := List.mem_map.mp hline
    have hfeed := Text.not_mem_of_mem_pieces hpiece
    simpa using hfeed

section Printed

variable {literal : String → Phrase} {source unit : String} {s : Place} {depth : Nat}
  {gap : String}

/-! ## Declarations -/

theorem TypeSpec.isSpec_phrase (x : TypeSpec) (depth : Nat) :
    (x.phrase literal depth).kind.isSpec = true := by
  rw [phrase, Phrase.kind]
  split <;> rfl

theorem TypeSpec.gap_phrase (x : TypeSpec) (depth : Nat) (other : String) :
    ((x.phrase literal depth).withGap other).gap = other := rfl

/-- What stands in front of the type of a declaration: its name, and the mark of an alias. -/
def Phrase.definitionFront (isAlias : Bool) (gap name : String) : List Phrase :=
  leaf .typeIdentifier (some .name) gap name :: if isAlias then [mark " " "="] else []

/-- A declaration without type parameters: its name, and its type. -/
def Phrase.definition (isAlias : Bool) (gap name : String) (type : Phrase) : Phrase :=
  node (if isAlias then .typeAlias else .typeSpec) none (definitionFront isAlias gap name ++ [type])

/-- In front of the type of a declaration only the name is in a field. -/
theorem Phrase.field_of_mem_definitionFront {isAlias : Bool} {name : String} {part : NodeField}
    (hpart : part ≠ .name) : ∀ q ∈ definitionFront isAlias gap name, q.field ≠ some part := by
  have hmarks : ∀ q ∈ if isAlias then [mark " " "="] else [], q.field ≠ some part := by
    cases isAlias with
    | false => exact List.forall_mem_nil _
    | true => exact List.forall_mem_singleton.mpr nofun
  exact List.forall_mem_cons.mpr ⟨fun heq => hpart (Option.some_inj.mp heq).symm, hmarks⟩

/-- What is read off a declaration: its name and its type. -/
theorem Lowering.spec_definition {isAlias : Bool} {name : String} {part : Phrase} {type : TypeExpr}
    (hname : name ≠ "") (hfield : part.field = some .type) (hpresent : part.isAbsent = false)
    (hkind : part.kind ≠ .error)
    (hholds : HoldsAt source s (definition isAlias gap name part).chars)
    (htype : ({ source, unit } : Lowering).type
      (part.place (s.advance (charsOfList (definitionFront isAlias gap name)))) = type)
    (doc : Option String) :
    ({ source, unit } : Lowering).spec doc ((definition isAlias gap name part).place s) =
      { name := some name, doc, typeParams := none, isAlias, type := some type
        position := (s.advance gap.toList).position unit } := by
  have hfront : ∀ part, part ≠ .name → ∀ q ∈ definitionFront isAlias gap name,
      q.field ≠ some part := fun _ hpart => field_of_mem_definitionFront hpart
  have hchildName : ((definition isAlias gap name part).place s).child? .name =
      some ((leaf .typeIdentifier (some .name) gap name).place s) :=
    @child?_place _ _ none [] _ .name (List.forall_mem_nil _) rfl s
  have hchildType := @child?_place part (if isAlias then .typeAlias else .typeSpec) none
    (definitionFront isAlias gap name) [] .type (hfront .type nofun) hfield s
  have hchildParams : ((definition isAlias gap name part).place s).child? .typeParameters = none := by
    refine find?_placeAll_eq_none ?_ s
    rw [List.forall_mem_append, List.forall_mem_singleton, hfield]
    exact ⟨hfront .typeParameters nofun, nofun⟩
  have hnameText : ({ source, unit } : Lowering).text
      ((leaf .typeIdentifier (some .name) gap name).place s) = name := by
    rw [definition, chars, charsOfList_append] at hholds
    exact (@IsAt.text_eq source _ _ ⟨s, rfl, hholds.left.left⟩ unit).trans (text_leaf ..)
  have hposition : ((definition isAlias gap name part).place s).start = s.advance gap.toList :=
    start_place ..
  have halias : (((definition isAlias gap name part).place s).kind == .typeAlias) = isAlias := by
    rw [kind_place]
    cases isAlias <;> rfl
  have hthere : (!(part.place (s.advance (charsOfList (definitionFront isAlias gap name)))).isMissing &&
      (part.place (s.advance (charsOfList (definitionFront isAlias gap name)))).kind != .error) =
        true := by
    rw [isMissing_place, kind_place, hpresent]
    simpa using hkind
  rw [Lowering.spec, hchildName, halias, hchildParams, Lowering.position, hposition, definition,
    hchildType, Option.filter_some, isMissing_place, if_pos (by rfl), Option.map_some, hnameText,
    Option.filter_some, if_pos (decide_eq_true hname), Option.filter_some, if_pos hthere,
    Option.map_some, htype]
  rfl

/-- **A declaration is read back** under its doc. -/
theorem TypeSpec.spec_phrase (hliteral : CutsLiterals literal) {x : TypeSpec}
    (hx : x.isStructured = true) {other : String}
    (hholds : HoldsAt source s ((x.phrase literal depth).withGap other).chars) :
    ({ source, unit } : Lowering).spec (docOf x.comments)
        (((x.phrase literal depth).withGap other).place s) =
      x.placed literal unit depth (s.advance other.toList) := by
  rw [docOf_comments hx]
  obtain ⟨name, doc, typeParams, isAlias, type, position⟩ := x
  simp only [isStructured, Bool.and_eq_true] at hx
  obtain ⟨⟨⟨hname, htype⟩, hparams⟩, -⟩ := hx
  obtain ⟨name, rfl, hname⟩ := (Option.any_eq_true _ _).mp hname
  obtain ⟨type, rfl, htype⟩ := (Option.any_eq_true _ _).mp htype
  obtain rfl := Option.isNone_iff_eq_none.mp hparams
  have hphrase : (TypeSpec.phrase literal depth ⟨some name, doc, none, isAlias, some type,
      position⟩).withGap other =
        definition isAlias other name (type.phrase literal (some .type) depth " ") := rfl
  obtain ⟨hfield, hpresent⟩ := @TypeExpr.field_phrase literal type htype (some .type) depth " "
  have hkind : (type.phrase literal (some .type) depth " ").kind ≠ .error := by
    intro heq
    have hisType := @TypeExpr.isType_phrase literal type htype (some .type) depth " "
    rw [heq] at hisType
    cases hisType
  have hempty : name ≠ "" := by
    rintro rfl
    exact absurd hname (by decide)
  rw [hphrase] at hholds ⊢
  have hpart : HoldsAt source (s.advance (charsOfList (definitionFront isAlias other name)))
      (type.phrase literal (some .type) depth " ").chars := by
    rw [definition, chars, charsOfList_append] at hholds
    exact hholds.right.left
  rw [Lowering.spec_definition hempty hfield hpresent hkind hholds
    (TypeExpr.type_phrase hliteral type htype _ _ _ _ hpart), placed]
  simp [definitionFront, aliasMark, charsOfList, chars, Place.advance_append]

/-! ## Items -/

/-- What stands above an entry is comments. -/
theorem Phrase.exists_under_eq (between : String) (p : Phrase) (gap : String)
    (remarks : List String) : ∃ front other, under between p gap remarks = front ++ [p.withGap other] := by
  induction remarks generalizing gap with
  | nil => exact ⟨[], gap, rfl⟩
  | cons line remarks ih =>
    obtain ⟨front, other, h⟩ := ih between
    exact ⟨leaf .comment none gap line :: front, other, by rw [under, h, List.cons_append]⟩

/-- Behind an item a fresh row starts. -/
theorem Item.fresh_phrases (item : Item) (gap : String) (s : Place) (before : List Node) :
    Node.Fresh ((placeAll s (item.phrases literal gap)).reverse ++ before)
      (s.advance (charsOfList (item.phrases literal gap))).row := by
  have hends : ∃ front p, item.phrases literal gap = front ++ [p, newline] ∧
      p.kind.isNamed = true := by
    cases item with
    | single x =>
      obtain ⟨front, other, h⟩ :=
        exists_under_eq "\n" (lone (x.phrase literal 0)) gap x.comments
      refine ⟨front, (lone (x.phrase literal 0)).withGap other, ?_, rfl⟩
      rw [phrases, entries, entries, h, List.append_assoc]
      rfl
    | group position members => exact ⟨[], _, rfl, rfl⟩
  obtain ⟨front, p, h, hp⟩ := hends
  rw [h, placeAll_append, charsOfList_append, List.reverse_append, Place.advance_append]
  have hlast : (s.advance (charsOfList front)).advance (charsOfList [p, newline]) =
      (s.advance (charsOfList front)).advance (p.chars ++ newline.chars) := by
    rw [charsOfList, charsOfList, charsOfList, List.append_nil]
  rw [hlast]
  exact fresh_behind hp (s.advance (charsOfList front)) _

/-- **An item is read back**, at its place. -/
theorem Item.itemsBehind_phrases (hliteral : CutsLiterals literal) {item : Item}
    (hitem : item.isStructured = true) {before : List Node} (hfresh : Node.Fresh before s.row)
    (hholds : HoldsAt source s (charsOfList (item.phrases literal gap))) :
    ({ source, unit } : Lowering).itemsBehind before (placeAll s (item.phrases literal gap)) =
      [item.placed literal unit gap s] := by
  rw [isStructured, List.all_eq_true] at hitem
  cases item with
  | single x =>
    have hx := hitem x (List.mem_singleton_self x)
    have hitems := @forall₂_singles _ TypeSpec.comments (fun y => y.phrase literal 0) gap source
      unit s [x] (fun e item => item = .single (e.2.placed literal unit 0
        (e.1.1.advance (e.1.2.toList ++ "type ".toList)))) "\n" "" before rfl
      (fun y _ => ⟨y.feed_notMem_comments, y.isSpec_phrase 0⟩)
      (fun y hy t other hpart => by
        obtain rfl := List.mem_singleton.mp hy
        rw [TypeSpec.spec_phrase hliteral hx hpart, ← Place.advance_append, List.append_assoc]
        rfl) hfresh hholds
    rw [Item.phrases]
    rw [Item.phrases] at hholds
    generalize Lowering.itemsBehind _ before _ = items at hitems ⊢
    cases hitems with
    | cons hhead hrest =>
    cases hrest with
    | nil => rw [hhead, placed]
  | group position members =>
    rw [Item.phrases, charsOfList] at hholds
    have hmembers := @forall₂_members _ TypeSpec.comments (TypeSpec.phrase literal 1) "\t" gap
      source unit s members (fun e spec => spec = e.2.placed literal unit 1
        (e.1.1.advance e.1.2.toList)) (by decide)
      (fun y _ => ⟨y.feed_notMem_comments, fun other => y.gap_phrase 1 other, y.isSpec_phrase 1⟩)
      (fun y hy t other hpart => TypeSpec.spec_phrase hliteral (hitem y hy) hpart) hholds.left
    have hposition : ((Phrase.group TypeSpec.comments (TypeSpec.phrase literal 1) "\t" gap
        members).place s).start = s.advance gap.toList := start_place ..
    rw [Item.phrases, placeAll, placeAll, placeAll, Lowering.itemsBehind_cons,
      Lowering.itemsBehind_cons, item?_group_place,
      Lowering.item?_symbol (kind_place _ newline), Lowering.position, hposition,
      placed, ← List.map_id' ((Node.withElders [] _).filterMap _),
      map_eq_of_forall₂_mem hmembers fun _ _ _ h => h]
    rfl

/-- **Items are read back** one after the other, each at its place. -/
theorem Item.itemsBehind_phrasesOfList (hliteral : CutsLiterals literal) {items : List Item}
    (h : ∀ item ∈ items, item.isStructured = true) {before : List Node}
    (hfresh : Node.Fresh before s.row)
    (hholds : HoldsAt source s (charsOfList (Item.phrasesOfList literal gap items))) :
    ({ source, unit } : Lowering).itemsBehind before
        (placeAll s (Item.phrasesOfList literal gap items)) =
      Item.placedList literal unit gap s items := by
  induction items generalizing gap s before with
  | nil => rfl
  | cons item items ih =>
    rw [List.forall_mem_cons] at h
    rw [phrasesOfList, charsOfList_append] at hholds
    rw [phrasesOfList, placeAll_append, Lowering.itemsBehind_append,
      itemsBehind_phrases hliteral h.1 hfresh hholds.left,
      ih h.2 (item.fresh_phrases gap s before) hholds.right, placedList]
    rfl

end Printed

/-! ## Units -/

namespace SourceUnit

variable {parse : String → Node} {literal : String → Phrase} {preface : List Phrase}
  {items : List Item}

/-- **Reading undoes printing.** Structured declarations are printed behind other lines, and a
parser reads the text as the phrases that it was written from. Then the items of the unit are those
that were printed, each at the place at which it was printed, and but for the places they are what
was given to the printer. -/
theorem ofTree_print (hliteral : CutsLiterals literal) (hpreface : NoItems preface)
    (h : ∀ item ∈ items, item.isStructured = true)
    (hreads : ReadsAs parse (phrases literal preface items)) (unit : String) :
    ofTree unit (print literal preface items) (parse (print literal preface items)) =
        printed literal unit preface items ∧
      (printed literal unit preface items).items.map Item.unplaced = items.map Item.unplaced := by
  refine ⟨?_, Item.map_unplaced_placedList items _ _⟩
  have hholds : HoldsAt (print literal preface items) .start
      (charsOfList (onLines preface ++ Item.phrasesOfList literal (gapAfter preface) items)) :=
    holdsAt_write (phrases literal preface items)
  rw [charsOfList_append] at hholds
  have hfresh := fresh_onLines preface .start (Node.fresh_nil _)
  rw [List.append_nil] at hfresh
  have hitems := @items_ofTree_onLines (print literal preface items) unit _ _ _ hpreface hreads
  rw [Item.itemsBehind_phrasesOfList hliteral h hfresh hholds.right] at hitems
  exact congrArg (SourceUnit.mk unit) hitems

/-! ## An example -/

/-- A struct with nested bodies under a doc, an empty group, and a group of aliases. -/
def boxAndShapes : List Item :=
  let method : Element :=
    .method "Seek" [⟨["from", "to"], .predeclared "int", false⟩, ⟨["rest"], .named none "T", true⟩]
      [⟨[], .pointer (.named (some "io") "File"), false⟩] default
  let inner : TypeExpr := .interface [method, .embed (.named (some "io") "Reader")]
  [.single
     { name := some "Box", doc := some "Box holds\n\na value.", typeParams := none, isAlias := false,
       type := some (.struct
         [⟨["a", "été"], inner, some "\x60json:\"a\"\x60", default⟩,
          ⟨[], .pointer (.named none "Base"), none, default⟩, ⟨["none"], .struct [], none, default⟩]),
       position := default },
   .group default [],
   .group default
     [{ name := some "Names", doc := none, typeParams := none, isAlias := true,
        type := some (.interface [.method "All" [] [⟨["n"], .predeclared "int", false⟩] default]),
        position := default }]]

/-- A string literal as the parser of this library cuts it: a leaf. -/
def literalPhrase (text : String) : Phrase :=
  leaf (.other (if text.toList.head? = some '"' then "interpreted_string_literal"
    else "raw_string_literal")) none "" text

theorem ofTree_print_boxAndShapes :
    print literalPhrase [SourceText.clause] boxAndShapes = "\n".intercalate
        ["package p", "", "// Box holds", "// ", "// a value.", "type Box struct \x7b",
         "\ta, été interface \x7b", "\t\tSeek(from, to int, rest ...T) *io.File",
         "\t\tio.Reader", "\t\x7d \x60json:\"a\"\x60", "\t*Base", "\tnone struct\x7b\x7d",
         "\x7d", "", "type ()", "", "type (", "\tNames = interface \x7b",
         "\t\tAll() (n int)", "\t\x7d", ")", ""] ∧
      ofText "a.go" (print literalPhrase [SourceText.clause] boxAndShapes) =
        printed literalPhrase "a.go" [SourceText.clause] boxAndShapes ∧
      (printed literalPhrase "a.go" [SourceText.clause] boxAndShapes).items.map Item.unplaced =
        boxAndShapes.map Item.unplaced := by
  have hliteral : CutsLiterals literalPhrase := fun text _ => ⟨text_leaf .., rfl⟩
  have hreads : ReadsAs SourceText.tree (phrases literalPhrase [SourceText.clause] boxAndShapes) :=
    SourceText.readsAs_tree (by decide +kernel) (by decide +kernel)
  exact ⟨by decide +kernel,
    ofTree_print hliteral (by decide +kernel) (by decide +kernel) hreads "a.go"⟩

end SourceUnit

end GoAtlas
