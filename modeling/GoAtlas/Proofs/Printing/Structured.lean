import GoAtlas.Proofs.Printing.Printer
import GoAtlas.Source.Lexeme

/-!
# Structured declarations

A declaration is structured when its type is built from names, pointers to names, structs and
interfaces, to any depth, and has no part that is missing or only kept as text. Names are single
words that are not reserved. Parameters of one list are all named or all unnamed, as the language
asks for; a variadic parameter has one name at most.

Induction over types goes through the lists of their lines and parameters:
`TypeExpr.nestedInduction` has a case for structs whose hypothesis is about the types of all lines,
and the same for interfaces.
-/

namespace GoAtlas

open Phrase

/-! ## Induction over types -/

/-- The types in a line of an interface. -/
def Element.types : Element → List TypeExpr
  | .method _ params results _ => (params ++ results).map Param.type
  | .embed type => [type]
  | .constraint _ => []

/-- The types in a line of an interface are smaller than the line, so that types can be taken apart
by recursion. -/
theorem Element.sizeOf_lt_of_mem_types {e : Element} {t : TypeExpr} (h : t ∈ e.types) :
    sizeOf t < sizeOf e := by
  cases e with
  | method name params results position =>
    obtain ⟨p, hp, rfl⟩ := List.mem_map.mp h
    have htype : sizeOf p.type < sizeOf p := by
      cases p
      simp only [Param.mk.sizeOf_spec]
      omega
    simp only [Element.method.sizeOf_spec]
    rcases List.mem_append.mp hp with hp | hp
    · have hlist := List.sizeOf_lt_of_mem hp
      omega
    · have hlist := List.sizeOf_lt_of_mem hp
      omega
  | embed type =>
    obtain rfl := List.mem_singleton.mp h
    simp
  | constraint => cases h

/-- **Induction over types** and the types in their bodies. -/
@[elab_as_elim]
theorem TypeExpr.nestedInduction {P : TypeExpr → Prop}
    (named : ∀ package name, P (.named package name)) (predeclared : ∀ name, P (.predeclared name))
    (pointer : ∀ target, P target → P (.pointer target))
    (struct : ∀ fields : List FieldDecl, (∀ f ∈ fields, P f.type) → P (.struct fields))
    (interface : ∀ elements : List Element, (∀ e ∈ elements, ∀ t ∈ e.types, P t) →
      P (.interface elements))
    (verbatim : ∀ text, P (.verbatim text)) (missing : P .missing) (t : TypeExpr) : P t := by
  induction hsize : sizeOf t using Nat.strongRecOn generalizing t with
  | _ n ih =>
    subst hsize
    cases t with
    | named package name => exact named package name
    | predeclared name => exact predeclared name
    | pointer target => exact pointer target (ih _ (by simp) target rfl)
    | struct fields =>
      refine struct fields fun f hf => ih _ ?_ f.type rfl
      have hlist := List.sizeOf_lt_of_mem hf
      have htype : sizeOf f.type < sizeOf f := by
        cases f
        simp only [FieldDecl.mk.sizeOf_spec]
        omega
      simp only [TypeExpr.struct.sizeOf_spec]
      omega
    | interface elements =>
      refine interface elements fun e he t ht => ih _ ?_ t rfl
      have hlist := List.sizeOf_lt_of_mem he
      have htype := Element.sizeOf_lt_of_mem_types ht
      simp only [TypeExpr.interface.sizeOf_spec]
      omega
    | verbatim text => exact verbatim text
    | missing => exact missing

/-! ## Which declarations are structured -/

/-- Whether a text is one string literal. -/
def Lexeme.isStringLiteral (text : String) : Bool :=
  match text.toList with
  | [] => false
  | c :: rest =>
    c == '"' && quotedTail c rest == some (rest, []) || c == '\x60' && rawTail rest == some (rest, [])

/-- Whether a text can name something: it is one word, and not a reserved one. -/
def Vocabulary.isName (text : String) : Bool :=
  Phrase.isWordText text && !isKeyword text

/-- Whether a type is the name of a declared type. -/
def TypeExpr.isDeclaredName : TypeExpr → Bool
  | .named (some package) name => Vocabulary.isName package && Vocabulary.isName name
  | .named none name => Vocabulary.isName name && !Vocabulary.isPredeclared name
  | _ => false

/-- Whether a type is the name of a type. -/
def TypeExpr.isTypeName : TypeExpr → Bool
  | .predeclared name => Vocabulary.isPredeclared name
  | type => type.isDeclaredName

/-- Whether a type has no body. -/
def TypeExpr.isFlat : TypeExpr → Bool
  | .struct _ | .interface _ => false
  | _ => true

/-- Whether the parameters of a list are all named or all unnamed. -/
def Param.areAlike (params : List Param) : Bool :=
  params.all (fun p => p.names.isEmpty) || params.all fun p => !p.names.isEmpty

mutual

/-- Whether a type is built from names, pointers to names, structs and interfaces. -/
def TypeExpr.isStructured : TypeExpr → Bool
  | .pointer target => target.isTypeName
  | .struct fields => FieldDecl.areStructured fields
  | .interface elements => Element.areStructured elements
  | type => type.isTypeName

/-- Whether a line of a struct is structured. Without a name, it embeds a name or a pointer to one.
-/
def FieldDecl.isStructured : FieldDecl → Bool
  | ⟨names, type, tag, _⟩ =>
    names.all Vocabulary.isName && (!names.isEmpty || type.isFlat) && type.isStructured &&
      tag.all Lexeme.isStringLiteral

/-- Whether a line of an interface is structured. -/
def Element.isStructured : Element → Bool
  | .method name params results _ =>
    Vocabulary.isName name && Param.areAlike params && Param.areStructured params &&
      Param.areAlike results && Param.areStructured results
  | .embed type => type.isDeclaredName
  | .constraint _ => false

/-- Whether parameters that share a type are structured. -/
def Param.isStructured : Param → Bool
  | ⟨names, type, variadic⟩ =>
    names.all Vocabulary.isName && (!variadic || names.length ≤ 1) && type.isStructured

/-- Whether all lines of a struct are structured. -/
def FieldDecl.areStructured : List FieldDecl → Bool
  | [] => true
  | x :: rest => x.isStructured && FieldDecl.areStructured rest

/-- Whether all lines of an interface are structured. -/
def Element.areStructured : List Element → Bool
  | [] => true
  | x :: rest => x.isStructured && Element.areStructured rest

/-- Whether all parameters of a list are structured. -/
def Param.areStructured : List Param → Bool
  | [] => true
  | x :: rest => x.isStructured && Param.areStructured rest

end

/-- The recursion through lines says no more than that each line is structured. -/
theorem FieldDecl.areStructured_eq_all (xs : List FieldDecl) :
    areStructured xs = xs.all isStructured := by
  induction xs with
  | nil => rfl
  | cons x rest ih => rw [areStructured, ih, List.all_cons]

theorem Element.areStructured_eq_all (xs : List Element) :
    areStructured xs = xs.all isStructured := by
  induction xs with
  | nil => rfl
  | cons x rest ih => rw [areStructured, ih, List.all_cons]

theorem Param.areStructured_eq_all (xs : List Param) :
    areStructured xs = xs.all isStructured := by
  induction xs with
  | nil => rfl
  | cons x rest ih => rw [areStructured, ih, List.all_cons]

/-- Without a body, a structured type is a name or a pointer to one. -/
theorem TypeExpr.isTypeName_or_pointer {t : TypeExpr} (h : t.isStructured = true)
    (hflat : t.isFlat = true) :
    t.isTypeName = true ∨ ∃ target, t = .pointer target ∧ target.isTypeName = true := by
  cases t with
  | named | predeclared => exact .inl h
  | pointer target => exact .inr ⟨target, rfl, h⟩
  | struct | interface => cases hflat
  | verbatim | missing => cases h

/-- The type of a structured line is structured, whatever it is that the line has besides. -/
theorem FieldDecl.isStructured_type {f : FieldDecl} (h : f.isStructured = true) :
    f.type.isStructured = true := by
  obtain ⟨names, type, tag, position⟩ := f
  simp only [isStructured, Bool.and_eq_true] at h
  exact h.1.2

theorem Param.isStructured_type {p : Param} (h : p.isStructured = true) :
    p.type.isStructured = true := by
  obtain ⟨names, type, variadic⟩ := p
  simp only [isStructured, Bool.and_eq_true] at h
  exact h.2

/-- So are the types of parameters, of results and of what an interface embeds. -/
theorem Element.isStructured_of_mem_types {e : Element} {t : TypeExpr}
    (h : e.isStructured = true) (ht : t ∈ e.types) : t.isStructured = true := by
  cases e with
  | method name params results position =>
    simp only [isStructured, Bool.and_eq_true, Param.areStructured_eq_all, List.all_eq_true] at h
    obtain ⟨⟨⟨-, hparams⟩, -⟩, hresults⟩ := h
    obtain ⟨p, hp, rfl⟩ := List.mem_map.mp ht
    rcases List.mem_append.mp hp with hp | hp
    · exact Param.isStructured_type (hparams p hp)
    · exact Param.isStructured_type (hresults p hp)
  | embed type =>
    obtain rfl := List.mem_singleton.mp ht
    cases t with
    | named => exact h
    | predeclared | pointer | struct | interface | verbatim | missing => cases h
  | constraint => cases ht

/-- Whether a declaration can be printed and read back: it has a name and a structured type, no type
parameters, and no blank at the end of a line of its doc. -/
def TypeSpec.isStructured (s : TypeSpec) : Bool :=
  s.name.any Vocabulary.isName && s.type.any TypeExpr.isStructured && s.typeParams.isNone &&
    s.doc.all fun doc =>
      (Text.pieces '\n' doc.toList).all fun line => Text.dropTrailing Text.isBlank line == line

/-- Whether all declarations of an item can be printed and read back. -/
def Item.isStructured (item : Item) : Bool :=
  item.specs.all TypeSpec.isStructured

/-! ## Places apart -/

section Places

variable {literal : String → Phrase} {unit : String}

/-- What is said of a type: placing it changes nothing but places. -/
def TypeExpr.SameUnplaced (literal : String → Phrase) (unit : String) (t : TypeExpr) : Prop :=
  ∀ depth s, (t.placed literal unit depth s).unplaced = t.unplaced

/-- Lines that are given places are the same lines without them, when this is so of their types. -/
theorem FieldDecl.unplaced_placedList {fields : List FieldDecl}
    (h : ∀ f ∈ fields, f.type.SameUnplaced literal unit) (depth : Nat) (gap : String) (s : Place) :
    sketchList id (placedList literal unit depth gap s fields) = sketchList id fields := by
  induction fields generalizing gap s with
  | nil => rfl
  | cons f rest ih =>
    rw [List.forall_mem_cons] at h
    obtain ⟨names, type, tag, position⟩ := f
    have htype := h.1 depth
    simp only [TypeExpr.unplaced] at htype
    rw [placedList, sketchList, sketchList, ih h.2, placed, sketch, sketch, htype]

/-- Parameters that are given places are the same parameters without them. -/
theorem Param.unplaced_placedList {params : List Param}
    (h : ∀ p ∈ params, p.type.SameUnplaced literal unit) (depth : Nat) (gap : String)
    (s : Place) :
    sketchList id (placedList literal unit depth gap s params) = sketchList id params := by
  induction params generalizing gap s with
  | nil => rfl
  | cons p rest ih =>
    rw [List.forall_mem_cons] at h
    obtain ⟨names, type, variadic⟩ := p
    have htype := h.1 depth
    simp only [TypeExpr.unplaced] at htype
    rw [placedList, sketchList, sketchList, ih h.2, placed, sketch, sketch, htype]

theorem Param.unplaced_placedBare {params : List Param}
    (h : ∀ p ∈ params, p.type.SameUnplaced literal unit) (depth : Nat) (s : Place) :
    sketchList id (placedBare literal unit depth s params) = sketchList id params := by
  cases params with
  | nil => rfl
  | cons p rest =>
    rw [List.forall_mem_cons] at h
    obtain ⟨names, type, variadic⟩ := p
    have htype := h.1 depth
    simp only [TypeExpr.unplaced] at htype
    rw [placedBare, sketchList, sketchList, sketch, sketch, htype]

/-- Lines of an interface that are given places are the same lines without them. -/
theorem Element.unplaced_placedList {elements : List Element}
    (h : ∀ e ∈ elements, ∀ t ∈ e.types, t.SameUnplaced literal unit) (depth : Nat) (gap : String)
    (s : Place) :
    sketchList id (placedList literal unit depth gap s elements) = sketchList id elements := by
  induction elements generalizing gap s with
  | nil => rfl
  | cons e rest ih =>
    rw [List.forall_mem_cons] at h
    obtain ⟨he, hrest⟩ := h
    rw [placedList, sketchList, sketchList, ih hrest]
    cases e with
    | method name params results position =>
      have hall : ∀ p ∈ params ++ results, p.type.SameUnplaced literal unit :=
        fun p hp => he _ (List.mem_map_of_mem hp)
      rw [List.forall_mem_append] at hall
      rw [placed, sketch, sketch, Param.unplaced_placedList hall.1]
      split
      · rw [Param.unplaced_placedBare hall.2]
      · rw [Param.unplaced_placedList hall.2]
    | embed | constraint => rfl

/-- Placing a type changes nothing but places. -/
theorem TypeExpr.unplaced_placed (t : TypeExpr) : t.SameUnplaced literal unit := by
  induction t using nestedInduction with
  | named | predeclared | pointer | verbatim | missing => exact fun _ _ => rfl
  | struct fields ih =>
    intro depth s
    rw [placed, unplaced, sketch, sketch, FieldDecl.unplaced_placedList ih]
  | interface elements ih =>
    intro depth s
    rw [placed, unplaced, sketch, sketch, Element.unplaced_placedList ih]

/-- A declaration keeps everything but its places. -/
theorem TypeSpec.unplaced_placed (x : TypeSpec) (depth : Nat) (s : Place) :
    (x.placed literal unit depth s).unplaced = x.unplaced := by
  have htype : ∀ s, (x.type.map (TypeExpr.placed literal unit depth s)).map TypeExpr.unplaced =
      x.type.map TypeExpr.unplaced := by
    intro s
    rw [Option.map_map]
    exact congrArg (x.type.map ·) (funext fun t => t.unplaced_placed depth s)
  rw [placed, unplaced, unplaced, htype]

/-- **An item that is given places** is the same item but for them. -/
theorem Item.unplaced_placed (item : Item) (gap : String) (s : Place) :
    (item.placed literal unit gap s).unplaced = item.unplaced := by
  cases item with
  | single x =>
    rw [placed]
    dsimp only [unplaced]
    rw [TypeSpec.unplaced_placed]
  | group position members =>
    rw [placed, unplaced, unplaced, List.map_map]
    have hmembers := map_placesOf TypeSpec.comments (TypeSpec.phrase literal 1) ("\n" ++ "\t")
      "\t" TypeSpec.unplaced ("\n" ++ "\t")
      (s.advance (Phrase.charsOfList (Phrase.groupOpening gap))) members
    rw [← hmembers]
    exact congrArg (Item.group default) (List.map_congr_left fun e _ =>
      TypeSpec.unplaced_placed e.2 1 _)

/-- Placing items changes nothing but places. -/
theorem Item.map_unplaced_placedList (items : List Item) (gap : String) (s : Place) :
    (placedList literal unit gap s items).map unplaced = items.map unplaced := by
  induction items generalizing gap s with
  | nil => rfl
  | cons item rest ih => rw [placedList, List.map_cons, List.map_cons, ih, unplaced_placed]

end Places

end GoAtlas
