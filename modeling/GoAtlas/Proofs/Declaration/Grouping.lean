import GoAtlas.Declaration.Shaping
import GoAtlas.Proofs.Declaration.Lines
import Mathlib.Algebra.GroupWithZero.Nat
import Mathlib.Logic.Relation

/-!
# Names that share a type

Several fields of one type may be declared on one line, and several parameters of one type in one
group. That is shorthand for a line, or a parameter, of its own for each name. `Respells` is one
step of writing it out, at any place inside a type; a parameter without a name may also be given
one.

What a line gives is made of what it gives for each name (`FieldDecl.exists_fields_of_names`), which
is why the step makes no difference at the place where it is taken (`FieldDecl.fieldsOfList_alone`).
It makes none further out either: a struct that is expanded passes on what its lines give, once for
each name, and everything else looks at no more than the written form of a type, where bodies are
left out (`TypeExpr.Respells.render_eq`). So all spellings of a struct give the same fields and
reports, and all spellings of an interface the same shape (`Shape.ofExpr_respells`).
-/

namespace GoAtlas

mutual

/-- A type is spelled in another way at one place inside it. -/
inductive TypeExpr.Respells : TypeExpr → TypeExpr → Prop where
  | pointer {target other : TypeExpr} : TypeExpr.Respells target other →
    TypeExpr.Respells (.pointer target) (.pointer other)
  | struct {lines others : List FieldDecl} : FieldDecl.Respells lines others →
    TypeExpr.Respells (.struct lines) (.struct others)
  | interface {elements others : List Element} : Element.Respells elements others →
    TypeExpr.Respells (.interface elements) (.interface others)

/-- A struct body is spelled in another way: one of its lines that has several names is written out,
or the type of a line is spelled in another way. -/
inductive FieldDecl.Respells : List FieldDecl → List FieldDecl → Prop where
  | group {names : List String} {type : TypeExpr} (tag : Option String) (position : Position)
    (rest : List FieldDecl) : 2 ≤ names.length → type ≠ .missing →
    FieldDecl.Respells (⟨names, type, tag, position⟩ :: rest)
      (names.map (fun name => ⟨[name], type, tag, position⟩) ++ rest)
  | type {type other : TypeExpr} (names : List String) (tag : Option String) (position : Position)
    (rest : List FieldDecl) : TypeExpr.Respells type other →
    FieldDecl.Respells (⟨names, type, tag, position⟩ :: rest) (⟨names, other, tag, position⟩ :: rest)
  | later {lines others : List FieldDecl} (line : FieldDecl) : FieldDecl.Respells lines others →
    FieldDecl.Respells (line :: lines) (line :: others)

/-- An interface body is spelled in another way: in the parameters or the results of one of its
methods, or in the type of an embedded interface. -/
inductive Element.Respells : List Element → List Element → Prop where
  | params {params others : List Param} (name : String) (results : List Param) (position : Position)
    (rest : List Element) : Param.Respells params others →
    Element.Respells (.method name params results position :: rest)
      (.method name others results position :: rest)
  | results {results others : List Param} (name : String) (params : List Param) (position : Position)
    (rest : List Element) : Param.Respells results others →
    Element.Respells (.method name params results position :: rest)
      (.method name params others position :: rest)
  | embed {type other : TypeExpr} (rest : List Element) : TypeExpr.Respells type other →
    Element.Respells (.embed type :: rest) (.embed other :: rest)
  | later {elements others : List Element} (element : Element) : Element.Respells elements others →
    Element.Respells (element :: elements) (element :: others)

/-- Parameters are spelled in another way: a group with several names is written out, a type without
a name is given one, or the type of a group is spelled in another way. -/
inductive Param.Respells : List Param → List Param → Prop where
  | group {names : List String} (type : TypeExpr) (variadic : Bool) (rest : List Param) :
    2 ≤ names.length →
    Param.Respells (⟨names, type, variadic⟩ :: rest)
      (names.map (fun name => ⟨[name], type, variadic⟩) ++ rest)
  | name (name : String) (type : TypeExpr) (variadic : Bool) (rest : List Param) :
    Param.Respells (⟨[], type, variadic⟩ :: rest) (⟨[name], type, variadic⟩ :: rest)
  | type {type other : TypeExpr} (names : List String) (variadic : Bool) (rest : List Param) :
    TypeExpr.Respells type other →
    Param.Respells (⟨names, type, variadic⟩ :: rest) (⟨names, other, variadic⟩ :: rest)
  | later {params others : List Param} (param : Param) : Param.Respells params others →
    Param.Respells (param :: params) (param :: others)

end

namespace TypeExpr.Respells

variable {type other : TypeExpr}

/-- The written form of a type does not show how it is spelled inside. -/
theorem render_eq : ∀ {type other : TypeExpr}, type.Respells other → other.render = type.render
  | _, _, .pointer h => by rw [render, render, render_eq h]
  | _, _, .struct _ => rfl
  | _, _, .interface _ => rfl

/-- No type is left out, in any spelling. -/
theorem ne_missing (h : type.Respells other) : type ≠ .missing ∧ other ≠ .missing := by
  cases h <;> exact ⟨by simp, by simp⟩

theorem ofExpr_eq (h : type.Respells other) : Reference.ofExpr other = .ofExpr type := by
  cases h with
  | pointer h =>
    -- a pointer to a name has one spelling, so this is the text of the pointer
    have htext := h.render_eq
    cases h <;> exact congrArg (fun text => Reference.verbatim ("*" ++ text)) htext
  | struct _ => rfl
  | interface _ => rfl

theorem ofEmbedded_eq (h : type.Respells other) : Reference.ofEmbedded other = .ofEmbedded type := by
  have hplain := h.ofExpr_eq
  cases h with
  | pointer h => cases h <;> exact hplain
  | struct _ => rfl
  | interface _ => rfl

end TypeExpr.Respells

/-! ## Struct bodies -/

namespace FieldDecl

variable {limit depth : Nat} {owner : String} {lines others rest : List FieldDecl} {type : TypeExpr}
  {tag : Option String} {position : Position}

theorem fieldsOfList_append : fieldsOfList limit owner depth (lines ++ rest) =
    ((fieldsOfList limit owner depth lines).1 ++ (fieldsOfList limit owner depth rest).1,
      (fieldsOfList limit owner depth lines).2 ++ (fieldsOfList limit owner depth rest).2) := by
  induction lines with
  | nil => rw [List.nil_append, fieldsOfList, List.nil_append, List.nil_append]
  | cons line lines ih =>
    rw [List.cons_append, fieldsOfList_cons, fieldsOfList_cons, ih, List.append_assoc,
      List.append_assoc]

/-- **What a line with names gives** is a field for each name, and for each name the reports that
concern it. -/
theorem exists_fields_of_names (limit : Nat) (owner : String) (depth : Nat) (tag : Option String)
    (position : Position) (h : type ≠ .missing) :
    ∃ (entry : String → Field) (reports : String → List Diagnostic), ∀ name names,
      fields limit owner depth ⟨name :: names, type, tag, position⟩ =
        ((name :: names).map entry, (name :: names).flatMap reports) := by
  by_cases hstruct : ∃ body, type = .struct body
  · obtain ⟨body, rfl⟩ := hstruct
    rcases Nat.lt_or_ge depth limit with hwithin | hdeep
    · exact ⟨_, _, fun name names => fields_of_body hwithin⟩
    · refine ⟨fun n => namedField n (.verbatim "struct\x7b...\x7d") depth tag position [],
        fun n => [tooDeep limit owner n position], fun name names => ?_⟩
      rw [fields_of_deep hdeep, ← List.map_eq_flatMap]
  · refine ⟨fun n => namedField n (.ofExpr type) depth tag position [], fun _ => [],
      fun name names => ?_⟩
    rw [fields, List.flatMap_eq_nil_iff.mpr fun _ _ => rfl]
    · exact h
    · exact fun body hbody => hstruct ⟨body, hbody⟩

/-- **A line with several names** gives what a line for each of them gives. -/
theorem fieldsOfList_alone {names : List String} (hnames : names ≠ []) (h : type ≠ .missing) :
    fieldsOfList limit owner depth (names.map fun name => ⟨[name], type, tag, position⟩) =
      fields limit owner depth ⟨names, type, tag, position⟩ := by
  obtain ⟨entry, reports, hfields⟩ := exists_fields_of_names limit owner depth tag position h
  have hlist : ∀ ns : List String,
      fieldsOfList limit owner depth (ns.map fun name => ⟨[name], type, tag, position⟩) =
        (ns.map entry, ns.flatMap reports) := by
    intro ns
    induction ns with
    | nil => rw [List.map_nil, fieldsOfList, List.map_nil, List.flatMap_nil]
    | cons n ns ih =>
      rw [List.map_cons, fieldsOfList_cons, hfields, ih]
      dsimp only
      rw [← List.map_append, ← List.flatMap_append, List.singleton_append]
  obtain ⟨name, rest, rfl⟩ := List.exists_cons_of_ne_nil hnames
  rw [hlist, hfields]

/-- A line whose type is not expanded gives the same in any spelling of the type. -/
theorem fields_respells_of_plain {names : List String} {type other : TypeExpr}
    (hplain : body? ⟨names, type, tag, position⟩ = none) (h : type.Respells other) :
    fields limit owner depth ⟨names, other, tag, position⟩ =
      fields limit owner depth ⟨names, type, tag, position⟩ := by
  obtain ⟨htype, hother⟩ := h.ne_missing
  cases names with
  | nil =>
    rw [fields, fields, embeddedField, embeddedField, h.ofEmbedded_eq, h.render_eq]
    · exact htype
    · exact hother
  | cons name names =>
    have hreference := h.ofExpr_eq
    cases h with
    | struct _ => cases hplain
    | _ =>
      rw [fields, fields, hreference]
      all_goals simp

/-- **A struct body** gives the same in any spelling. -/
theorem fieldsOfList_respells (h : Respells lines others) :
    fieldsOfList limit owner depth others = fieldsOfList limit owner depth lines := by
  induction lines using linesInduction generalizing depth others with
  | nil => cases h
  | plain line rest hline ih =>
    cases h with
    | group tag position rest hnames htype =>
      rw [fieldsOfList_append, fieldsOfList_alone _ htype, fieldsOfList_cons]
      exact List.ne_nil_of_length_pos (by omega)
    | type names tag position rest h =>
      rw [fieldsOfList_cons, fieldsOfList_cons, fields_respells_of_plain hline h]
    | later line h => rw [fieldsOfList_cons, fieldsOfList_cons, ih h]
  | body name names lines tag position rest ihlines ihrest =>
    cases h with
    | group tag position rest hnames htype =>
      rw [fieldsOfList_append, fieldsOfList_alone _ htype, fieldsOfList_cons]
      exact List.cons_ne_nil _ _
    | type names tag position rest h =>
      cases h with
      | struct h =>
        rw [fieldsOfList_cons, fieldsOfList_cons]
        rcases Nat.lt_or_ge depth limit with hwithin | hdeep
        · rw [fields_of_body hwithin, fields_of_body hwithin, ihlines h]
        · rw [fields_of_deep hdeep, fields_of_deep hdeep]
    | later line h => rw [fieldsOfList_cons, fieldsOfList_cons, ihrest h]

end FieldDecl

/-! ## Interface bodies -/

namespace Param

variable {params others : List Param}

/-- **A list of parameters** gives the same references in any spelling. -/
theorem flatMap_references_respells (h : Respells params others) :
    others.flatMap references = params.flatMap references := by
  induction params generalizing others with
  | nil => cases h
  | cons param rest ih =>
    cases h with
    | group type variadic rest hnames =>
      rename_i names
      have hcount : max names.length 1 = names.length := by omega
      rw [List.flatMap_append, List.flatMap_cons, List.flatMap_map]
      refine congrArg (· ++ _) ?_
      simp only [references, List.length_singleton, Nat.max_self, List.replicate_one, hcount]
      rw [← List.map_eq_flatMap, List.map_const']
    | name name type variadic rest => rfl
    | type names variadic rest h =>
      rw [List.flatMap_cons, List.flatMap_cons, references, references, h.render_eq, h.ofExpr_eq]
    | later param h => rw [List.flatMap_cons, List.flatMap_cons, ih h]

/-- A group of parameters gives a reference for each name, and one if it has no name. -/
theorem length_flatMap_references (params : List Param) :
    (params.flatMap references).length = (params.map fun p => max p.names.length 1).sum := by
  rw [List.length_flatMap]
  exact congrArg List.sum (List.map_congr_left fun p _ => List.length_replicate)

end Param

namespace Shape

/-- **An interface body** has the same shape in any spelling. -/
theorem ofElements_respells {elements others : List Element} (h : Element.Respells elements others) :
    ofElements others = ofElements elements := by
  suffices hlists : others.filterMap Element.signature? = elements.filterMap Element.signature? ∧
      others.filterMap Element.embed? = elements.filterMap Element.embed? ∧
      others.filterMap Element.constraint? = elements.filterMap Element.constraint? by
    rw [ofElements, hlists.1, hlists.2.1, hlists.2.2, ofElements]
  induction elements generalizing others with
  | nil => cases h
  | cons element rest ih =>
    cases h with
    | params name results position rest h =>
      simp only [List.filterMap_cons, Element.signature?, Param.flatMap_references_respells h,
        Element.embed?, Element.constraint?, and_self]
    | results name params position rest h =>
      simp only [List.filterMap_cons, Element.signature?, Param.flatMap_references_respells h,
        Element.embed?, Element.constraint?, and_self]
    | embed rest h =>
      simp only [List.filterMap_cons, Element.signature?, Element.embed?, h.ofEmbedded_eq,
        Element.constraint?, and_self]
    | later element h =>
      obtain ⟨hsignatures, hembeds, hconstraints⟩ := ih h
      simp only [List.filterMap_cons, hsignatures, hembeds, hconstraints, and_self]

/-- **A type** gives a declaration the same shape, with the same reports, in any spelling. -/
theorem ofExpr_respells {limit : Nat} {owner : String} {type other : TypeExpr}
    (h : type.Respells other) : ofExpr limit owner other = ofExpr limit owner type := by
  have htext := h.render_eq
  cases h with
  | pointer h => exact congrArg (fun text => (aliasType (.verbatim text), [])) htext
  | struct h => rw [ofExpr, Field.ofDecls, FieldDecl.fieldsOfList_respells h, ofExpr, Field.ofDecls]
  | interface h => rw [ofExpr, ofElements_respells h, ofExpr]

end Shape

/-! ## Any number of steps -/

namespace Field

open Relation (EqvGen)
open FieldDecl (tooDeep)

/-- **Names that share a type are shorthand.** Two spellings of a struct body, which come from each
other by any number of steps at any places, give the same fields and the same reports in the same
order, under every limit. Two spellings of an interface body give the same shape, and so do two
spellings of any type of a declaration. A group of parameters counts once for each name, and once if
it has no name. -/
theorem ofDecls_of_spelling :
    (∀ limit owner lines others, EqvGen FieldDecl.Respells lines others →
      ofDecls limit owner lines = ofDecls limit owner others) ∧
    (∀ elements others, EqvGen Element.Respells elements others →
      Shape.ofElements elements = Shape.ofElements others) ∧
    (∀ limit owner type other, EqvGen TypeExpr.Respells type other →
      Shape.ofExpr limit owner type = Shape.ofExpr limit owner other) ∧
    ∀ params : List Param,
      (params.flatMap Param.references).length = (params.map fun p => max p.names.length 1).sum := by
  refine ⟨fun limit owner lines others h => ?_, fun elements others h => ?_,
    fun limit owner type other h => ?_, Param.length_flatMap_references⟩
  -- what is the same before and after each step is a function of the class of a spelling
  · exact congrArg (Quot.lift (ofDecls limit owner) fun _ _ hstep =>
      (FieldDecl.fieldsOfList_respells hstep).symm) (Quot.eqvGen_sound h)
  · exact congrArg (Quot.lift Shape.ofElements fun _ _ hstep =>
      (Shape.ofElements_respells hstep).symm) (Quot.eqvGen_sound h)
  · exact congrArg (Quot.lift (Shape.ofExpr limit owner) fun _ _ hstep =>
      (Shape.ofExpr_respells hstep).symm) (Quot.eqvGen_sound h)

/-- Two names share a struct, in which two names share a struct. -/
def nestedGroups : List FieldDecl :=
  [⟨["A", "B"], .struct [⟨["X", "Y"], .struct [], none, ⟨"a.go", 3, 2⟩⟩], none, ⟨"a.go", 2, 1⟩⟩]

/-- The same with a line for each name. -/
def nestedLines : List FieldDecl :=
  let inner : List FieldDecl :=
    [⟨["X"], .struct [], none, ⟨"a.go", 3, 2⟩⟩, ⟨["Y"], .struct [], none, ⟨"a.go", 3, 2⟩⟩]
  [⟨["A"], .struct inner, none, ⟨"a.go", 2, 1⟩⟩, ⟨["B"], .struct inner, none, ⟨"a.go", 2, 1⟩⟩]

/-- A method with two names for one type, and with a result without a name. -/
def groupedMethod : List Element :=
  [.method "m" [⟨["a", "b"], .predeclared "int", false⟩] [⟨[], .predeclared "error", false⟩] default]

/-- The same with a parameter for each name, and with a name for the result. -/
def spelledMethod : List Element :=
  [.method "m" [⟨["a"], .predeclared "int", false⟩, ⟨["b"], .predeclared "int", false⟩]
    [⟨["err"], .predeclared "error", false⟩] default]

/-- Two steps lead from the groups to the lines, one inside and one around it; at the limit, the
inner structs are reported four times in either spelling. -/
theorem ofDecls_of_spelling_nested :
    EqvGen FieldDecl.Respells nestedGroups nestedLines ∧
      ofDecls 1 "T" nestedGroups = ofDecls 1 "T" nestedLines ∧
      (ofDecls 1 "T" nestedGroups).2 =
        ["X", "Y", "X", "Y"].map (tooDeep 1 "T" · ⟨"a.go", 3, 2⟩) ∧
      EqvGen Element.Respells groupedMethod spelledMethod ∧
      Shape.ofElements groupedMethod = Shape.ofElements spelledMethod := by
  obtain ⟨hfields, helements, -, -⟩ := ofDecls_of_spelling
  have hlines : EqvGen FieldDecl.Respells nestedGroups nestedLines :=
    .trans _ _ _ (.rel _ _ (.type _ _ _ _ (.struct (.group _ _ _ (by decide) (by simp)))))
      (.rel _ _ (.group _ _ _ (by decide) (by simp)))
  have hmethod : EqvGen Element.Respells groupedMethod spelledMethod :=
    .trans _ _ _ (.rel _ _ (.params _ _ _ _ (.group _ _ _ (by decide))))
      (.rel _ _ (.results _ _ _ _ (.name "err" _ _ _)))
  exact ⟨hlines, hfields 1 "T" _ _ hlines, by decide, hmethod, helements _ _ hmethod⟩

end Field

end GoAtlas
