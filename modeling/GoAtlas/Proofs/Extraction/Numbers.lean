import GoAtlas.Command.Run
import GoAtlas.Proofs.Codec.Texts
import GoAtlas.Proofs.Extraction.Units
import Mathlib.Data.List.Flatten

/-!
# The numbers in an extraction

What an extraction prints can only be read back when its numbers are numbers of 64 bits. They are as
soon as the places in the source can be counted in 64 bits: the lines and columns are places of the
source, the depth of a field is at most the number of lines around it, and the counters count
declarations and lines (`Command.fits_report`).

The places are those that declarations keep: of declarations, of lines of structs and of methods.
What bounds their number and their lines and columns is kept through every step of an extraction
(`Extraction.Bounded`).
-/

namespace GoAtlas

/-! ## Places -/

/-- The place of a line of an interface, if it declares a method. -/
def Element.places : Element → List Position
  | .method _ _ _ position => [position]
  | _ => []

mutual

/-- The places in a type that a declaration of the type keeps: those of the lines of a struct, and
of the structs inside it, or those of the methods of an interface. -/
def TypeExpr.places : TypeExpr → List Position
  | .struct lines => FieldDecl.placesOfList lines
  | .interface elements => elements.flatMap Element.places
  | _ => []

/-- The places in a line of a struct. -/
def FieldDecl.places : FieldDecl → List Position
  | ⟨_, type, _, position⟩ => position :: type.places

/-- The places in some lines of a struct. -/
def FieldDecl.placesOfList : List FieldDecl → List Position
  | [] => []
  | line :: rest => line.places ++ FieldDecl.placesOfList rest

end

/-- The places in a declaration of the source. -/
def TypeSpec.places (s : TypeSpec) : List Position :=
  s.position :: (s.type.map TypeExpr.places).getD []

/-- Neither line nor column of a place is further on than `bound`. -/
def Position.Within (bound : Nat) (p : Position) : Prop :=
  p.line ≤ bound ∧ p.column ≤ bound

instance (bound : Nat) (p : Position) : Decidable (p.Within bound) :=
  inferInstanceAs (Decidable (_ ∧ _))

variable {bound limit : Nat} {owner : String} {config : Config}

/-- A reference has no numbers. -/
@[simp] theorem Reference.fits_toJson (r : Reference) : r.toJson.Fits := by
  cases r <;> simp [toJson]

/-- A place can be written when it is not too far on. -/
theorem Position.Within.fits_toJson {p : Position} (h : p.Within bound)
    (hbound : bound < UInt64.size) : p.toJson.Fits := by
  obtain ⟨hline, hcolumn⟩ := h
  simp [toJson, hline.trans_lt hbound, hcolumn.trans_lt hbound]

/-- The place of a report is not further on than `bound`, if the report has one. -/
def Diagnostic.Within (bound : Nat) (d : Diagnostic) : Prop :=
  ∀ p ∈ d.position, p.Within bound

theorem Diagnostic.within_malformed {position : Position} {message : String}
    {subject : Option String} (h : position.Within bound) :
    (malformed position message subject).Within bound := by
  intro p hp
  obtain rfl := Option.some.inj hp
  exact h

theorem Diagnostic.Within.fits_toJson {d : Diagnostic} (h : d.Within bound)
    (hbound : bound < UInt64.size) : d.toJson.Fits := by
  obtain ⟨kind, message, subject, position, related⟩ := d
  have hposition : (Json.ofOption Position.toJson position).Fits := by
    cases position with
    | none => trivial
    | some p => exact (h p rfl).fits_toJson hbound
  cases related with
  | nil => simp [toJson, DiagnosticKind.toJson, Json.memberUnlessEmpty, hposition]
  | cons name rest =>
    simp [toJson, DiagnosticKind.toJson, Json.memberUnlessEmpty, Json.ofList, hposition]

/-! ## Fields -/

/-- The numbers of a field are its depth, those of its place, and those of the fields inside it. -/
theorem Field.fits_toJson_iff {x : Field} : x.toJson.Fits ↔
    x.depth < UInt64.size ∧ x.position.toJson.Fits ∧ ∀ c ∈ x.children, c.toJson.Fits := by
  obtain ⟨name, reference, embedded, depth, tag, position, children⟩ := x
  cases children with
  | nil => simp [toJson, toJsonList]
  | cons c rest => simp [toJson, toJsonList_eq_map]

/-- A field can be written, and its place is not further on than `bound`. -/
structure Field.Within (bound : Nat) (x : Field) : Prop where
  position : x.position.Within bound
  json : x.toJson.Fits

namespace FieldDecl

/-- Fields and reports that keep to the places of the lines they come from. -/
structure Keeps (bound : Nat) (read : List Field × List Diagnostic) : Prop where
  fields : ∀ x ∈ read.1, x.Within bound
  reports : ∀ d ∈ read.2, d.Within bound

variable {depth : Nat}

/-- The fields of one line share everything but their names. -/
theorem within_namedFields (hbound : bound < UInt64.size) (names : List String)
    (reference : Reference) (tag : Option String) {position : Position} {children : List Field}
    (hdepth : depth ≤ bound) (hposition : position.Within bound)
    (hchildren : ∀ c ∈ children, c.Within bound) :
    ∀ x ∈ names.map fun n => namedField n reference depth tag position children,
      x.Within bound :=
  List.forall_mem_map.mpr fun _ _ => ⟨hposition, Field.fits_toJson_iff.mpr
    ⟨hdepth.trans_lt hbound, hposition.fits_toJson hbound, fun c hc => (hchildren c hc).json⟩⟩

theorem within_embeddedField (hbound : bound < UInt64.size) (type : TypeExpr) (tag : Option String)
    {position : Position} (hdepth : depth ≤ bound) (hposition : position.Within bound) :
    (embeddedField type tag position depth).Within bound :=
  ⟨hposition, Field.fits_toJson_iff.mpr
    ⟨hdepth.trans_lt hbound, hposition.fits_toJson hbound, by simp [embeddedField]⟩⟩

/-- **The fields of some lines** keep to the places of the lines. A struct written in place takes
one line more than there are lines in it, so the depth never overtakes the number of lines. -/
theorem keeps_fieldsOfList (hbound : bound < UInt64.size) {lines : List FieldDecl} :
    (∀ p ∈ placesOfList lines, p.Within bound) → depth + (placesOfList lines).length ≤ bound →
      Keeps bound (fieldsOfList limit owner depth lines) := by
  -- the induction of the reader; the depth grows only where a body is entered, and the line that
  -- holds the body has a place of its own
  induction depth, lines using fieldsOfList.induct limit owner fun depth line =>
    (∀ p ∈ line.places, p.Within bound) → depth + line.places.length ≤ bound →
      Keeps bound (fields limit owner depth line) with
  | case1 depth names tag position hplaces hdepth =>
    rw [places, List.forall_mem_cons] at hplaces
    rw [fields]
    exact ⟨by simp, List.forall_mem_singleton.mpr (Diagnostic.within_malformed hplaces.1)⟩
  | case2 depth type tag position htype hplaces hdepth =>
    rw [places, List.forall_mem_cons] at hplaces
    have hread : fields limit owner depth ⟨[], type, tag, position⟩ =
        ([embeddedField type tag position depth], []) := by
      rw [fields]
      exact htype
    rw [hread]
    exact ⟨List.forall_mem_singleton.mpr
      (within_embeddedField hbound type tag (by omega) hplaces.1), by simp⟩
  | case3 depth name names body tag position hdeep hplaces hdepth =>
    rw [places, List.forall_mem_cons] at hplaces
    rw [fields, if_pos hdeep]
    exact ⟨within_namedFields hbound _ _ tag (by omega) hplaces.1 (by simp),
      List.forall_mem_map.mpr fun _ _ => Diagnostic.within_malformed hplaces.1⟩
  | case4 depth name names body tag position hdeep ih hplaces hdepth =>
    rw [places, List.forall_mem_cons] at hplaces
    rw [places, List.length_cons, TypeExpr.places] at hdepth
    have hinner := ih hplaces.2 (by omega)
    rw [fields, if_neg hdeep]
    refine ⟨within_namedFields hbound _ _ tag (by omega) hplaces.1 hinner.fields, fun d hd => ?_⟩
    obtain ⟨n, -, hd⟩ := List.mem_flatMap.mp hd
    exact hinner.reports d hd
  | case5 depth name names type tag position hmissing hstruct hplaces hdepth =>
    rw [places, List.forall_mem_cons] at hplaces
    have hread : fields limit owner depth ⟨name :: names, type, tag, position⟩ =
        ((name :: names).map fun n =>
          namedField n (.ofExpr type) depth tag position [], []) := by
      rw [fields]
      · exact hmissing
      · exact hstruct
    rw [hread]
    exact ⟨within_namedFields hbound _ _ tag (by omega) hplaces.1 (by simp), by simp⟩
  | case6 depth =>
    intro hplaces hdepth
    exact ⟨by simp [fieldsOfList], by simp [fieldsOfList]⟩
  | case7 depth line rest ihline ihrest =>
    intro hplaces hdepth
    rw [placesOfList, List.forall_mem_append] at hplaces
    rw [placesOfList, List.length_append] at hdepth
    have hline := ihline hplaces.1 (by omega)
    have hrest := ihrest hplaces.2 (by omega)
    rw [fieldsOfList]
    exact ⟨List.forall_mem_append.mpr ⟨hline.fields, hrest.fields⟩,
      List.forall_mem_append.mpr ⟨hline.reports, hrest.reports⟩⟩

theorem filter_embedded_namedFields (names : List String) (field : String → Field)
    (h : ∀ n, (field n).embedded = false) : (names.map field).filter Field.embedded = [] := by
  rw [List.filter_eq_nil_iff]
  intro x hx
  obtain ⟨n, -, rfl⟩ := List.mem_map.mp hx
  simp [h n]

/-- A line gives no embedded field but the one that stands at its own place. -/
theorem embedded_fields_sublist (line : FieldDecl) :
    (((fields limit owner depth line).1.filter Field.embedded).map Field.position).Sublist
      line.places := by
  have hnamed : ∀ {names : List String} {field : String → Field} {ps : List Position},
      (∀ n, (field n).embedded = false) →
        (((names.map field).filter Field.embedded).map Field.position).Sublist ps := by
    intro names field ps h
    rw [filter_embedded_namedFields names field h]
    exact List.nil_sublist _
  rw [fields.eq_def]
  split
  · exact List.nil_sublist _
  · exact (List.nil_sublist _).cons_cons _
  · split
    · exact hnamed fun n => rfl
    · exact hnamed fun n => rfl
  · exact hnamed fun n => rfl

/-- The embedded fields of some lines stand at places of the lines, in order. -/
theorem embedded_fieldsOfList_sublist (lines : List FieldDecl) :
    (((fieldsOfList limit owner depth lines).1.filter Field.embedded).map Field.position).Sublist
      (placesOfList lines) := by
  induction lines with
  | nil =>
    rw [fieldsOfList]
    exact List.nil_sublist _
  | cons line rest ih =>
    rw [fieldsOfList, placesOfList]
    dsimp only
    rw [List.filter_append, List.map_append]
    exact (embedded_fields_sublist line).append ih

end FieldDecl

/-! ## Declarations -/

/-- The places in a candidate. -/
def Candidate.places (c : Candidate) : List Position :=
  c.position :: c.type.places

/-- The places in a declaration: its own, and those of its embeddings. -/
def Declaration.places (d : Declaration) : List Position :=
  d.position :: d.embeddings.map Embedding.position

/-- A declaration can be written, and its place is not further on than `bound`. -/
structure Declaration.Within (bound : Nat) (d : Declaration) : Prop where
  position : d.position.Within bound
  json : d.toJson.Fits

/-- A declaration has the numbers of its place and of its shape. -/
theorem Declaration.fits_toJson_iff {d : Declaration} :
    d.toJson.Fits ↔ d.position.toJson.Fits ∧ d.shape.toJson.Fits := by
  simp [toJson]

theorem Element.fits_signature (hbound : bound < UInt64.size) {element : Element} {m : Signature}
    (h : element.signature? = some m) (hplaces : ∀ p ∈ element.places, p.Within bound) :
    m.toJson.Fits := by
  cases element with
  | method name params results position =>
    obtain rfl := Option.some.inj h
    have hposition := (hplaces position (List.mem_singleton_self _)).fits_toJson hbound
    simp [Signature.toJson, hposition]
  | _ => cases h

/-- An interface keeps the places of its methods only. -/
theorem Shape.fits_ofElements (hbound : bound < UInt64.size) {elements : List Element}
    (hplaces : ∀ p ∈ elements.flatMap Element.places, p.Within bound) :
    (ofElements elements).toJson.Fits := by
  have hmethods : ∀ m ∈ elements.filterMap Element.signature?, m.toJson.Fits := by
    intro m hm
    obtain ⟨element, helement, h⟩ := List.mem_filterMap.mp hm
    exact Element.fits_signature hbound h fun p hp =>
      hplaces p (List.mem_flatMap.mpr ⟨element, helement, hp⟩)
  have hwritten := Json.fits_ofList_iff.mpr hmethods
  simp [ofElements, toJson, hwritten]

/-- A field list can be written when its fields can. -/
theorem Shape.fits_struct {fields : List Field} (h : ∀ x ∈ fields, x.Within bound) :
    (struct fields).toJson.Fits := by
  have hwritten : (Json.ofList Field.toJson fields).Fits :=
    Json.fits_ofList_iff.mpr fun x hx => (h x hx).json
  simp [toJson, hwritten]

/-- **The declaration of a candidate** keeps to its places, and so do its reports. -/
theorem Declaration.within_ofCandidate (hbound : bound < UInt64.size) {c : Candidate}
    (hplaces : ∀ p ∈ c.places, p.Within bound) (hcount : c.places.length ≤ bound) :
    (ofCandidate config c).1.Within bound ∧
      (∀ r ∈ (ofCandidate config c).2, r.Within bound) ∧
      (ofCandidate config c).1.places.Sublist c.places := by
  rw [Candidate.places, List.forall_mem_cons] at hplaces
  rw [Candidate.places, List.length_cons] at hcount
  have hposition := hplaces.1.fits_toJson hbound
  rw [ofCandidate, Candidate.places]
  dsimp only
  cases htype : c.type with
  | struct lines =>
    rw [htype] at hplaces hcount
    rw [TypeExpr.places] at hcount
    have hkeeps := @FieldDecl.keeps_fieldsOfList bound config.maxInlineDepth c.name 0 hbound lines
      hplaces.2 (by omega)
    refine ⟨⟨hplaces.1, fits_toJson_iff.mpr ⟨hposition, Shape.fits_struct hkeeps.fields⟩⟩,
      hkeeps.reports, List.Sublist.cons_cons _ ?_⟩
    rw [embeddings, List.map_map]
    exact FieldDecl.embedded_fieldsOfList_sublist lines
  | interface elements =>
    rw [htype] at hplaces
    exact ⟨⟨hplaces.1, fits_toJson_iff.mpr
        ⟨hposition, Shape.fits_ofElements hbound hplaces.2⟩⟩,
      List.forall_mem_nil _, List.Sublist.cons_cons _ (List.nil_sublist _)⟩
  | _ =>
    refine ⟨⟨hplaces.1, fits_toJson_iff.mpr ⟨hposition, ?_⟩⟩, List.forall_mem_nil _,
      List.Sublist.cons_cons _ (List.nil_sublist _)⟩
    simp [Shape.ofExpr, Shape.toJson]

/-! ## Candidates -/

namespace Candidate

/-- A candidate has the places of the declaration that it comes from. -/
theorem places_ofSpec {s : TypeSpec} {c : Candidate} (h : ofSpec s = .ok c) :
    s.places = c.places := by
  rw [ofSpec] at h
  split at h
  · cases h
  · split at h
    · cases h
    · cases h
    · rename_i type htype
      obtain rfl := Except.ok.inj h
      rw [TypeSpec.places, htype]
      rfl

/-- The places in the candidates among some declarations are places in the declarations. -/
theorem places_sublist (specs : List TypeSpec) :
    ((ofSpecs specs).1.flatMap places).Sublist (specs.flatMap TypeSpec.places) := by
  induction specs with
  | nil => exact List.nil_sublist _
  | cons s rest ih =>
    rw [ofSpecs] at ih ⊢
    dsimp only at ih ⊢
    rw [List.filterMap_cons, List.flatMap_cons]
    cases hs : ofSpec s with
    | error d => exact ih.trans (List.sublist_append_right _ _)
    | ok c =>
      dsimp only [Except.toOption]
      rw [List.flatMap_cons, ← places_ofSpec hs]
      exact ih.append_left _

end Candidate

/-! ## Extractions

An extraction is known by what it sums up to: the declarations are the first of each name, and the
reports have the gists of the faults. Both keep to the places of the source. -/

namespace Extraction

/-- Some declarations of the source have no more places than `bound`, and none further on. -/
structure Bounded (bound : Nat) (specs : List TypeSpec) : Prop where
  within : ∀ p ∈ specs.flatMap TypeSpec.places, p.Within bound
  count : (specs.flatMap TypeSpec.places).length ≤ bound

variable {x : Extraction} {specs : List TypeSpec}

section Candidates

variable (hspecs : Bounded bound specs) {c : Candidate} (hc : c ∈ (Candidate.ofSpecs specs).1)

include hspecs hc

theorem Bounded.within_candidate : ∀ p ∈ c.places, p.Within bound := by
  intro p hp
  exact hspecs.within p
    ((Candidate.places_sublist specs).subset (List.mem_flatMap.mpr ⟨c, hc, hp⟩))

/-- No candidate alone has more places than all declarations together. -/
theorem Bounded.count_candidate : c.places.length ≤ bound := by
  have hle := (List.sublist_flatten_of_mem (List.mem_map_of_mem (f := Candidate.places) hc)).length_le
  rw [← List.flatMap_def] at hle
  exact (hle.trans (Candidate.places_sublist specs).length_le).trans hspecs.count

end Candidates

/-- The declarations that some candidates make have no other places than the candidates. -/
theorem places_declared_sublist (hbound : bound < UInt64.size) (hspecs : Bounded bound specs) :
    ((declared config specs).flatMap Declaration.places).Sublist
      (specs.flatMap TypeSpec.places) := by
  rw [declared, TypeGraph.declarationsOf, List.flatMap_map]
  refine (List.Sublist.flatMap_right _ fun c hc => ?_).trans (Candidate.places_sublist specs)
  exact (Declaration.within_ofCandidate hbound (hspecs.within_candidate hc)
    (hspecs.count_candidate hc)).2.2

section Sums

variable (hbound : bound < UInt64.size) (hspecs : Bounded bound specs)
  (hx : SumsUp config x specs)

include hbound hspecs hx

/-- The places in a graph are some of those in the source, in order. -/
theorem SumsUp.places_sublist : (x.graph.declarations.flatMap Declaration.places).Sublist
    (specs.flatMap TypeSpec.places) := by
  rw [hx.declarations]
  exact (firsts_sublist.flatMap _).trans (places_declared_sublist hbound hspecs)

end Sums

end Extraction

end GoAtlas
