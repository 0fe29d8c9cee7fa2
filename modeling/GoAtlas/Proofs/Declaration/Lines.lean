import GoAtlas.Declaration.Fields

/-!
# What a line of a struct body gives

A line with names whose type is a struct written in place has a body that is expanded
(`FieldDecl.body?`); every other line is plain. A plain line gives the same fields under every
limit, none of them with children, and it is reported only if it has no type
(`FieldDecl.exists_fields_of_plain`). A line with a body gives one field for each name; the fields
of the body stand below each of them (`FieldDecl.fields_of_body`), unless the limit is reached
(`FieldDecl.fields_of_deep`).

So what is proved about the fields of a struct has three cases: no lines, a plain line, and a line
with a body (`FieldDecl.linesInduction`).
-/

namespace GoAtlas

namespace Field

/-- Whether a field holds a struct that is written in place. -/
def holdsStruct (f : Field) : Bool :=
  !f.embedded && f.reference == .inlineStruct

/-- A field without anything below it, and without a struct that could have fields. -/
structure IsLeaf (f : Field) : Prop where
  holdsNone : f.holdsStruct = false
  childless : f.children = []

end Field

/-- Only a struct written in place is referred to as one. -/
theorem Reference.ofExpr_ne_inlineStruct {type : TypeExpr} (h : ∀ body, type ≠ .struct body) :
    ofExpr type ≠ .inlineStruct := by
  cases type with
  | struct body => exact absurd rfl (h body)
  | pointer target => cases target <;> simp [ofExpr]
  | _ => simp [ofExpr]

namespace FieldDecl

variable {limit depth : Nat} {owner : String} {line : FieldDecl}

/-- The body of a line whose type is a struct written in place, if the line has names. -/
def body? : FieldDecl → Option (List FieldDecl)
  | ⟨_ :: _, .struct body, _, _⟩ => some body
  | _ => none

theorem body?_eq_some_iff {body : List FieldDecl} : line.body? = some body ↔
    ∃ name names tag position, line = ⟨name :: names, .struct body, tag, position⟩ := by
  constructor
  · intro h
    unfold body? at h
    split at h
    · rename_i name names body' tag position
      obtain rfl := Option.some.inj h
      exact ⟨name, names, tag, position, rfl⟩
    · cases h
  · rintro ⟨name, names, tag, position, rfl⟩
    rfl

/-- **Induction over the lines of a struct** and the lines of the bodies inside it. -/
@[elab_as_elim]
theorem linesInduction {motive : List FieldDecl → Prop} (nil : motive [])
    (plain : ∀ line rest, line.body? = none → motive rest → motive (line :: rest))
    (body : ∀ name names lines tag position rest, motive lines → motive rest →
      motive (⟨name :: names, .struct lines, tag, position⟩ :: rest)) (lines : List FieldDecl) :
    motive lines := by
  induction hsize : sizeOf lines using Nat.strongRecOn generalizing lines with
  | ind n ih =>
    subst hsize
    cases lines with
    | nil => exact nil
    | cons line rest =>
      have hrest : motive rest := ih _ (by rw [List.cons.sizeOf_spec]; omega) rest rfl
      cases hbody : line.body? with
      | none => exact plain line rest hbody hrest
      | some lines =>
        obtain ⟨name, names, tag, position, rfl⟩ := body?_eq_some_iff.mp hbody
        exact body name names lines tag position rest (ih _ (by simp; omega) lines rfl) hrest

/-! ## The fields of one line -/

theorem fieldsOfList_cons (line : FieldDecl) (rest : List FieldDecl) :
    fieldsOfList limit owner depth (line :: rest) =
      ((fields limit owner depth line).1 ++ (fieldsOfList limit owner depth rest).1,
        (fields limit owner depth line).2 ++ (fieldsOfList limit owner depth rest).2) := by
  rw [fieldsOfList]

/-- The reports of a line by itself: one if it has no type. -/
def ownReports (owner : String) (line : FieldDecl) : List Diagnostic :=
  if line.type.isMissing then [typeless owner line.names line.position] else []

/-- **A plain line** gives the same leaves under every limit. -/
theorem exists_fields_of_plain (h : line.body? = none) (owner : String) (depth : Nat) :
    ∃ fs, (∀ limit, fields limit owner depth line = (fs, ownReports owner line)) ∧
      ∀ f ∈ fs, f.IsLeaf ∧ f.depth = depth := by
  obtain ⟨names, type, tag, position⟩ := line
  by_cases hmissing : type = .missing
  · subst hmissing
    exact ⟨[], fun limit => by rw [fields]; rfl, nofun⟩
  have hreports : ownReports owner ⟨names, type, tag, position⟩ = [] := by
    cases type with
    | missing => exact absurd rfl hmissing
    | _ => rfl
  rw [hreports]
  cases names with
  | nil =>
    refine ⟨[embeddedField type tag position depth], fun limit => ?_, ?_⟩
    · rw [fields]
      exact hmissing
    · exact List.forall_mem_singleton.mpr ⟨⟨rfl, rfl⟩, rfl⟩
  | cons name names =>
    have hplain : ∀ body, type ≠ .struct body := by
      rintro body rfl
      cases h
    refine ⟨(name :: names).map fun n => namedField n (.ofExpr type) depth tag position [],
      fun limit => ?_, List.forall_mem_map.mpr fun n _ => ⟨⟨?_, rfl⟩, rfl⟩⟩
    · rw [fields]
      · exact hmissing
      · exact hplain
    · simp [Field.holdsStruct, namedField, Reference.ofExpr_ne_inlineStruct hplain]

variable {name : String} {names : List String} {body : List FieldDecl} {tag : Option String}
  {position : Position}

/-- **A line with a body** gives a field for each name, with the fields of the body below it. -/
theorem fields_of_body (h : depth < limit) :
    fields limit owner depth ⟨name :: names, .struct body, tag, position⟩ =
      ((name :: names).map fun n => namedField n .inlineStruct depth tag position
          (fieldsOfList limit owner (depth + 1) body).1,
        (name :: names).flatMap fun _ => (fieldsOfList limit owner (depth + 1) body).2) := by
  rw [fields, if_neg (by omega)]

/-- At the limit, a line with a body gives a field with the text of the struct for each name, and is
reported for each. -/
theorem fields_of_deep (h : limit ≤ depth) :
    fields limit owner depth ⟨name :: names, .struct body, tag, position⟩ =
      ((name :: names).map fun n =>
          namedField n (.verbatim "struct\x7b...\x7d") depth tag position [],
        (name :: names).map fun n => tooDeep limit owner n position) := by
  rw [fields, if_pos (by omega)]
  rfl

end FieldDecl

end GoAtlas
