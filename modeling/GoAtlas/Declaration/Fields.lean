import GoAtlas.Declaration.Basic
import GoAtlas.Declaration.Embedded
import GoAtlas.Diagnostic

/-!
# Fields of a struct body

A line of a struct body gives one field for each of its names, or one embedded field if it has no
name. A struct written in place gives the fields of its own body as children, down to a limit; below
the limit it is reported and kept as text. A line without a type is reported and gives no field.
-/

namespace GoAtlas

namespace FieldDecl

/-- The report for a line without a type. -/
def typeless (owner : String) (names : List String) (position : Position) : Diagnostic :=
  .malformed position ("field " ++ ", ".intercalate names ++ " of " ++ owner ++ " has no type")
    (some owner)

/-- The report for a struct written in place below the limit. -/
def tooDeep (limit : Nat) (owner name : String) (position : Position) : Diagnostic :=
  .malformed position
    ("inline struct in " ++ owner ++ "." ++ name ++ " nested deeper than " ++ toString limit ++
      "; not expanded")
    (some owner)

/-- The field of a line that embeds its type: it is named after the type. -/
def embeddedField (type : TypeExpr) (tag : Option String) (position : Position) (depth : Nat) :
    Field :=
  let reference := Reference.ofEmbedded type
  { name := reference.simpleName?.getD type.render
    reference
    embedded := true
    depth
    tag
    position
    children := [] }

/-- A named field. -/
def namedField (name : String) (reference : Reference) (depth : Nat) (tag : Option String)
    (position : Position) (children : List Field) : Field :=
  { name, reference, embedded := false, depth, tag, position, children }

mutual

/-- The fields of one line of a struct body, with the reports. -/
def fields (limit : Nat) (owner : String) (depth : Nat) : FieldDecl → List Field × List Diagnostic
  | ⟨names, .missing, _, position⟩ => ([], [typeless owner names position])
  | ⟨[], type, tag, position⟩ => ([embeddedField type tag position depth], [])
  | ⟨name :: names, .struct body, tag, position⟩ =>
    if limit < depth + 1 then
      ((name :: names).map fun n =>
          namedField n (.verbatim (TypeExpr.struct body).render) depth tag position [],
        (name :: names).map fun n => tooDeep limit owner n position)
    else
      let inner := fieldsOfList limit owner (depth + 1) body
      ((name :: names).map fun n => namedField n .inlineStruct depth tag position inner.1,
        (name :: names).flatMap fun _ => inner.2)
  | ⟨name :: names, type, tag, position⟩ =>
    ((name :: names).map fun n => namedField n (.ofExpr type) depth tag position [], [])

/-- The fields of the lines of a struct body in order, with the reports. -/
def fieldsOfList (limit : Nat) (owner : String) (depth : Nat) :
    List FieldDecl → List Field × List Diagnostic
  | [] => ([], [])
  | line :: rest =>
    let first := fields limit owner depth line
    let others := fieldsOfList limit owner depth rest
    (first.1 ++ others.1, first.2 ++ others.2)

end

end FieldDecl

/-- The fields of a struct body with at most `limit` structs around each, with the reports. -/
def Field.ofDecls (limit : Nat) (owner : String) (lines : List FieldDecl) :
    List Field × List Diagnostic :=
  FieldDecl.fieldsOfList limit owner 0 lines

end GoAtlas
