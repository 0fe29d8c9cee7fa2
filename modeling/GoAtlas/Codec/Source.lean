import GoAtlas.Json.Basic
import GoAtlas.Declaration.Candidate

/-!
# Source units in JSON

Structures are objects with a member for each part. A type without parts is its tag alone, the other
alternatives stand under their tag. Type expressions nest, so their decoder takes a bound on the
nesting; the depth of the JSON value is one.
-/

namespace GoAtlas

namespace Position

/-- A position as JSON. -/
def toJson (p : Position) : Json :=
  .obj [("unit", .str p.unit), ("line", .nat p.line), ("column", .nat p.column)]

/-- The position that a JSON value is. -/
def ofJson? (v : Json) : Option Position := do
  let v ← v.fields? ["unit", "line", "column"] 0
  let unit ← v.required "unit" Json.str?
  let line ← v.required "line" Json.nat?
  let column ← v.required "column" Json.nat?
  return { unit, line, column }

end Position

mutual

/-- A type expression as JSON. -/
def TypeExpr.toJson : TypeExpr → Json
  | .named package name =>
    .tagged "Named" (.obj [("package", .ofOption .str package), ("name", .str name)])
  | .predeclared name => .tagged "Primitive" (.str name)
  | .pointer target => .tagged "Pointer" target.toJson
  | .struct fields => .tagged "Struct" (.arr (FieldDecl.toJsonList fields))
  | .interface elements => .tagged "Interface" (.arr (Element.toJsonList elements))
  | .verbatim text => .tagged "Other" (.str text)
  | .missing => .str "Missing"

/-- A line of a struct body as JSON. -/
def FieldDecl.toJson : FieldDecl → Json
  | ⟨names, type, tag, position⟩ =>
    .obj
      [("names", .ofList .str names), ("ty", type.toJson), ("tag", .ofOption .str tag),
        ("position", position.toJson)]

/-- A line of an interface body as JSON. -/
def Element.toJson : Element → Json
  | .method name params results position =>
    .tagged "Method"
      (.obj
        [("name", .str name), ("params", .arr (Param.toJsonList params)),
          ("results", .arr (Param.toJsonList results)), ("position", position.toJson)])
  | .embed type => .tagged "Embed" type.toJson
  | .constraint text => .tagged "Constraint" (.str text)

/-- Parameters of one type as JSON. -/
def Param.toJson : Param → Json
  | ⟨names, type, variadic⟩ =>
    .obj [("names", .ofList .str names), ("ty", type.toJson), ("variadic", .bool variadic)]

/-- The lines of a struct body as JSON. -/
def FieldDecl.toJsonList : List FieldDecl → List Json
  | [] => []
  | x :: rest => x.toJson :: FieldDecl.toJsonList rest

/-- The lines of an interface body as JSON. -/
def Element.toJsonList : List Element → List Json
  | [] => []
  | x :: rest => x.toJson :: Element.toJsonList rest

/-- A list of parameters as JSON. -/
def Param.toJsonList : List Param → List Json
  | [] => []
  | x :: rest => x.toJson :: Param.toJsonList rest

end

namespace FieldDecl

/-- The line of a struct body that a JSON value is, when `type` decodes types. -/
def decode (type : Json → Option TypeExpr) (v : Json) : Option FieldDecl := do
  let v ← v.fields? ["names", "ty", "tag", "position"] 0
  let names ← v.required "names" (Json.list? Json.str?)
  let ty ← v.required "ty" type
  let tag ← v.optional "tag" Json.str?
  let position ← v.required "position" Position.ofJson?
  return { names, type := ty, tag, position }

end FieldDecl

namespace Param

/-- The parameters that a JSON value is, when `type` decodes types. -/
def decode (type : Json → Option TypeExpr) (v : Json) : Option Param := do
  let v ← v.fields? ["names", "ty", "variadic"] 0
  let names ← v.required "names" (Json.list? Json.str?)
  let ty ← v.required "ty" type
  let variadic ← v.required "variadic" Json.bool?
  return { names, type := ty, variadic }

end Param

namespace Element

/-- The line of an interface body that a JSON value is, when `type` decodes types. -/
def decode (type : Json → Option TypeExpr) (v : Json) : Option Element :=
  match v.tag? with
  | some ("Method", some body) => do
    let body ← body.fields? ["name", "params", "results", "position"] 0
    let name ← body.required "name" Json.str?
    let params ← body.required "params" (Json.list? (Param.decode type))
    let results ← body.required "results" (Json.list? (Param.decode type))
    let position ← body.required "position" Position.ofJson?
    return .method name params results position
  | some ("Embed", some body) => (type body).map .embed
  | some ("Constraint", some (.str text)) => some (.constraint text)
  | _ => none

end Element

namespace TypeExpr

/-- The type expression that a JSON value is, when `inner` decodes the types inside it. -/
def decodeWith (inner : Json → Option TypeExpr) (v : Json) : Option TypeExpr :=
  match v.tag? with
  | some ("Named", some body) => do
    let body ← body.fields? ["package", "name"] 0
    let package ← body.optional "package" Json.str?
    let name ← body.required "name" Json.str?
    return .named package name
  | some ("Primitive", some (.str name)) => some (.predeclared name)
  | some ("Pointer", some body) => (inner body).map .pointer
  | some ("Struct", some body) => (body.list? (FieldDecl.decode inner)).map .struct
  | some ("Interface", some body) => (body.list? (Element.decode inner)).map .interface
  | some ("Other", some (.str text)) => some (.verbatim text)
  | some ("Missing", body) => if Json.isUnit body then some .missing else none
  | _ => none

/-- The type expression that a JSON value is, with fewer than `fuel` types around the innermost. -/
def decode : Nat → Json → Option TypeExpr
  | 0 => fun _ => none
  | fuel + 1 => decodeWith (decode fuel)

/-- The type expression that a JSON value is. -/
def ofJson? (v : Json) : Option TypeExpr :=
  decode (v.depth + 1) v

end TypeExpr

namespace FieldDecl

/-- The line of a struct body that a JSON value is. -/
def ofJson? (v : Json) : Option FieldDecl :=
  decode TypeExpr.ofJson? v

end FieldDecl

namespace Param

/-- The parameters of one type that a JSON value is. -/
def ofJson? (v : Json) : Option Param :=
  decode TypeExpr.ofJson? v

end Param

namespace Element

/-- The line of an interface body that a JSON value is. -/
def ofJson? (v : Json) : Option Element :=
  decode TypeExpr.ofJson? v

end Element

namespace TypeSpec

/-- A declaration of the source as JSON. -/
def toJson (s : TypeSpec) : Json :=
  .obj
    [("name", .ofOption .str s.name), ("doc", .ofOption .str s.doc),
      ("type_params", .ofOption .str s.typeParams), ("alias_syntax", .bool s.isAlias),
      ("underlying", .ofOption TypeExpr.toJson s.type), ("position", s.position.toJson)]

/-- The declaration of the source that a JSON value is. -/
def ofJson? (v : Json) : Option TypeSpec := do
  let v ← v.fields? ["name", "doc", "type_params", "alias_syntax", "underlying", "position"] 0
  let name ← v.optional "name" Json.str?
  let doc ← v.optional "doc" Json.str?
  let typeParams ← v.optional "type_params" Json.str?
  let isAlias ← v.required "alias_syntax" Json.bool?
  let type ← v.optional "underlying" TypeExpr.ofJson?
  let position ← v.required "position" Position.ofJson?
  return { name, doc, typeParams, isAlias, type, position }

end TypeSpec

namespace Item

/-- An item as JSON. -/
def toJson : Item → Json
  | single spec => .tagged "Single" spec.toJson
  | group position members =>
    .tagged "Group"
      (.obj [("position", position.toJson), ("members", .ofList TypeSpec.toJson members)])

/-- The item that a JSON value is. -/
def ofJson? (v : Json) : Option Item :=
  match v.tag? with
  | some ("Single", some body) => (TypeSpec.ofJson? body).map single
  | some ("Group", some body) => do
    let body ← body.fields? ["position", "members"] 0
    let position ← body.required "position" Position.ofJson?
    let members ← body.required "members" (Json.list? TypeSpec.ofJson?)
    return .group position members
  | _ => none

end Item

namespace SourceUnit

/-- A unit as JSON. -/
def toJson (u : SourceUnit) : Json :=
  .obj [("unit", .str u.name), ("items", .ofList Item.toJson u.items)]

/-- The unit that a JSON value is. -/
def ofJson? (v : Json) : Option SourceUnit := do
  let v ← v.fields? ["unit", "items"] 0
  let name ← v.required "unit" Json.str?
  let items ← v.required "items" (Json.list? Item.ofJson?)
  return { name, items }

end SourceUnit

namespace Candidate

/-- A candidate as JSON. -/
def toJson (c : Candidate) : Json :=
  .obj
    [("name", .str c.name), ("doc", .ofOption .str c.doc),
      ("type_params", .ofOption .str c.typeParams), ("alias_syntax", .bool c.isAlias),
      ("underlying", c.type.toJson), ("position", c.position.toJson)]

/-- The candidate that a JSON value is. -/
def ofJson? (v : Json) : Option Candidate := do
  let v ← v.fields? ["name", "doc", "type_params", "alias_syntax", "underlying", "position"] 0
  let name ← v.required "name" Json.str?
  let doc ← v.optional "doc" Json.str?
  let typeParams ← v.optional "type_params" Json.str?
  let isAlias ← v.required "alias_syntax" Json.bool?
  let type ← v.required "underlying" TypeExpr.ofJson?
  let position ← v.required "position" Position.ofJson?
  return { name, doc, typeParams, isAlias, type, position }

end Candidate

end GoAtlas
