import GoAtlas.Codec.Source
import GoAtlas.Config
import GoAtlas.Diagnostic
import GoAtlas.Declaration.Basic

/-!
# Declarations, diagnostics and configurations in JSON

Two members are left out when their lists are empty: the children of a field and the other names of
a diagnostic. Every member of a configuration has its default when it is missing.
-/

namespace GoAtlas

namespace Reference

/-- A reference as JSON. -/
def toJson : Reference → Json
  | named package name pointer =>
    .tagged "Named"
      (.obj [("package", .ofOption .str package), ("name", .str name), ("pointer", .bool pointer)])
  | predeclared name => .tagged "Primitive" (.str name)
  | inlineStruct => .str "InlineStruct"
  | inlineInterface => .str "InlineInterface"
  | verbatim text => .tagged "Opaque" (.str text)

/-- The reference that a JSON value is. -/
def ofJson? (v : Json) : Option Reference :=
  match v.tag? with
  | some ("Named", some body) => do
    let body ← body.fields? ["package", "name", "pointer"] 0
    let package ← body.optional "package" Json.str?
    let name ← body.required "name" Json.str?
    let pointer ← body.required "pointer" Json.bool?
    return .named package name pointer
  | some ("Primitive", some (.str name)) => some (predeclared name)
  | some ("InlineStruct", body) => if Json.isUnit body then some inlineStruct else none
  | some ("InlineInterface", body) => if Json.isUnit body then some inlineInterface else none
  | some ("Opaque", some (.str text)) => some (verbatim text)
  | _ => none

end Reference

namespace Field

mutual

/-- A field as JSON. -/
def toJson : Field → Json
  | ⟨name, reference, embedded, depth, tag, position, children⟩ =>
    .obj
      ([("name", .str name), ("type_ref", reference.toJson), ("embedded", .bool embedded),
          ("depth", .nat depth), ("tag", .ofOption .str tag), ("position", position.toJson)] ++
        match toJsonList children with
        | [] => []
        | items => [("children", .arr items)])

/-- Some fields as JSON. -/
def toJsonList : List Field → List Json
  | [] => []
  | x :: rest => x.toJson :: toJsonList rest

end

/-- The field that a JSON value is, when `inner` decodes the fields inside it. -/
def decodeWith (inner : Json → Option Field) (v : Json) : Option Field := do
  let v ← v.fields? ["name", "type_ref", "embedded", "depth", "tag", "position", "children"] 1
  let name ← v.required "name" Json.str?
  let reference ← v.required "type_ref" Reference.ofJson?
  let embedded ← v.required "embedded" Json.bool?
  let depth ← v.required "depth" Json.nat?
  let tag ← v.optional "tag" Json.str?
  let position ← v.required "position" Position.ofJson?
  let children ← v.withDefault "children" [] (Json.list? inner)
  return { name, reference, embedded, depth, tag, position, children }

/-- The field that a JSON value is, with fewer than `fuel` fields around the innermost. -/
def decode : Nat → Json → Option Field
  | 0 => fun _ => none
  | fuel + 1 => decodeWith (decode fuel)

/-- The field that a JSON value is. -/
def ofJson? (v : Json) : Option Field :=
  decode (v.depth + 1) v

end Field

namespace Signature

/-- A signature as JSON. -/
def toJson (s : Signature) : Json :=
  .obj
    [("name", .str s.name), ("params", .ofList Reference.toJson s.params),
      ("results", .ofList Reference.toJson s.results), ("position", s.position.toJson)]

/-- The signature that a JSON value is. -/
def ofJson? (v : Json) : Option Signature := do
  let v ← v.fields? ["name", "params", "results", "position"] 0
  let name ← v.required "name" Json.str?
  let params ← v.required "params" (Json.list? Reference.ofJson?)
  let results ← v.required "results" (Json.list? Reference.ofJson?)
  let position ← v.required "position" Position.ofJson?
  return { name, params, results, position }

end Signature

namespace Shape

/-- A shape as JSON. -/
def toJson : Shape → Json
  | aliasType target => .tagged "Alias" (.obj [("target", target.toJson)])
  | struct fields => .tagged "Struct" (.obj [("fields", .ofList Field.toJson fields)])
  | interface methods embeds constraints =>
    .tagged "Interface"
      (.obj
        [("methods", .ofList Signature.toJson methods), ("embeds", .ofList Reference.toJson embeds),
          ("constraints", .ofList .str constraints)])

/-- The shape that a JSON value is. -/
def ofJson? (v : Json) : Option Shape :=
  match v.tag? with
  | some ("Alias", some body) => do
    let body ← body.fields? ["target"] 0
    let target ← body.required "target" Reference.ofJson?
    return .aliasType target
  | some ("Struct", some body) => do
    let body ← body.fields? ["fields"] 0
    let fields ← body.required "fields" (Json.list? Field.ofJson?)
    return .struct fields
  | some ("Interface", some body) => do
    let body ← body.fields? ["methods", "embeds", "constraints"] 0
    let methods ← body.required "methods" (Json.list? Signature.ofJson?)
    let embeds ← body.required "embeds" (Json.list? Reference.ofJson?)
    let constraints ← body.required "constraints" (Json.list? Json.str?)
    return .interface methods embeds constraints
  | _ => none

end Shape

namespace ShapeTag

/-- A kind of shape as JSON. -/
def toJson : ShapeTag → Json
  | aliasType => .str "Alias"
  | struct => .str "Struct"
  | interface => .str "Interface"

/-- The kind of shape that a JSON value is. -/
def ofJson? (v : Json) : Option ShapeTag :=
  match v.tag? with
  | some ("Alias", body) => if Json.isUnit body then some aliasType else none
  | some ("Struct", body) => if Json.isUnit body then some struct else none
  | some ("Interface", body) => if Json.isUnit body then some interface else none
  | _ => none

end ShapeTag

namespace Declaration

/-- A declaration as JSON. -/
def toJson (d : Declaration) : Json :=
  .obj
    [("name", .str d.name), ("doc", .ofOption .str d.doc),
      ("type_params", .ofOption .str d.typeParams), ("alias_syntax", .bool d.isAlias),
      ("position", d.position.toJson), ("shape", d.shape.toJson)]

/-- The declaration that a JSON value is. -/
def ofJson? (v : Json) : Option Declaration := do
  let v ← v.fields? ["name", "doc", "type_params", "alias_syntax", "position", "shape"] 0
  let name ← v.required "name" Json.str?
  let doc ← v.optional "doc" Json.str?
  let typeParams ← v.optional "type_params" Json.str?
  let isAlias ← v.required "alias_syntax" Json.bool?
  let position ← v.required "position" Position.ofJson?
  let shape ← v.required "shape" Shape.ofJson?
  return { name, doc, typeParams, isAlias, position, shape }

end Declaration

namespace Embedding

/-- An embedding as JSON. -/
def toJson (e : Embedding) : Json :=
  .obj [("from", .str e.owner), ("target", e.target.toJson), ("position", e.position.toJson)]

/-- The embedding that a JSON value is. -/
def ofJson? (v : Json) : Option Embedding := do
  let v ← v.fields? ["from", "target", "position"] 0
  let owner ← v.required "from" Json.str?
  let target ← v.required "target" Reference.ofJson?
  let position ← v.required "position" Position.ofJson?
  return { owner, target, position }

end Embedding

namespace DiagnosticKind

/-- A kind of diagnostic as JSON. -/
def toJson (k : DiagnosticKind) : Json :=
  .str k.label

/-- The kind of diagnostic with a label. -/
def ofLabel? : String → Option DiagnosticKind
  | "MalformedDeclaration" => some malformedDeclaration
  | "DuplicateTypeName" => some duplicateTypeName
  | "EmbeddingCycle" => some embeddingCycle
  | "NotFound" => some notFound
  | _ => none

/-- The kind of diagnostic that a JSON value is. -/
def ofJson? (v : Json) : Option DiagnosticKind :=
  match v.tag? with
  | some (label, body) => if Json.isUnit body then ofLabel? label else none
  | none => none

end DiagnosticKind

namespace Diagnostic

/-- A diagnostic as JSON. -/
def toJson (d : Diagnostic) : Json :=
  .obj
    ([("kind", d.kind.toJson), ("message", .str d.message), ("subject", .ofOption .str d.subject),
        ("position", .ofOption Position.toJson d.position)] ++
      Json.memberUnlessEmpty "related" .str d.related)

/-- The diagnostic that a JSON value is. -/
def ofJson? (v : Json) : Option Diagnostic := do
  let v ← v.fields? ["kind", "message", "subject", "position", "related"] 1
  let kind ← v.required "kind" DiagnosticKind.ofJson?
  let message ← v.required "message" Json.str?
  let subject ← v.optional "subject" Json.str?
  let position ← v.optional "position" Position.ofJson?
  let related ← v.withDefault "related" [] (Json.list? Json.str?)
  return { kind, message, subject, position, related }

end Diagnostic

namespace Config

/-- A configuration as JSON. -/
def toJson (c : Config) : Json :=
  .obj
    [("max_inline_depth", .nat c.maxInlineDepth), ("keep_doc_comments", .bool c.keepDocComments),
      ("resolve_interface_embeds", .bool c.resolveInterfaceEmbeds),
      ("detect_cycles", .bool c.detectCycles)]

/-- The configuration that a JSON value is. -/
def ofJson? (v : Json) : Option Config := do
  let v ← v.fields?
    ["max_inline_depth", "keep_doc_comments", "resolve_interface_embeds", "detect_cycles"] 4
  let maxInlineDepth ← v.withDefault "max_inline_depth" ({} : Config).maxInlineDepth Json.nat?
  let keepDocComments ← v.withDefault "keep_doc_comments" ({} : Config).keepDocComments Json.bool?
  let resolveInterfaceEmbeds ←
    v.withDefault "resolve_interface_embeds" ({} : Config).resolveInterfaceEmbeds Json.bool?
  let detectCycles ← v.withDefault "detect_cycles" ({} : Config).detectCycles Json.bool?
  return { maxInlineDepth, keepDocComments, resolveInterfaceEmbeds, detectCycles }

end Config

end GoAtlas
