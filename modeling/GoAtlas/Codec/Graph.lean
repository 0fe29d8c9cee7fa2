import GoAtlas.Codec.Declaration
import GoAtlas.Extraction
import GoAtlas.Graph.Stats
import GoAtlas.View.FieldPaths
import GoAtlas.View.Flattened
import GoAtlas.View.MethodSet

/-!
# Graphs and views in JSON

A graph is written as its declarations and its embeddings. When it is read, a declaration whose name
is taken is dropped, and the embeddings are kept as they are.
-/

namespace GoAtlas

namespace TypeGraph

/-- A graph as JSON. -/
def toJson (g : TypeGraph) : Json :=
  .obj
    [("declarations", .ofList Declaration.toJson g.declarations),
      ("embeddings", .ofList Embedding.toJson g.embeddings)]

/-- The declarations and the embeddings that a JSON value lists. -/
def parts? (v : Json) : Option (List Declaration × List Embedding) := do
  let v ← v.fields? ["declarations", "embeddings"] 0
  let declarations ← v.required "declarations" (Json.list? Declaration.ofJson?)
  let embeddings ← v.required "embeddings" (Json.list? Embedding.ofJson?)
  return (declarations, embeddings)

/-- The graph that a JSON value is. -/
def ofJson? (v : Json) : Option TypeGraph :=
  (parts? v).map fun (declarations, embeddings) => ofParts declarations embeddings

end TypeGraph

namespace Stats

/-- The counters of a graph as JSON. -/
def toJson (s : Stats) : Json :=
  .obj
    [("declarations", .nat s.declarations), ("aliases", .nat s.aliases),
      ("structs", .nat s.structs), ("interfaces", .nat s.interfaces),
      ("embeddings", .nat s.embeddings), ("unresolved_embeddings", .nat s.unresolvedEmbeddings),
      ("unresolved_aliases", .nat s.unresolvedAliases)]

/-- The counters that a JSON value is. -/
def ofJson? (v : Json) : Option Stats := do
  let v ← v.fields?
    ["declarations", "aliases", "structs", "interfaces", "embeddings", "unresolved_embeddings",
      "unresolved_aliases"] 0
  let declarations ← v.required "declarations" Json.nat?
  let aliases ← v.required "aliases" Json.nat?
  let structs ← v.required "structs" Json.nat?
  let interfaces ← v.required "interfaces" Json.nat?
  let embeddings ← v.required "embeddings" Json.nat?
  let unresolvedEmbeddings ← v.required "unresolved_embeddings" Json.nat?
  let unresolvedAliases ← v.required "unresolved_aliases" Json.nat?
  return { declarations, aliases, structs, interfaces, embeddings, unresolvedEmbeddings,
           unresolvedAliases }

end Stats

namespace ExternalReason

/-- The reason why a reference leads out of the graph, as JSON. -/
def toJson : ExternalReason → Json
  | qualified package name =>
    .tagged "Qualified" (.obj [("package", .str package), ("name", .str name)])
  | predeclared name => .tagged "Predeclared" (.str name)
  | undeclared name => .tagged "Undeclared" (.str name)
  | unnamed text => .tagged "Unnamed" (.str text)

/-- The reason that a JSON value is. -/
def ofJson? (v : Json) : Option ExternalReason :=
  match v.tag? with
  | some ("Qualified", some body) => do
    let body ← body.fields? ["package", "name"] 0
    let package ← body.required "package" Json.str?
    let name ← body.required "name" Json.str?
    return .qualified package name
  | some ("Predeclared", some (.str name)) => some (predeclared name)
  | some ("Undeclared", some (.str name)) => some (undeclared name)
  | some ("Unnamed", some (.str text)) => some (unnamed text)
  | _ => none

end ExternalReason

namespace Resolution

/-- Where a reference leads, as JSON. -/
def toJson : Resolution → Json
  | declared name => .tagged "Resolved" (.str name)
  | external reason => .tagged "External" reason.toJson

/-- The resolution that a JSON value is. -/
def ofJson? (v : Json) : Option Resolution :=
  match v.tag? with
  | some ("Resolved", some (.str name)) => some (declared name)
  | some ("External", some body) => (ExternalReason.ofJson? body).map external
  | _ => none

end Resolution

namespace Extraction

/-- An extraction as JSON. -/
def toJson (x : Extraction) : Json :=
  .obj
    [("graph", x.graph.toJson), ("diagnostics", .ofList Diagnostic.toJson x.diagnostics)]

/-- The extraction that a JSON value is. -/
def ofJson? (v : Json) : Option Extraction := do
  let v ← v.fields? ["graph", "diagnostics"] 0
  let graph ← v.required "graph" TypeGraph.ofJson?
  let diagnostics ← v.required "diagnostics" (Json.list? Diagnostic.ofJson?)
  return { graph, diagnostics }

end Extraction

namespace PromotedField

/-- A field of a flattened struct as JSON. -/
def toJson (f : PromotedField) : Json :=
  .obj
    [("field", f.field.toJson), ("owner", .str f.owner), ("via", .ofList .str f.via),
      ("level", .nat f.level)]

/-- The field of a flattened struct that a JSON value is. -/
def ofJson? (v : Json) : Option PromotedField := do
  let v ← v.fields? ["field", "owner", "via", "level"] 0
  let field ← v.required "field" Field.ofJson?
  let owner ← v.required "owner" Json.str?
  let via ← v.required "via" (Json.list? Json.str?)
  let level ← v.required "level" Json.nat?
  return { field, owner, via, level }

end PromotedField

namespace Flattened

/-- A flattened struct as JSON. -/
def toJson (x : Flattened) : Json :=
  .obj
    [("type_name", .str x.typeName), ("fields", .ofList PromotedField.toJson x.fields),
      ("cycle", .ofOption (.ofList .str) x.cycle), ("unresolved", .ofList .str x.unresolved)]

/-- The flattened struct that a JSON value is. -/
def ofJson? (v : Json) : Option Flattened := do
  let v ← v.fields? ["type_name", "fields", "cycle", "unresolved"] 0
  let typeName ← v.required "type_name" Json.str?
  let fields ← v.required "fields" (Json.list? PromotedField.ofJson?)
  let cycle ← v.optional "cycle" (Json.list? Json.str?)
  let unresolved ← v.required "unresolved" (Json.list? Json.str?)
  return { typeName, fields, cycle, unresolved }

end Flattened

namespace FieldPath

/-- A path of a field as JSON. -/
def toJson (p : FieldPath) : Json :=
  .obj
    [("path", .str p.path), ("type_ref", p.reference.toJson), ("depth", .nat p.depth),
      ("embedded", .bool p.embedded)]

/-- The path of a field that a JSON value is. -/
def ofJson? (v : Json) : Option FieldPath := do
  let v ← v.fields? ["path", "type_ref", "depth", "embedded"] 0
  let path ← v.required "path" Json.str?
  let reference ← v.required "type_ref" Reference.ofJson?
  let depth ← v.required "depth" Json.nat?
  let embedded ← v.required "embedded" Json.bool?
  return { path, reference, depth, embedded }

end FieldPath

namespace MethodEntry

/-- A method with its origin as JSON. -/
def toJson (m : MethodEntry) : Json :=
  .obj [("signature", m.signature.toJson), ("origin", .str m.origin)]

/-- The method with its origin that a JSON value is. -/
def ofJson? (v : Json) : Option MethodEntry := do
  let v ← v.fields? ["signature", "origin"] 0
  let signature ← v.required "signature" Signature.ofJson?
  let origin ← v.required "origin" Json.str?
  return { signature, origin }

end MethodEntry

namespace EmbeddedInterface

/-- An embedded interface as JSON. -/
def toJson (e : EmbeddedInterface) : Json :=
  .obj [("reference", e.reference.toJson), ("expanded", .bool e.expanded)]

/-- The embedded interface that a JSON value is. -/
def ofJson? (v : Json) : Option EmbeddedInterface := do
  let v ← v.fields? ["reference", "expanded"] 0
  let reference ← v.required "reference" Reference.ofJson?
  let expanded ← v.required "expanded" Json.bool?
  return { reference, expanded }

end EmbeddedInterface

namespace MethodSet

/-- A method set as JSON. -/
def toJson (s : MethodSet) : Json :=
  .obj
    [("interface", .str s.interface), ("methods", .ofList MethodEntry.toJson s.methods),
      ("embedded", .ofList EmbeddedInterface.toJson s.embedded),
      ("not_expanded", .ofList .str s.notExpanded)]

/-- The method set that a JSON value is. -/
def ofJson? (v : Json) : Option MethodSet := do
  let v ← v.fields? ["interface", "methods", "embedded", "not_expanded"] 0
  let interface ← v.required "interface" Json.str?
  let methods ← v.required "methods" (Json.list? MethodEntry.ofJson?)
  let embedded ← v.required "embedded" (Json.list? EmbeddedInterface.ofJson?)
  let notExpanded ← v.required "not_expanded" (Json.list? Json.str?)
  return { interface, methods, embedded, notExpanded }

end MethodSet

end GoAtlas
