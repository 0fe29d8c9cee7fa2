import GoAtlas.Proofs.Codec.Sizes
import GoAtlas.Proofs.Json.Reading

/-!
# The model survives its JSON texts

Whatever is written as JSON text, compact or with a line for each part, is read back as it was
(`model_roundTrips`). The decoders undo the encoders by their own laws; what is left is that every
encoder gives a value that can be written (`Json.Regular`). The only bound on what is written is one
on its whole numbers. The reader may have a limit to lists and objects around each other, and then
reads back exactly what keeps to the limit.

A document need not be one that was written: it may give members that nothing asks for, structures
as lists, and a graph that declares a name twice. What is decoded from it is written no larger
(`Json.KeepsSize`), so reading a document, writing what was read and reading it again leads nowhere
else, whatever the limit.
-/

namespace GoAtlas

namespace Json

variable {α : Type} {encode : α → Json} {decode : Json → Option α}

/-- A value is read back from both of its texts, by a reader that may have a limit. -/
def ReadBack (encode : α → Json) (decode : Json → Option α) (limit : Option Nat) (a : α) : Prop :=
  (read? limit (encode a).compact).bind decode = some a ∧
    (read? limit (encode a).pretty).bind decode = some a

/-- A type survives its JSON. -/
structure RoundTrips (encode : α → Json) (decode : Json → Option α) : Prop where
  /-- A value is read back from what it is written as, however deep that is. -/
  value : ∀ a, decode (encode a) = some a
  /-- If its whole numbers have 64 bits, it is read back from its texts by every reader with no limit,
  and by one with a limit exactly if it keeps to the limit. -/
  texts : ∀ limit a, (encode a).Fits →
    (ReadBack encode decode limit a ↔ ∀ n ∈ limit, (encode a).depth ≤ n)
  /-- What is decoded from any document is read back from its own texts by the same reader. -/
  again : ∀ limit text v a, read? limit text = some v → decode v = some a →
    ReadBack encode decode limit a

/-- A decoder that undoes an encoder undoes its texts, when the encoder gives values that can be
written, and none that is larger than what was decoded. -/
theorem RoundTrips.of_regular (hdecode : ∀ a, decode (encode a) = some a)
    (hregular : ∀ a, (encode a).Regular) (hkeeps : KeepsSize encode decode) :
    RoundTrips encode decode := by
  have hread : ∀ {limit a}, (encode a).Fits → (∀ n ∈ limit, (encode a).depth ≤ n) →
      ReadBack encode decode limit a := by
    intro limit a hfits hlimit
    refine ⟨?_, ?_⟩
    · rw [read?_compact hfits (hregular a) hlimit, Option.bind_some, hdecode]
    · rw [read?_pretty hfits (hregular a) hlimit, Option.bind_some, hdecode]
  refine ⟨hdecode, fun limit a hfits => ⟨fun h => ?_, hread hfits⟩, fun limit text v a hv ha => ?_⟩
  · -- a reader with a limit reads nothing deeper, and nothing deeper is decoded from that
    obtain ⟨v, hv, ha⟩ := Option.bind_eq_some_iff.mp h.1
    exact fun n hn => (hkeeps v a ha).depth.trans (read?_depth hv n hn)
  · have hsize := hkeeps v a ha
    exact hread (hsize.fits (read?_fits hv)) fun n hn => hsize.depth.trans (read?_depth hv n hn)

/-- A tag adds nothing that could not be written. -/
@[simp] theorem regular_tagged {tag : String} {v : Json} :
    (tagged tag v).Regular ↔ v.Regular := by
  simp [tagged]

@[simp] theorem regular_ofOption (h : ∀ a, (encode a).Regular) (o : Option α) :
    (ofOption encode o).Regular := by
  cases o with
  | none => trivial
  | some a => exact h a

/-- A list of encoded values is regular when the encoder gives regular values. -/
@[simp] theorem regular_ofList (h : ∀ a, (encode a).Regular) (as : List α) :
    (ofList encode as).Regular := by
  simp [ofList, h]

end Json

/-! ## Everything is written regularly

One law for each type, by those of its parts. They are in the simp set, so that each proof says no
more than what the encoder is made of. -/

@[simp] theorem Position.regular_toJson (p : Position) : p.toJson.Regular := by
  simp [toJson]

mutual

/-- Type expressions are written regularly. The recursion goes through lines and parameters as the
encoder does. -/
theorem TypeExpr.regular_toJson : (t : TypeExpr) → t.toJson.Regular
  | .named package name => by simp [TypeExpr.toJson]
  | .predeclared _ | .verbatim _ | .missing => by simp [TypeExpr.toJson]
  | .pointer target => by simpa [TypeExpr.toJson] using target.regular_toJson
  | .struct fields => by simpa [TypeExpr.toJson] using FieldDecl.regular_toJsonList fields
  | .interface elements => by simpa [TypeExpr.toJson] using Element.regular_toJsonList elements

theorem FieldDecl.regular_toJson : (x : FieldDecl) → x.toJson.Regular
  | ⟨names, type, tag, position⟩ => by simp [FieldDecl.toJson, type.regular_toJson]

theorem Element.regular_toJson : (x : Element) → x.toJson.Regular
  | .method name params results position => by
    simpa [Element.toJson] using
      ⟨Param.regular_toJsonList params, Param.regular_toJsonList results⟩
  | .embed type => by simpa [Element.toJson] using type.regular_toJson
  | .constraint _ => by simp [Element.toJson]

theorem Param.regular_toJson : (x : Param) → x.toJson.Regular
  | ⟨names, type, variadic⟩ => by simp [Param.toJson, type.regular_toJson]

theorem FieldDecl.regular_toJsonList : (xs : List FieldDecl) →
    ∀ v ∈ FieldDecl.toJsonList xs, v.Regular
  | [] => nofun
  | x :: rest =>
    List.forall_mem_cons.mpr ⟨x.regular_toJson, FieldDecl.regular_toJsonList rest⟩

theorem Element.regular_toJsonList : (xs : List Element) →
    ∀ v ∈ Element.toJsonList xs, v.Regular
  | [] => nofun
  | x :: rest =>
    List.forall_mem_cons.mpr ⟨x.regular_toJson, Element.regular_toJsonList rest⟩

theorem Param.regular_toJsonList : (xs : List Param) → ∀ v ∈ Param.toJsonList xs, v.Regular
  | [] => nofun
  | x :: rest => List.forall_mem_cons.mpr ⟨x.regular_toJson, Param.regular_toJsonList rest⟩

end

@[simp] theorem TypeSpec.regular_toJson (s : TypeSpec) : s.toJson.Regular := by
  simp [toJson, TypeExpr.regular_toJson]

@[simp] theorem Item.regular_toJson (x : Item) : x.toJson.Regular := by
  cases x <;> simp [toJson]

@[simp] theorem SourceUnit.regular_toJson (u : SourceUnit) : u.toJson.Regular := by
  simp [toJson]

@[simp] theorem Reference.regular_toJson (r : Reference) : r.toJson.Regular := by
  cases r <;> simp [toJson]

mutual

/-- A field is written with or without the list of fields inside it. -/
@[simp] theorem Field.regular_toJson : (x : Field) → x.toJson.Regular
  | ⟨name, reference, embedded, depth, tag, position, children⟩ => by
    have hchildren := Field.regular_toJsonList children
    rw [Field.toJson]
    cases h : Field.toJsonList children with
    | nil => simp
    | cons c rest =>
      rw [h] at hchildren
      simpa using hchildren

theorem Field.regular_toJsonList : (xs : List Field) → ∀ v ∈ Field.toJsonList xs, v.Regular
  | [] => nofun
  | x :: rest => List.forall_mem_cons.mpr ⟨x.regular_toJson, Field.regular_toJsonList rest⟩

end

@[simp] theorem Signature.regular_toJson (s : Signature) : s.toJson.Regular := by
  simp [toJson]

@[simp] theorem Shape.regular_toJson (s : Shape) : s.toJson.Regular := by
  cases s <;> simp [toJson]

@[simp] theorem Declaration.regular_toJson (d : Declaration) : d.toJson.Regular := by
  simp [toJson]

@[simp] theorem Embedding.regular_toJson (e : Embedding) : e.toJson.Regular := by
  simp [toJson]

/-- Hence the whole graph is. -/
@[simp] theorem TypeGraph.regular_toJson (g : TypeGraph) : g.toJson.Regular := by
  simp [toJson]

@[simp] theorem Diagnostic.regular_toJson (d : Diagnostic) : d.toJson.Regular := by
  obtain ⟨kind, message, subject, position, related⟩ := d
  cases related <;> simp [toJson, DiagnosticKind.toJson, Json.memberUnlessEmpty]

@[simp] theorem ExternalReason.regular_toJson (r : ExternalReason) : r.toJson.Regular := by
  cases r <;> simp [toJson]

@[simp] theorem Resolution.regular_toJson (r : Resolution) : r.toJson.Regular := by
  cases r <;> simp [toJson]

@[simp] theorem Config.regular_toJson (c : Config) : c.toJson.Regular := by
  simp [toJson]

@[simp] theorem Stats.regular_toJson (s : Stats) : s.toJson.Regular := by
  simp [toJson]

@[simp] theorem Extraction.regular_toJson (x : Extraction) : x.toJson.Regular := by
  simp [toJson]

@[simp] theorem PromotedField.regular_toJson (f : PromotedField) : f.toJson.Regular := by
  simp [toJson]

@[simp] theorem Flattened.regular_toJson (x : Flattened) : x.toJson.Regular := by
  simp [toJson]

@[simp] theorem FieldPath.regular_toJson (p : FieldPath) : p.toJson.Regular := by
  simp [toJson]

@[simp] theorem MethodEntry.regular_toJson (m : MethodEntry) : m.toJson.Regular := by
  simp [toJson]

@[simp] theorem EmbeddedInterface.regular_toJson (e : EmbeddedInterface) :
    e.toJson.Regular := by
  simp [toJson]

@[simp] theorem MethodSet.regular_toJson (s : MethodSet) : s.toJson.Regular := by
  simp [toJson]

/-! ## The graph -/

namespace TypeGraph

/-- **A graph survives its JSON**, and so does what a document with repeated names is decoded as. -/
theorem roundTrips_toJson : Json.RoundTrips toJson ofJson? :=
  .of_regular ofJson?_toJson regular_toJson keepsSize

/-- What is decoded as a graph gives the first declaration of each name and all embeddings, and from
then on the graph survives. -/
theorem exists_of_ofJson? {v : Json} {g : TypeGraph} (h : ofJson? v = some g) :
    ∃ declarations embeddings, parts? v = some (declarations, embeddings) ∧
      g.declarations = firsts Declaration.name [] declarations ∧ g.embeddings = embeddings ∧
      ofJson? g.toJson = some g := by
  obtain ⟨declarations, embeddings, hparts, rfl⟩ := ofJson?_eq_some_iff.mp h
  exact ⟨declarations, embeddings, hparts, declarations_ofParts _ _, rfl, ofJson?_toJson _⟩

end TypeGraph

/-! ## The whole model -/

section Model

open Json

/-- **The whole model survives its JSON**: what is read from a source, declarations and the graph
they make, what is said about them, and the views. A document that is decoded as a graph need not be
one that a graph is written as: it may declare a name twice. -/
theorem model_roundTrips :
    (RoundTrips SourceUnit.toJson SourceUnit.ofJson? ∧ RoundTrips Item.toJson Item.ofJson? ∧
      RoundTrips TypeSpec.toJson TypeSpec.ofJson? ∧ RoundTrips TypeExpr.toJson TypeExpr.ofJson? ∧
      RoundTrips FieldDecl.toJson FieldDecl.ofJson? ∧ RoundTrips Element.toJson Element.ofJson? ∧
      RoundTrips Param.toJson Param.ofJson? ∧ RoundTrips Position.toJson Position.ofJson?) ∧
    (RoundTrips Reference.toJson Reference.ofJson? ∧ RoundTrips Field.toJson Field.ofJson? ∧
      RoundTrips Signature.toJson Signature.ofJson? ∧ RoundTrips Shape.toJson Shape.ofJson? ∧
      RoundTrips Declaration.toJson Declaration.ofJson? ∧
      RoundTrips Embedding.toJson Embedding.ofJson? ∧
      RoundTrips TypeGraph.toJson TypeGraph.ofJson?) ∧
    (RoundTrips Diagnostic.toJson Diagnostic.ofJson? ∧ RoundTrips Stats.toJson Stats.ofJson? ∧
      RoundTrips Resolution.toJson Resolution.ofJson? ∧
      RoundTrips ExternalReason.toJson ExternalReason.ofJson? ∧
      RoundTrips Config.toJson Config.ofJson? ∧ RoundTrips Extraction.toJson Extraction.ofJson?) ∧
    (RoundTrips Flattened.toJson Flattened.ofJson? ∧
      RoundTrips PromotedField.toJson PromotedField.ofJson? ∧
      RoundTrips FieldPath.toJson FieldPath.ofJson? ∧
      RoundTrips MethodEntry.toJson MethodEntry.ofJson? ∧
      RoundTrips EmbeddedInterface.toJson EmbeddedInterface.ofJson? ∧
      RoundTrips MethodSet.toJson MethodSet.ofJson?) ∧
    ∀ v g, TypeGraph.ofJson? v = some g →
      ∃ declarations embeddings, TypeGraph.parts? v = some (declarations, embeddings) ∧
        g.declarations = firsts Declaration.name [] declarations ∧ g.embeddings = embeddings ∧
        TypeGraph.ofJson? g.toJson = some g := by
  refine ⟨⟨?_, ?_, ?_, ?_, ?_, ?_, ?_, ?_⟩, ⟨?_, ?_, ?_, ?_, ?_, ?_, TypeGraph.roundTrips_toJson⟩,
    ⟨?_, ?_, ?_, ?_, ?_, ?_⟩, ⟨?_, ?_, ?_, ?_, ?_, ?_⟩,
    fun v g => TypeGraph.exists_of_ofJson?⟩
  · exact .of_regular SourceUnit.ofJson?_toJson SourceUnit.regular_toJson SourceUnit.keepsSize
  · exact .of_regular Item.ofJson?_toJson Item.regular_toJson Item.keepsSize
  · exact .of_regular TypeSpec.ofJson?_toJson TypeSpec.regular_toJson TypeSpec.keepsSize
  · exact .of_regular TypeExpr.ofJson?_toJson TypeExpr.regular_toJson TypeExpr.keepsSize
  · exact .of_regular FieldDecl.ofJson?_toJson FieldDecl.regular_toJson FieldDecl.keepsSize
  · exact .of_regular Element.ofJson?_toJson Element.regular_toJson Element.keepsSize
  · exact .of_regular Param.ofJson?_toJson Param.regular_toJson Param.keepsSize
  · exact .of_regular Position.ofJson?_toJson Position.regular_toJson Position.keepsSize
  · exact .of_regular Reference.ofJson?_toJson Reference.regular_toJson Reference.keepsSize
  · exact .of_regular Field.ofJson?_toJson Field.regular_toJson Field.keepsSize
  · exact .of_regular Signature.ofJson?_toJson Signature.regular_toJson Signature.keepsSize
  · exact .of_regular Shape.ofJson?_toJson Shape.regular_toJson Shape.keepsSize
  · exact .of_regular Declaration.ofJson?_toJson Declaration.regular_toJson Declaration.keepsSize
  · exact .of_regular Embedding.ofJson?_toJson Embedding.regular_toJson Embedding.keepsSize
  · exact .of_regular Diagnostic.ofJson?_toJson Diagnostic.regular_toJson Diagnostic.keepsSize
  · exact .of_regular Stats.ofJson?_toJson Stats.regular_toJson Stats.keepsSize
  · exact .of_regular Resolution.ofJson?_toJson Resolution.regular_toJson Resolution.keepsSize
  · exact .of_regular ExternalReason.ofJson?_toJson ExternalReason.regular_toJson
      ExternalReason.keepsSize
  · exact .of_regular Config.ofJson?_toJson Config.regular_toJson Config.keepsSize
  · exact .of_regular Extraction.ofJson?_toJson Extraction.regular_toJson Extraction.keepsSize
  · exact .of_regular Flattened.ofJson?_toJson Flattened.regular_toJson Flattened.keepsSize
  · exact .of_regular PromotedField.ofJson?_toJson PromotedField.regular_toJson
      PromotedField.keepsSize
  · exact .of_regular FieldPath.ofJson?_toJson FieldPath.regular_toJson FieldPath.keepsSize
  · exact .of_regular MethodEntry.ofJson?_toJson MethodEntry.regular_toJson MethodEntry.keepsSize
  · exact .of_regular EmbeddedInterface.ofJson?_toJson EmbeddedInterface.regular_toJson
      EmbeddedInterface.keepsSize
  · exact .of_regular MethodSet.ofJson?_toJson MethodSet.regular_toJson MethodSet.keepsSize

/-- The text of two declarations of one name is read as a graph with the first of them, whose line
is the largest of 64 bits. The second is given as a list of its fields, and two members that nothing
asks for have one name. -/
theorem model_roundTrips_of_repeated :
    let first : Declaration :=
      { name := "T", doc := none, typeParams := none, isAlias := true,
        position := ⟨"a.go", 18446744073709551615, 1⟩, shape := .aliasType (.predeclared "int") }
    let second : Json :=
      .arr [.str "T", .str "again", .null, .bool false, .arr [.str "b.go", .nat 2, .nat 1],
        .tagged "Struct" (.arr [.arr []])]
    let document : Json :=
      .obj [("note", .nat 1), ("embeddings", .arr []), ("declarations", .arr [first.toJson, second]),
        ("note", .null)]
    Json.read? (some 127) document.compact = some document ∧
      TypeGraph.ofJson? document = some (TypeGraph.ofParts [first] []) ∧
      ReadBack TypeGraph.toJson TypeGraph.ofJson? (some 127) (TypeGraph.ofParts [first] []) := by
  intro first second document
  have hfits : document.Fits := by
    simp [document, first, second, Declaration.toJson, Position.toJson, Shape.toJson,
      Reference.toJson, UInt64.size]
  have hdepth : ∀ n ∈ some 127, document.depth ≤ n := by
    rintro n ⟨⟩
    decide
  have hparse : Json.read? (some 127) document.compact = some document :=
    Json.read?_compact hfits (by simp [document, second]) hdepth
  have hread : TypeGraph.ofJson? document = some (TypeGraph.ofParts [first] []) := rfl
  exact ⟨hparse, hread,
    model_roundTrips.2.1.2.2.2.2.2.2.again (some 127) document.compact document _ hparse hread⟩

end Model

end GoAtlas
