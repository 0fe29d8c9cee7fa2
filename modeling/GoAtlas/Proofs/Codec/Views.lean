import GoAtlas.Proofs.Codec.Source

/-!
# Views survive their JSON

What is said about a graph is read back as it was written: counters, resolutions, diagnostics, and
the views of structs and interfaces. So is a configuration, whose members have defaults, and a
diagnostic, which leaves an empty list of names out.
-/

namespace GoAtlas

/-! ## Shapes and diagnostics -/

@[simp] theorem ShapeTag.ofJson?_toJson (t : ShapeTag) : ofJson? t.toJson = some t := by
  cases t <;> rfl

@[simp] theorem DiagnosticKind.ofJson?_toJson (k : DiagnosticKind) :
    ofJson? k.toJson = some k := by
  cases k <;> rfl

/-- A place is never written as `null`, so it can be told from one that is left out. -/
theorem Position.toJson_ne_null (p : Position) : p.toJson ≠ .null :=
  nofun

/-- A diagnostic is read back as it was, whether its list of other names was left out or not. -/
@[simp] theorem Diagnostic.ofJson?_toJson (d : Diagnostic) : ofJson? d.toJson = some d := by
  obtain ⟨kind, message, subject, position, related⟩ := d
  have hposition := Json.option?_ofOption Position.ofJson?_toJson Position.toJson_ne_null position
  cases related with
  | nil =>
    simp [ofJson?, toJson, Json.required, Json.optional, Json.withDefault, Json.memberUnlessEmpty,
      hposition]
  | cons name rest =>
    simp [ofJson?, toJson, Json.required, Json.optional, Json.withDefault, Json.memberUnlessEmpty,
      hposition]

/-! ## Configurations, counters and resolutions -/

/-- A configuration is written with all its members, so no default is used. -/
@[simp] theorem Config.ofJson?_toJson (c : Config) : ofJson? c.toJson = some c :=
  rfl

@[simp] theorem Stats.ofJson?_toJson (s : Stats) : ofJson? s.toJson = some s :=
  rfl

@[simp] theorem ExternalReason.ofJson?_toJson (r : ExternalReason) :
    ofJson? r.toJson = some r := by
  cases r <;> rfl

/-- A resolution is read back with its reason, if it leads out of the graph. -/
@[simp] theorem Resolution.ofJson?_toJson (r : Resolution) : ofJson? r.toJson = some r := by
  cases r <;> simp [ofJson?, toJson]

/-! ## Extractions and views -/

/-- **An extraction is read back** as it was. -/
@[simp] theorem Extraction.ofJson?_toJson (x : Extraction) : ofJson? x.toJson = some x := by
  simp [ofJson?, toJson, Json.required]

@[simp] theorem PromotedField.ofJson?_toJson (f : PromotedField) :
    ofJson? f.toJson = some f := by
  simp [ofJson?, toJson, Json.required]

/-- **A flattened struct is read back** as it was. -/
@[simp] theorem Flattened.ofJson?_toJson (x : Flattened) : ofJson? x.toJson = some x := by
  have hcycle : (Json.ofOption (.ofList .str) x.cycle).option? (Json.list? Json.str?) =
      some x.cycle :=
    Json.option?_ofOption Json.list?_ofList_str nofun x.cycle
  simp [ofJson?, toJson, Json.required, Json.optional, hcycle]

@[simp] theorem FieldPath.ofJson?_toJson (p : FieldPath) : ofJson? p.toJson = some p := by
  simp [ofJson?, toJson, Json.required]

/-- A method is read back with the interface that it comes from. -/
@[simp] theorem MethodEntry.ofJson?_toJson (m : MethodEntry) : ofJson? m.toJson = some m := by
  simp [ofJson?, toJson, Json.required]

@[simp] theorem EmbeddedInterface.ofJson?_toJson (e : EmbeddedInterface) :
    ofJson? e.toJson = some e := by
  simp [ofJson?, toJson, Json.required]

/-- **A method set is read back** as it was. -/
@[simp] theorem MethodSet.ofJson?_toJson (s : MethodSet) : ofJson? s.toJson = some s := by
  simp [ofJson?, toJson, Json.required]

end GoAtlas
