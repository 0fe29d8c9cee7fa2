import GoAtlas.Proofs.Declaration.Truncation
import GoAtlas.Proofs.Extraction.Units
import GoAtlas.Proofs.Graph.Erasure
import GoAtlas.Proofs.View.Likeness

/-!
# The choices of a configuration do not interfere

Two runs over the same units, each with settings of its own, are compared.

Doc comments and the search for cycles play no part in anything else: to erase the doc comments of
an extraction comes to the same as to keep none from the start, whatever else is chosen
(`withoutDocs_joinUnits`). So runs with one depth limit have the same graph up to doc comments and
the same reports up to those of cycles, which stand at the end, and all views are the same.

The depth limit only decides what is kept of the structs written in place. What is left of a
declaration without its doc comment and without the fields of these structs is its `core`, and it is
the same under all settings (`Declaration.core_ofCandidate`). It tells the name, the place, the
direct fields and the embeddings, so these, and the cycles, are the same as well.
-/

namespace GoAtlas

/-! ## The core of a declaration -/

namespace Field

theorem name_fold (f : Field) : f.fold.name = f.name := by
  unfold fold
  split <;> rfl

theorem embedded_fold (f : Field) : f.fold.embedded = f.embedded := by
  unfold fold
  split <;> rfl

/-- An embedded field holds no struct, so nothing of it is folded. -/
theorem fold_of_embedded {f : Field} (h : f.embedded = true) : f.fold = f := by
  rw [fold, holdsStruct, h]
  rfl

end Field

/-- A shape with the structs that its fields hold kept as text. -/
def Shape.fold : Shape → Shape
  | struct fields => struct (fields.map Field.fold)
  | shape => shape

/-- The direct fields are the same but for what is inside them. -/
theorem Shape.fields_fold (s : Shape) : s.fold.fields = s.fields.map Field.fold := by
  cases s <;> rfl

/-- A folded shape does not show the limit: it is the one under the limit zero. -/
theorem Shape.fold_ofExpr (limit : Nat) (owner : String) (type : TypeExpr) :
    (ofExpr limit owner type).1.fold = (ofExpr 0 owner type).1 := by
  cases type with
  | struct lines =>
    have hcut : (Field.ofDecls 0 owner lines).1 = (Field.ofDecls limit owner lines).1.map Field.fold :=
      FieldDecl.fieldsOfList_truncate (Nat.zero_le limit) lines (Nat.le_refl 0)
    exact congrArg struct hcut.symm
  | _ => rfl

namespace Declaration

/-- What no setting changes in a declaration: it has no doc comment, and the structs that its fields
hold are kept as text. -/
def core (d : Declaration) : Declaration :=
  { d with doc := none, shape := d.shape.fold }

/-- **The core does not depend on the settings.** They decide about docs and about how deep structs
are opened. -/
theorem core_ofCandidate (config other : Config) (c : Candidate) :
    (ofCandidate config c).1.core = (ofCandidate other c).1.core := by
  have hshape : (Shape.ofExpr config.maxInlineDepth c.name c.type).1.fold =
      (Shape.ofExpr other.maxInlineDepth c.name c.type).1.fold := by
    rw [Shape.fold_ofExpr, Shape.fold_ofExpr]
  exact congrArg (Declaration.mk c.name none c.typeParams c.isAlias c.position) hshape

/-- The fields that give rise to embeddings hold no struct. -/
theorem embeddings_core (d : Declaration) : d.core.embeddings = d.embeddings := by
  have hfields : d.core.fields = d.fields.map Field.fold := d.shape.fields_fold
  have hembedded : Field.embedded ∘ Field.fold = Field.embedded := funext Field.embedded_fold
  rw [embeddings, hfields, List.filter_map, hembedded, List.map_map, embeddings]
  refine List.map_congr_left fun f hf => ?_
  rw [Function.comp_apply, Field.fold_of_embedded (List.mem_filter.mp hf).2]
  rfl

end Declaration

namespace TypeGraph

open Declaration (core)

variable {g h : TypeGraph}

/-- What is found under a name has the core that is found among the cores. -/
theorem map_core_find? (g : TypeGraph) (name : String) :
    (g.find? name).map core = (g.declarations.map core).find? (·.name == name) := by
  rw [List.find?_map]
  rfl

/-- The names of the fields of a struct can be read off its core. -/
theorem map_name_lookupStruct (g : TypeGraph) (name : String) :
    (g.lookupStruct name).map (·.map Field.name) =
      match (g.find? name).map core with
      | none => .error (.notFound name)
      | some d =>
        match d.shape with
        | .struct fields => .ok (fields.map Field.name)
        | _ => .error (.notAStruct name) := by
  rw [lookupStruct]
  rcases g.find? name with _ | ⟨_, _, _, _, _, _ | fields | _⟩
  · rfl
  · rfl
  · have hnames : (fields.map Field.fold).map Field.name = fields.map Field.name := by
      rw [List.map_map]
      exact List.map_congr_left fun f _ => f.name_fold
    exact congrArg Except.ok hnames.symm
  · rfl

section Core

variable (hcore : h.declarations.map core = g.declarations.map core)
include hcore

theorem names_of_core : h.names = g.names := by
  have hnames := congrArg (List.map Declaration.name) hcore
  rwa [List.map_map, List.map_map] at hnames

/-- Embeddings are read off the fields at the top, which a core keeps. -/
theorem OwnsEmbeddings.embeddings_of_core (hg : g.OwnsEmbeddings) (hh : h.OwnsEmbeddings) :
    h.embeddings = g.embeddings := by
  have hembeddings := congrArg (List.flatMap Declaration.embeddings) hcore
  simp only [List.flatMap_map, Declaration.embeddings_core] at hembeddings
  rw [hh, hembeddings, hg]

/-- A name stands for declarations with the same core. -/
theorem map_core_find?_congr (name : String) : (h.find? name).map core = (g.find? name).map core := by
  rw [map_core_find?, hcore, map_core_find?]

theorem position_of_core (name : String) :
    (h.find? name).map Declaration.position = (g.find? name).map Declaration.position := by
  have hposition := congrArg (Option.map Declaration.position) (map_core_find?_congr hcore name)
  rwa [Option.map_map, Option.map_map] at hposition

/-- The direct fields have the same names in the same order. -/
theorem fieldNames_of_core (name : String) : (h.lookupStruct name).map (·.map Field.name) =
    (g.lookupStruct name).map (·.map Field.name) := by
  rw [map_name_lookupStruct, map_core_find?_congr hcore, map_name_lookupStruct]

end Core

end TypeGraph

namespace Extraction

variable {config other : Config} {x : Extraction} {specs : List TypeSpec}

/-! ## Doc comments -/

/-- An extraction without doc comments. -/
def withoutDocs (x : Extraction) : Extraction :=
  { graph := x.graph.withoutDocs, diagnostics := x.diagnostics }

theorem withoutDocs_ofItems (config : Config) (items : List Item) :
    (ofItems config items).withoutDocs = ofItems config.depthOnly items := by
  rw [ofItems, ofItems]
  dsimp only
  rw [TypeGraph.withoutDocs_ofCandidates]
  rfl

/-- Extractions are joined by their graphs and reports, and no report is about a doc. -/
theorem withoutDocs_join (x y : Extraction) :
    (x.join y).withoutDocs = x.withoutDocs.join y.withoutDocs := by
  have hmerge : x.withoutDocs.graph.merge y.withoutDocs.graph =
      ((x.graph.merge y.graph).1.withoutDocs, (x.graph.merge y.graph).2) :=
    TypeGraph.withoutDocs_merge x.graph y.graph
  rw [join, join, hmerge]
  rfl

/-- **To erase the doc comments of a run** comes to the same as to keep none. The search for cycles
and the embedded interfaces play no part. -/
theorem withoutDocs_joinUnits (config : Config) (x : Extraction) (us : List SourceUnit) :
    (joinUnits config x us).withoutDocs = joinUnits config.depthOnly x.withoutDocs us := by
  induction us generalizing x with
  | nil => rfl
  | cons u rest ih =>
    have hunit := ih (x.join (ofItems config u.items))
    rw [withoutDocs_join, withoutDocs_ofItems] at hunit
    exact hunit

/-- Runs with one depth limit differ in doc comments only. -/
theorem withoutDocs_joinUnits_congr (hdepth : config.maxInlineDepth = other.maxInlineDepth)
    (x : Extraction) (us : List SourceUnit) :
    (joinUnits other x us).withoutDocs = (joinUnits config x us).withoutDocs := by
  rw [withoutDocs_joinUnits, withoutDocs_joinUnits, Config.depthOnly_congr hdepth]

/-! ## Reports -/

/-- The reports that are not about cycles. -/
def otherReports (x : Extraction) : List Diagnostic :=
  x.diagnostics.filter fun d => d.kind ≠ .embeddingCycle

/-- The reports that are not about cycles are those from before the search for cycles. -/
theorem SumsUp.otherReports_finish (hx : SumsUp config x specs) (other : Config) :
    (x.finish other).otherReports = x.diagnostics := by
  have hall : x.diagnostics.filter (fun d => d.kind ≠ .embeddingCycle) = x.diagnostics :=
    List.filter_eq_self.mpr fun d hd => decide_eq_true (hx.kind_ne hd)
  have hnone : (if other.detectCycles then x.graph.cycleDiagnostics else []).filter
      (fun d => d.kind ≠ .embeddingCycle) = [] := by
    refine List.filter_eq_nil_iff.mpr fun d hd => ?_
    split at hd
    · obtain ⟨path, -, rfl⟩ := List.mem_map.mp hd
      exact of_decide_eq_false rfl
    · cases hd
  rw [otherReports, finish, List.filter_append, hall, hnone, List.append_nil]

/-! ## Two runs -/

section Runs

variable {s t : Settings} (us : List SourceUnit)

/-- The reports that are not of cycles come from the units, before cycles are looked for. -/
theorem otherReports_ofUnits (s : Settings) : (ofUnits s us).otherReports =
    (joinUnits s.toConfig { graph := .empty, diagnostics := [] } us).diagnostics :=
  (sumsUp_joinUnits s.toConfig us).otherReports_finish s.toConfig

/-- **The reports of cycles** stand at the end, if they are asked for. -/
theorem diagnostics_ofUnits (s : Settings) : (ofUnits s us).diagnostics =
    (ofUnits s us).otherReports ++
      if s.detectCycles then (ofUnits s us).graph.cycleDiagnostics else [] := by
  rw [otherReports_ofUnits]
  rfl

section SameDepth

variable (hdepth : s.maxInlineDepth = t.maxInlineDepth)
include hdepth

theorem withoutDocs_ofUnits :
    (ofUnits t us).graph.withoutDocs = (ofUnits s us).graph.withoutDocs :=
  congrArg graph (withoutDocs_joinUnits_congr hdepth { graph := .empty, diagnostics := [] } us)

theorem otherReports_ofUnits_congr : (ofUnits t us).otherReports = (ofUnits s us).otherReports := by
  have hrun := withoutDocs_joinUnits_congr hdepth { graph := .empty, diagnostics := [] } us
  rw [otherReports_ofUnits, otherReports_ofUnits]
  exact (congrArg diagnostics hrun :)

/-- With the same doc comments the graphs are the same. -/
theorem graph_ofUnits_congr (hdocs : s.keepDocComments = t.keepDocComments) :
    (ofUnits t us).graph = (ofUnits s us).graph := by
  have hmade : Declaration.ofCandidate t.toConfig = Declaration.ofCandidate s.toConfig := by
    funext c
    rw [Declaration.ofCandidate, Declaration.ofCandidate, hdepth, hdocs]
  have hs := sumsUp_joinUnits s.toConfig us
  have ht := sumsUp_joinUnits t.toConfig us
  refine TypeGraph.OwnsEmbeddings.eq ht.embeddings hs.embeddings (ht.declarations.trans ?_)
  rw [declared, TypeGraph.declarationsOf, hmade]
  exact hs.declarations.symm

end SameDepth

/-- **Under any settings** the declarations have the same cores. -/
theorem core_ofUnits (s t : Settings) : (ofUnits t us).graph.declarations.map Declaration.core =
    (ofUnits s us).graph.declarations.map Declaration.core := by
  have hcore : ∀ s : Settings, (ofUnits s us).graph.declarations.map Declaration.core =
      firsts Declaration.name []
        ((declared s.toConfig (us.flatMap SourceUnit.specs)).map Declaration.core) := by
    intro s
    rw [← map_firsts Declaration.core fun _ => rfl]
    exact congrArg (List.map Declaration.core) (sumsUp_joinUnits s.toConfig us).declarations
  rw [hcore, hcore, declared, declared, TypeGraph.declarationsOf, TypeGraph.declarationsOf,
    List.map_map, List.map_map]
  refine congrArg _ (List.map_congr_left fun c _ => ?_)
  exact Declaration.core_ofCandidate t.toConfig s.toConfig c

theorem embeddings_ofUnits (s t : Settings) :
    (ofUnits t us).graph.embeddings = (ofUnits s us).graph.embeddings :=
  TypeGraph.OwnsEmbeddings.embeddings_of_core (core_ofUnits us s t)
    (sumsUp_joinUnits s.toConfig us).embeddings (sumsUp_joinUnits t.toConfig us).embeddings

end Runs

/-- **The choices do not interfere.** The reports of a run are those that are not about cycles and
then, if they are asked for, those of the cycles of its graph.

Runs with one depth limit have the same graph up to doc comments, and the same at all if both keep
or both drop these; the same reports but for those of cycles; and the same views: flattened structs,
paths of fields, and method sets once it is chosen whether embedded interfaces count.

Runs with any settings declare the same names in the same order, each struct with the same direct
fields, and have the same embeddings, cycles and reports of cycles, whether asked for or not. -/
theorem ofUnits_settings (us : List SourceUnit) :
    (∀ s : Settings, (ofUnits s us).diagnostics = (ofUnits s us).otherReports ++
        if s.detectCycles then (ofUnits s us).graph.cycleDiagnostics else []) ∧
      (∀ s t : Settings, s.maxInlineDepth = t.maxInlineDepth →
        let g := (ofUnits s us).graph
        let h := (ofUnits t us).graph
        h.withoutDocs = g.withoutDocs ∧
          (s.keepDocComments = t.keepDocComments → h = g) ∧
          (ofUnits t us).otherReports = (ofUnits s us).otherReports ∧
          (∀ name, h.flattened name = g.flattened name) ∧
          (∀ name, h.fieldPaths name = g.fieldPaths name) ∧
          ∀ expand name, h.methodSet expand name = g.methodSet expand name) ∧
      ∀ s t : Settings,
        let g := (ofUnits s us).graph
        let h := (ofUnits t us).graph
        h.names = g.names ∧ h.embeddings = g.embeddings ∧
          h.embeddingCycles = g.embeddingCycles ∧ h.cycleDiagnostics = g.cycleDiagnostics ∧
          (∀ name, h.cycleThrough? name = g.cycleThrough? name) ∧
          ∀ name, (h.lookupStruct name).map (·.map Field.name) =
            (g.lookupStruct name).map (·.map Field.name) := by
  refine ⟨diagnostics_ofUnits us, fun s t hdepth => ?_, fun s t => ?_⟩
  · intro g h
    have hgraph : h.withoutDocs = g.withoutDocs := withoutDocs_ofUnits us hdepth
    have halike : h.Alike g := TypeGraph.alike_of_withoutDocs hgraph
    exact ⟨hgraph, graph_ofUnits_congr us hdepth, otherReports_ofUnits_congr us hdepth,
      halike.flattened_eq, halike.fieldPaths_eq, halike.methodSet_eq⟩
  · intro g h
    have hcore : h.declarations.map Declaration.core = g.declarations.map Declaration.core :=
      core_ofUnits us s t
    have hnames : h.names = g.names := TypeGraph.names_of_core hcore
    have hembeddings : h.embeddings = g.embeddings := embeddings_ofUnits us s t
    exact ⟨hnames, hembeddings, TypeGraph.embeddingCycles_congr hnames hembeddings,
      TypeGraph.cycleDiagnostics_congr hnames hembeddings (TypeGraph.position_of_core hcore),
      congrFun (TypeGraph.cycleThrough?_congr hnames hembeddings),
      TypeGraph.fieldNames_of_core hcore⟩

/-- Two structs that embed each other, one of them with a doc comment, nested structs and a field
without a type, and a declaration of a name that is taken. With everything off, the doc comment and
the report of the cycle are gone. Under a lower limit a path is gone, and the cycle is the same. -/
theorem ofUnits_settings_of_cycle :
    let deepest : FieldDecl := ⟨["z"], .predeclared "int", none, ⟨"", 3, 1⟩⟩
    let deep : FieldDecl := ⟨["y"], .struct [deepest], none, ⟨"", 3, 1⟩⟩
    let lines : List FieldDecl :=
      [⟨[], .named none "B", none, ⟨"", 2, 1⟩⟩, ⟨["x"], .struct [deep], none, ⟨"", 3, 1⟩⟩,
        ⟨["v"], .missing, none, ⟨"", 4, 1⟩⟩]
    let a : TypeSpec := ⟨some "A", some "first", none, false, some (.struct lines), ⟨"", 1, 1⟩⟩
    let b := embedder "B" "A" 5
    let copy := embedder "A" "C" 6
    let us : List SourceUnit := [⟨"first", [.single a]⟩, ⟨"second", [.single b, .single copy]⟩]
    let s : Settings := { maxInlineDepth := 2, depth_pos := by decide }
    let off : Settings :=
      { maxInlineDepth := 2
        keepDocComments := false
        resolveInterfaceEmbeds := false
        detectCycles := false
        depth_pos := by decide }
    let low : Settings := { maxInlineDepth := 1, depth_pos := by decide }
    s.maxInlineDepth = off.maxInlineDepth ∧
      (ofUnits off us).graph.withoutDocs = (ofUnits s us).graph.withoutDocs ∧
      (ofUnits off us).graph ≠ (ofUnits s us).graph ∧
      (ofUnits off us).otherReports = (ofUnits s us).otherReports ∧
      (ofUnits s us).diagnostics.map Diagnostic.kind =
        [.malformedDeclaration, .duplicateTypeName, .embeddingCycle] ∧
      (ofUnits low us).graph.cycleDiagnostics = (ofUnits s us).graph.cycleDiagnostics ∧
      (ofUnits low us).graph.fieldPaths "A" ≠ (ofUnits s us).graph.fieldPaths "A" := by
  intro deepest deep lines a b copy us s off low
  have hdepth : s.maxInlineDepth = off.maxInlineDepth := rfl
  obtain ⟨-, hsame, hany⟩ := ofUnits_settings us
  obtain ⟨hgraph, -, hreports, -⟩ := hsame s off hdepth
  obtain ⟨-, -, -, hcycles, -⟩ := hany s low
  exact ⟨hdepth, hgraph, by decide +kernel, hreports, by decide +kernel, hcycles, by decide +kernel⟩

end Extraction

end GoAtlas
