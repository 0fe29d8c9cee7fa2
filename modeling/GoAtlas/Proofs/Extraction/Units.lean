import GoAtlas.Extraction
import GoAtlas.Proofs.Declaration.Reports
import GoAtlas.Proofs.Graph.Build

/-!
# An extraction depends on the declarations only

What an extraction gives depends on the declarations of the source in their order, not on how they
are cut into units and groups: `ofUnits_congr`.

An extraction *sums up* some declarations (`SumsUp`) when its graph has the first declaration of
each name, with the embeddings of these, and its reports are about the declarations that are no
candidates, the fields that cannot be used, and the declarations left out. A unit sums up its own
declarations (`sumsUp_ofItems`), and a join of two extractions sums up the declarations of both
(`SumsUp.join`); here the two places where names are compared meet, within a unit and between units.
So a run over any number of units sums up all their declarations (`SumsUp.joinUnits`), and what sums
up the same declarations has the same graph and, up to their order, the same reports.
-/

namespace GoAtlas

namespace Extraction

variable {config : Config} {x y : Extraction} {specs more : List TypeSpec}

/-! ## What some declarations sum up to -/

/-- The declarations that the candidates among some declarations of the source make. -/
def declared (config : Config) (specs : List TypeSpec) : List Declaration :=
  TypeGraph.declarationsOf config (Candidate.ofSpecs specs).1

/-- The reports for declarations of the source that are no candidates, and for fields that cannot be
used. -/
def faults (config : Config) (specs : List TypeSpec) : List Diagnostic :=
  (Candidate.ofSpecs specs).2 ++ TypeGraph.fieldReportsOf config (Candidate.ofSpecs specs).1

/-- An extraction sums up some declarations of the source. -/
structure SumsUp (config : Config) (x : Extraction) (specs : List TypeSpec) : Prop where
  /-- of each name the first declaration is taken -/
  declarations : x.graph.declarations = firsts Declaration.name [] (declared config specs)
  /-- the embeddings are those of the declarations that are taken -/
  embeddings : x.graph.OwnsEmbeddings
  /-- what cannot be used is reported, and so is what is left out -/
  reports : (x.diagnostics.map Diagnostic.gist).Perm
    ((faults config specs).map Diagnostic.gist ++
      (repeats Declaration.name [] (declared config specs)).map Declaration.duplicateGist)

theorem declared_append : declared config (specs ++ more) =
    declared config specs ++ declared config more := by
  rw [declared, Candidate.ofSpecs_append]
  exact List.map_append

/-- Of two lists of two parts each the first parts may be put together. -/
theorem append_append_perm {α : Type} (a b c d : List α) :
    ((a ++ b) ++ (c ++ d)).Perm ((a ++ c) ++ (b ++ d)) := by
  rw [List.append_assoc, List.append_assoc]
  exact (List.perm_append_comm_assoc b c d).append_left a

theorem faults_append_perm : (faults config (specs ++ more)).Perm
    (faults config specs ++ faults config more) := by
  rw [faults, Candidate.ofSpecs_append, TypeGraph.fieldReportsOf, List.flatMap_append]
  exact append_append_perm _ _ _ _

/-- The empty extraction sums up no declarations. -/
theorem sumsUp_empty : SumsUp config { graph := .empty, diagnostics := [] } [] :=
  ⟨rfl, rfl, List.Perm.refl _⟩

/-- **One unit** sums up its own declarations. -/
theorem sumsUp_ofItems (items : List Item) :
    SumsUp config (ofItems config items) (items.flatMap Item.specs) := by
  refine ⟨?_, TypeGraph.ownsEmbeddings_withOwnEmbeddings _, ?_⟩
  · exact TypeGraph.declarations_ofCandidates config _
  · change (List.map _ (_ ++ (TypeGraph.empty.addCandidates config _).2)).Perm _
    rw [faults, List.map_append, List.map_append, List.append_assoc]
    exact (TypeGraph.gists_addCandidates _ _).append_left _

/-- **A join** sums up the declarations of both sides: what the second side left out by itself and
what the join leaves out are together what is left out at once. -/
theorem SumsUp.join (hx : SumsUp config x specs) (hy : SumsUp config y more) :
    SumsUp config (x.join y) (specs ++ more) := by
  -- the second side is compared with the names that the first side took
  have hnames : x.graph.names =
      [] ++ (firsts Declaration.name [] (declared config specs)).map Declaration.name := by
    rw [TypeGraph.names, hx.declarations, List.nil_append]
  refine ⟨?_, hx.embeddings.merge hy.embeddings, ?_⟩
  · rw [declared_append, firsts_append, ← hnames, ← hx.declarations,
      ← firsts_firsts (List.nil_subset _), ← hy.declarations]
    exact TypeGraph.declarations_merge _ _
  · -- what a unit left out by itself need not be left out by the join, and the other way round;
    -- only the two together are what is left out at once
    have hout : (repeats Declaration.name [] (declared config more) ++
        repeats Declaration.name x.graph.names
          (firsts Declaration.name [] (declared config more))).Perm
        (repeats Declaration.name x.graph.names (declared config more)) :=
      repeats_append_perm (List.nil_subset _)
    rw [declared_append, repeats_append, ← hnames]
    change (List.map _ (x.diagnostics ++ y.diagnostics ++ (x.graph.merge y.graph).2)).Perm _
    rw [List.map_append, List.map_append, TypeGraph.gists_merge, hy.declarations]
    refine ((hx.reports.append hy.reports).append_right _).trans ?_
    refine ((append_append_perm _ _ _ _).append_right _).trans ?_
    rw [List.append_assoc, List.append_assoc (List.map _ (repeats _ [] (declared config specs))),
      ← List.map_append, ← List.map_append, ← List.map_append]
    exact (faults_append_perm.symm.map _).append ((hout.append_left _).map _)

/-- **A run** over some units sums up what was there before and the declarations of all units. -/
theorem SumsUp.joinUnits {us : List SourceUnit} (hx : SumsUp config x specs) :
    SumsUp config (joinUnits config x us) (specs ++ us.flatMap SourceUnit.specs) := by
  induction us generalizing x specs with
  | nil =>
    rw [List.flatMap_nil, List.append_nil]
    exact hx
  | cons u rest ih =>
    rw [List.flatMap_cons, ← List.append_assoc]
    exact ih (hx.join (sumsUp_ofItems u.items))

/-- A run from the start sums up the declarations of all units. -/
theorem sumsUp_joinUnits (config : Config) (us : List SourceUnit) :
    SumsUp config (joinUnits config { graph := .empty, diagnostics := [] } us)
      (us.flatMap SourceUnit.specs) :=
  sumsUp_empty.joinUnits

/-! ## What sums up the same declarations is the same -/

theorem SumsUp.graph_eq (hx : SumsUp config x specs) (hy : SumsUp config y specs) :
    x.graph = y.graph :=
  hx.embeddings.eq hy.embeddings (hx.declarations.trans hy.declarations.symm)

theorem SumsUp.reports_perm (hx : SumsUp config x specs) (hy : SumsUp config y specs) :
    (x.diagnostics.map Diagnostic.gist).Perm (y.diagnostics.map Diagnostic.gist) :=
  hx.reports.trans hy.reports.symm

theorem kind_of_mem_faults {d : Diagnostic} (hd : d ∈ faults config specs) :
    d.kind = .malformedDeclaration := by
  rcases List.mem_append.mp hd with hd | hd
  · exact Candidate.kind_of_mem_ofSpecs hd
  · obtain ⟨c, -, hd⟩ := List.mem_flatMap.mp hd
    exact Declaration.kind_of_mem_ofCandidate hd

/-- Before the search for cycles no report is about a cycle. -/
theorem SumsUp.kind_ne (hx : SumsUp config x specs) {d : Diagnostic} (hd : d ∈ x.diagnostics) :
    d.kind ≠ .embeddingCycle := by
  have hgist := hx.reports.subset (List.mem_map_of_mem hd)
  rcases List.mem_append.mp hgist with h | h
  · obtain ⟨e, he, heq⟩ := List.mem_map.mp h
    have hkind : e.kind = d.kind := congrArg Prod.fst heq
    rw [← hkind, kind_of_mem_faults he]
    exact nofun
  · obtain ⟨e, -, heq⟩ := List.mem_map.mp h
    have hkind : DiagnosticKind.duplicateTypeName = d.kind := congrArg Prod.fst heq
    rw [← hkind]
    exact nofun

/-- The reports of cycles in an extraction. -/
def cycleReports (x : Extraction) : List Diagnostic :=
  x.diagnostics.filter fun d => d.kind = .embeddingCycle

/-- The reports of cycles are those of the search for cycles. -/
theorem SumsUp.cycleReports_finish (hx : SumsUp config x specs) :
    (x.finish config).cycleReports =
      (if config.detectCycles then x.graph.cycleDiagnostics else []).filter
        fun d => d.kind = .embeddingCycle := by
  have hnone : x.diagnostics.filter (fun d => d.kind = .embeddingCycle) = [] :=
    List.filter_eq_nil_iff.mpr fun d hd => by simpa using hx.kind_ne hd
  rw [cycleReports, finish, List.filter_append, hnone, List.nil_append]

/-! ## Several units -/

/-- A run over a single unit is the extraction of that unit. -/
theorem ofUnits_singleton (s : Settings) (u : SourceUnit) : ofUnits s [u] = ofUnit s u := by
  refine congrArg (finish s.toConfig) ?_
  change join { graph := .empty, diagnostics := [] } (ofItems s.toConfig u.items) = _
  rw [join, TypeGraph.empty_merge]
  dsimp only
  rw [List.nil_append, List.append_nil]

/-- **How declarations are cut into units and groups makes no difference**: units that hold the same
declarations in the same order give the same graph, the same reports of cycles, and the same reports
at all up to their wording and order. One unit gives the same by itself as in a run over several. -/
theorem ofUnits_congr (s : Settings) {us vs : List SourceUnit}
    (h : us.flatMap SourceUnit.specs = vs.flatMap SourceUnit.specs) :
    (ofUnits s us).graph = (ofUnits s vs).graph ∧
      (ofUnits s us).cycleReports = (ofUnits s vs).cycleReports ∧
      ((ofUnits s us).diagnostics.map Diagnostic.gist).Perm
        ((ofUnits s vs).diagnostics.map Diagnostic.gist) ∧
      ∀ u, ofUnits s [u] = ofUnit s u := by
  have hus := sumsUp_joinUnits s.toConfig us
  have hvs := sumsUp_joinUnits s.toConfig vs
  rw [← h] at hvs
  have hgraph := hus.graph_eq hvs
  refine ⟨hgraph, ?_, ?_, ofUnits_singleton s⟩
  · rw [ofUnits, ofUnits, hus.cycleReports_finish, hvs.cycleReports_finish, hgraph]
  · rw [ofUnits, ofUnits, finish, finish, List.map_append, List.map_append, hgraph]
    exact (hus.reports_perm hvs).append_right _

/-- A struct that embeds one type, in the line `line`. -/
def embedder (name target : String) (line : Nat) : TypeSpec :=
  { name := some name
    doc := none
    typeParams := none
    isAlias := false
    type := some (.struct [⟨[], .named none target, none, ⟨"", line, 2⟩⟩])
    position := ⟨"", line, 1⟩ }

/-- A group with a name declared twice, and a second unit that declares the name once more and
closes a cycle, give what one unit with four declarations gives. -/
theorem ofUnits_congr_of_group :
    let a := embedder "A" "B" 1
    let copy := embedder "A" "A" 2
    let other := embedder "A" "C" 3
    let b := embedder "B" "A" 4
    let us : List SourceUnit :=
      [⟨"first", [.group ⟨"", 1, 1⟩ [a, copy]]⟩, ⟨"second", [.single other, .single b]⟩]
    let vs : List SourceUnit := [⟨"all", [.single a, .single copy, .single other, .single b]⟩]
    us.flatMap SourceUnit.specs = vs.flatMap SourceUnit.specs ∧
      (ofUnits default us).graph = (ofUnits default vs).graph := by
  intro a copy other b us vs
  have hspecs : us.flatMap SourceUnit.specs = vs.flatMap SourceUnit.specs := rfl
  exact ⟨hspecs, (ofUnits_congr default hspecs).1⟩

end Extraction

end GoAtlas
