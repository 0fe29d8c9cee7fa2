import GoAtlas.Proofs.Extraction.Units
import GoAtlas.Proofs.Graph.Embedding

/-!
# No declaration is lost

Each declaration of the source meets one of three fates: it cannot be used, it is the first of its
name, or its name is taken (`Fate.after`). `ofUnits_accounts` says what each of them comes to.

What cannot be used is reported when candidates are collected, once. The first of a name is in the
graph with all that it says. A later one is left out with one report, although there are two places
where it may happen: in its own unit, or when the unit is joined to those before it. A declaration
that is left out in its unit in favour of one that the join leaves out is not compared with the
first of its name at any time; that it is reported as often as it should follows from the sum of
both (`SumsUp.reports`).
-/

namespace GoAtlas

variable {config : Config} {s : TypeSpec} {specs : List TypeSpec}

namespace TypeSpec

/-- The name of a declaration without the blanks around it, and the empty text if it has none. -/
def trimmedName (s : TypeSpec) : String :=
  (s.name.map Text.trim).getD ""

/-- The declaration has no name or no type. -/
def IsMalformed (s : TypeSpec) : Prop :=
  s.trimmedName = "" ∨ s.type = none ∨ s.type = some .missing

instance : DecidablePred IsMalformed := fun s =>
  inferInstanceAs (Decidable (s.trimmedName = "" ∨ s.type = none ∨ s.type = some .missing))

/-- What a declaration of the source says, as a declaration of the graph. -/
def toDeclaration (config : Config) (s : TypeSpec) : Declaration :=
  { name := s.trimmedName
    doc := if config.keepDocComments then s.doc else none
    typeParams := s.typeParams
    isAlias := s.isAlias
    position := s.position
    shape := (Shape.ofExpr config.maxInlineDepth s.trimmedName (s.type.getD .missing)).1 }

end TypeSpec

/-- What can become of a declaration of the source. -/
inductive Fate where
  /-- It has no name or no type. -/
  | malformed
  /-- It can be used and is the first of its name. -/
  | first
  /-- A declaration before it that can be used has its name. -/
  | repeated
  deriving DecidableEq

/-- The names that some declarations of the source take. -/
def takenNames (specs : List TypeSpec) : List String :=
  (specs.filter fun s => ¬ s.IsMalformed).map TypeSpec.trimmedName

namespace Fate

/-- The fate of a declaration that comes after some others. -/
def after (before : List TypeSpec) (s : TypeSpec) : Fate :=
  if s.IsMalformed then malformed
  else if s.trimmedName ∈ takenNames before then repeated
  else first

/-- The declarations with a fate, in order. -/
def meeting (f : Fate) (specs : List TypeSpec) : List TypeSpec :=
  (specs.zipIdx.filter fun p => after (specs.take p.2) p.1 = f).map Prod.fst

end Fate

/-! ## Candidates -/

namespace Candidate

/-- What a declaration becomes is decided by its name and its type. -/
theorem ofSpec_eq (s : TypeSpec) : ofSpec s =
    if s.trimmedName.isEmpty then .error (nameless s.position)
    else
      match s.type with
      | none | some .missing => .error (typeless s.trimmedName s.position)
      | some type =>
        .ok
          { name := s.trimmedName
            doc := s.doc
            typeParams := s.typeParams
            isAlias := s.isAlias
            type
            position := s.position } := rfl

/-- A declaration without a name or a type is reported with its place. -/
theorem ofSpec_of_malformed (h : s.IsMalformed) : ∃ report, ofSpec s = .error report ∧
    (report.kind, report.position) = (.malformedDeclaration, some s.position) := by
  rw [ofSpec_eq]
  by_cases hname : s.trimmedName = ""
  · exact ⟨_, if_pos (String.isEmpty_iff.mpr hname), rfl⟩
  · rw [if_neg (mt String.isEmpty_iff.mp hname)]
    rcases h with h | h | h
    · exact absurd h hname
    · rw [h]
      exact ⟨_, rfl, rfl⟩
    · rw [h]
      exact ⟨_, rfl, rfl⟩

/-- Any other declaration is a candidate for what it says. -/
theorem ofSpec_of_not_malformed (h : ¬ s.IsMalformed) : ∃ c, ofSpec s = .ok c ∧
    ∀ config, (Declaration.ofCandidate config c).1 = s.toDeclaration config := by
  obtain ⟨hname, hnone, hmissing⟩ :
      s.trimmedName ≠ "" ∧ s.type ≠ none ∧ s.type ≠ some .missing := by
    rwa [TypeSpec.IsMalformed, not_or, not_or] at h
  obtain ⟨type, htype⟩ := Option.ne_none_iff_exists'.mp hnone
  rw [ofSpec_eq, if_neg (mt String.isEmpty_iff.mp hname), htype]
  rw [htype] at hmissing
  refine ⟨⟨s.trimmedName, s.doc, s.typeParams, s.isAlias, type, s.position⟩, ?_, fun config => ?_⟩
  · cases type with
    | missing => exact absurd rfl hmissing
    | _ => rfl
  · rw [TypeSpec.toDeclaration, htype]
    rfl

theorem ofSpecs_cons_of_error {report : Diagnostic} (h : ofSpec s = .error report) :
    ofSpecs (s :: specs) = ((ofSpecs specs).1, report :: (ofSpecs specs).2) := by
  rw [ofSpecs, List.filterMap_cons_none (by rw [h]; rfl),
    List.filterMap_cons_some (b := report) (by rw [h])]
  rfl

theorem ofSpecs_cons_of_ok {c : Candidate} (h : ofSpec s = .ok c) :
    ofSpecs (s :: specs) = (c :: (ofSpecs specs).1, (ofSpecs specs).2) := by
  rw [ofSpecs, List.filterMap_cons_some (b := c) (by rw [h]; rfl),
    List.filterMap_cons_none (by rw [h])]
  rfl

/-- The reports of collecting candidates are one for each declaration that cannot be used. -/
theorem map_ofSpecs_snd (specs : List TypeSpec) :
    (ofSpecs specs).2.map (fun d => (d.kind, d.position)) =
      (specs.filter fun s => s.IsMalformed).map fun s =>
        (.malformedDeclaration, some s.position) := by
  induction specs with
  | nil => rfl
  | cons s rest ih =>
    by_cases hs : s.IsMalformed
    · obtain ⟨report, hreport, hgist⟩ := ofSpec_of_malformed hs
      rw [ofSpecs_cons_of_error hreport, List.filter_cons_of_pos (by simpa using hs), List.map_cons,
        List.map_cons, hgist, ih]
    · obtain ⟨c, hc, -⟩ := ofSpec_of_not_malformed hs
      rw [ofSpecs_cons_of_ok hc, List.filter_cons_of_neg (by simpa using hs), ih]

end Candidate

namespace Extraction

/-- The declarations that are added are those that can be used, with what they say. -/
theorem declared_eq (config : Config) (specs : List TypeSpec) : declared config specs =
    (specs.filter fun s => ¬ s.IsMalformed).map (TypeSpec.toDeclaration config) := by
  induction specs with
  | nil => rfl
  | cons s rest ih =>
    rw [declared] at ih ⊢
    by_cases hs : s.IsMalformed
    · obtain ⟨report, hreport, -⟩ := Candidate.ofSpec_of_malformed hs
      rw [Candidate.ofSpecs_cons_of_error hreport, List.filter_cons_of_neg (by simpa using hs), ih]
    · obtain ⟨c, hc, hdeclaration⟩ := Candidate.ofSpec_of_not_malformed hs
      rw [Candidate.ofSpecs_cons_of_ok hc, List.filter_cons_of_pos (by simpa using hs),
        List.map_cons, ← hdeclaration, ← ih]
      rfl

end Extraction

/-! ## Fates -/

namespace Fate

/-- The declarations with a fate among those that come after some others. -/
def meetingAfter (f : Fate) (before : List TypeSpec) : List TypeSpec → List TypeSpec
  | [] => []
  | s :: rest =>
    if after before s = f then s :: meetingAfter f (before ++ [s]) rest
    else meetingAfter f (before ++ [s]) rest

theorem meetingAfter_eq (f : Fate) (before specs : List TypeSpec) : meetingAfter f before specs =
    ((specs.zipIdx before.length).filter fun p =>
      after ((before ++ specs).take p.2) p.1 = f).map Prod.fst := by
  induction specs generalizing before with
  | nil => rfl
  | cons s rest ih =>
    have hrest := ih (before ++ [s])
    rw [List.length_append, List.length_singleton, List.append_assoc, List.singleton_append]
      at hrest
    have hbefore : (before ++ s :: rest).take before.length = before := List.take_left
    rw [meetingAfter, List.zipIdx_cons, List.filter_cons, hrest]
    dsimp only
    rw [hbefore]
    by_cases h : after before s = f
    · rw [if_pos h, if_pos (decide_eq_true h), List.map_cons]
    · rw [if_neg h, if_neg (by simpa using h)]

/-- The fates are told one by one, from left to right. -/
theorem meeting_eq (f : Fate) (specs : List TypeSpec) : meeting f specs = meetingAfter f [] specs :=
  (meetingAfter_eq f [] specs).symm

variable {before : List TypeSpec} {f : Fate}

theorem after_of_malformed (h : s.IsMalformed) : after before s = malformed :=
  if_pos h

/-- A name that has been taken is met as a duplicate. -/
theorem after_of_mem (h : ¬ s.IsMalformed) (ht : s.trimmedName ∈ takenNames before) :
    after before s = repeated := by
  rw [after, if_neg h, if_pos ht]

theorem after_of_not_mem (h : ¬ s.IsMalformed) (ht : s.trimmedName ∉ takenNames before) :
    after before s = first := by
  rw [after, if_neg h, if_neg ht]

theorem takenNames_append_of_malformed (h : s.IsMalformed) :
    takenNames (before ++ [s]) = takenNames before := by
  simp [takenNames, h]

theorem takenNames_append_of_not_malformed (h : ¬ s.IsMalformed) :
    takenNames (before ++ [s]) = takenNames before ++ [s.trimmedName] := by
  simp [takenNames, h]

/-- Whether a declaration can be used does not depend on those before it. -/
theorem meetingAfter_malformed (before specs : List TypeSpec) :
    meetingAfter malformed before specs = specs.filter fun s => s.IsMalformed := by
  induction specs generalizing before with
  | nil => rfl
  | cons s rest ih =>
    have hiff : after before s = malformed ↔ s.IsMalformed := by
      rw [after]
      split <;> simp [*]
      split <;> simp
    rw [meetingAfter, ih, List.filter_cons]
    simp only [hiff, decide_eq_true_eq]

/-- Those that can be used are chosen by their names, against the names taken before. -/
theorem meetingAfter_first_repeated (before specs : List TypeSpec) :
    meetingAfter first before specs = firsts TypeSpec.trimmedName (takenNames before)
        (specs.filter fun s => ¬ s.IsMalformed) ∧
      meetingAfter repeated before specs = repeats TypeSpec.trimmedName (takenNames before)
        (specs.filter fun s => ¬ s.IsMalformed) := by
  induction specs generalizing before with
  | nil => exact ⟨rfl, rfl⟩
  | cons s rest ih =>
    obtain ⟨hfirst, hrepeated⟩ := ih (before ++ [s])
    rw [meetingAfter, meetingAfter, hfirst, hrepeated]
    by_cases hs : s.IsMalformed
    · rw [after_of_malformed hs, takenNames_append_of_malformed hs,
        List.filter_cons_of_neg (by simpa using hs)]
      exact ⟨rfl, rfl⟩
    · rw [takenNames_append_of_not_malformed hs, List.filter_cons_of_pos (by simpa using hs)]
      by_cases ht : s.trimmedName ∈ takenNames before
      · -- a name that is taken is not taken once more
        have hsame : ∀ k, k ∈ takenNames before ++ [s.trimmedName] ↔ k ∈ takenNames before := by
          intro k
          rw [List.mem_append, List.mem_singleton, or_iff_left_iff_imp]
          rintro rfl
          exact ht
        rw [after_of_mem hs ht, firsts_cons_of_mem ht, repeats_cons_of_mem ht, firsts_congr hsame,
          repeats_congr hsame]
        exact ⟨rfl, rfl⟩
      · rw [after_of_not_mem hs ht, firsts_cons_of_not_mem ht, repeats_cons_of_not_mem ht]
        exact ⟨rfl, rfl⟩

/-- **Each declaration has one fate.** -/
theorem meeting_perm (specs : List TypeSpec) :
    (meeting malformed specs ++ (meeting first specs ++ meeting repeated specs)).Perm specs := by
  obtain ⟨hfirst, hrepeated⟩ := meetingAfter_first_repeated [] specs
  rw [meeting_eq, meeting_eq, meeting_eq, meetingAfter_malformed, hfirst, hrepeated]
  refine (firsts_append_repeats_perm.append_left _).trans ?_
  simp only [decide_not]
  exact List.filter_append_perm _ specs

end Fate

/-! ## Reports by kind -/

namespace Extraction

variable {x : Extraction} {k : DiagnosticKind}

/-- The reports of a kind in an extraction. -/
def reportsOf (k : DiagnosticKind) (x : Extraction) : List Diagnostic :=
  x.diagnostics.filter fun d => d.kind = k

/-- Adding candidates reports their fields, and names that are taken. -/
theorem filter_reports_addCandidates (g : TypeGraph) (cs : List Candidate) :
    (g.addCandidates config cs).2.filter (fun d => d.kind = .malformedDeclaration) =
      TypeGraph.fieldReportsOf config cs := by
  induction cs generalizing g with
  | nil => rfl
  | cons c rest ih =>
    have hfields : (Declaration.ofCandidate config c).2.filter
        (fun d => d.kind = .malformedDeclaration) = (Declaration.ofCandidate config c).2 :=
      List.filter_eq_self.mpr fun d hd => decide_eq_true (Declaration.kind_of_mem_ofCandidate hd)
    have hadd : (g.add (Declaration.ofCandidate config c).1).2.filter
        (fun d => d.kind = .malformedDeclaration) = [] := by
      rw [TypeGraph.add]
      split <;> rfl
    rw [TypeGraph.addCandidates]
    dsimp only
    rw [List.filter_append, List.filter_append, hfields, hadd, List.append_nil, ih]
    rfl

/-- The search for cycles adds reports of cycles only. -/
theorem reportsOf_finish (hk : k ≠ .embeddingCycle) (x : Extraction) :
    reportsOf k (x.finish config) = reportsOf k x := by
  have hnone : (if config.detectCycles then x.graph.cycleDiagnostics else []).filter
      (fun d => d.kind = k) = [] := by
    refine List.filter_eq_nil_iff.mpr fun d hd => ?_
    split at hd
    · obtain ⟨path, -, rfl⟩ := List.mem_map.mp hd
      simpa [Diagnostic.cycle] using hk.symm
    · cases hd
  rw [reportsOf, finish, List.filter_append, hnone, List.append_nil, reportsOf]

/-- The reports of what cannot be used in one unit: first the declarations, then the fields. -/
def malformedReports (config : Config) (u : SourceUnit) : List Diagnostic :=
  (Candidate.ofItems u.items).2 ++ TypeGraph.fieldReportsOf config (Candidate.ofItems u.items).1

theorem reportsOf_ofItems (u : SourceUnit) :
    reportsOf .malformedDeclaration (ofItems config u.items) = malformedReports config u := by
  have hcandidates : (Candidate.ofItems u.items).2.filter
      (fun d => d.kind = .malformedDeclaration) = (Candidate.ofItems u.items).2 :=
    List.filter_eq_self.mpr fun d hd => decide_eq_true (Candidate.kind_of_mem_ofSpecs hd)
  change ((Candidate.ofItems u.items).2 ++ (TypeGraph.empty.addCandidates config
    (Candidate.ofItems u.items).1).2).filter (fun d => d.kind = .malformedDeclaration) = _
  rw [List.filter_append, hcandidates, filter_reports_addCandidates, malformedReports]

/-- **What cannot be used is reported** unit by unit, and nothing is lost on the way. -/
theorem reportsOf_joinUnits (x : Extraction) (us : List SourceUnit) :
    reportsOf .malformedDeclaration (joinUnits config x us) =
      reportsOf .malformedDeclaration x ++ us.flatMap (malformedReports config) := by
  induction us generalizing x with
  | nil => exact (List.append_nil _).symm
  | cons u rest ih =>
    have hmerge : (x.graph.merge (ofItems config u.items).graph).2.filter
        (fun d => d.kind = .malformedDeclaration) = [] :=
      List.filter_eq_nil_iff.mpr fun d hd => by simp [TypeGraph.kind_of_mem_merge hd]
    have hjoin : reportsOf .malformedDeclaration (x.join (ofItems config u.items)) =
        reportsOf .malformedDeclaration x ++ malformedReports config u := by
      rw [reportsOf, join]
      dsimp only
      rw [List.filter_append, List.filter_append, hmerge, List.append_nil, ← reportsOf_ofItems]
      rfl
    rw [joinUnits, List.foldl_cons, ← joinUnits, ih, hjoin, List.flatMap_cons, List.append_assoc]

/-- Collecting candidates unit by unit reports what collecting them at once would report. -/
theorem flatMap_ofItems_snd (us : List SourceUnit) :
    us.flatMap (fun u => (Candidate.ofItems u.items).2) =
      (Candidate.ofSpecs (us.flatMap SourceUnit.specs)).2 := by
  induction us with
  | nil => rfl
  | cons u rest ih =>
    rw [List.flatMap_cons, List.flatMap_cons, Candidate.ofSpecs_append, ih]
    rfl

/-! ## What the fates come to -/

/-- The declarations that are taken are the first of their names, with what they say. -/
theorem firsts_declared (config : Config) (specs : List TypeSpec) :
    firsts Declaration.name [] (declared config specs) =
      (Fate.meeting .first specs).map (TypeSpec.toDeclaration config) := by
  rw [declared_eq, ← map_firsts (TypeSpec.toDeclaration config) fun _ => rfl, Fate.meeting_eq,
    (Fate.meetingAfter_first_repeated [] specs).1]
  rfl

/-- The declarations that are left out are the repeated ones. -/
theorem repeats_declared (config : Config) (specs : List TypeSpec) :
    repeats Declaration.name [] (declared config specs) =
      (Fate.meeting .repeated specs).map (TypeSpec.toDeclaration config) := by
  rw [declared_eq, ← map_repeats (TypeSpec.toDeclaration config) fun _ => rfl, Fate.meeting_eq,
    (Fate.meetingAfter_first_repeated [] specs).2]
  rfl

/-- **What is left out is reported**: the reports of names that are taken are about the repeated
declarations. -/
theorem SumsUp.duplicates_perm (hx : SumsUp config x specs) :
    ((reportsOf .duplicateTypeName x).map Diagnostic.gist).Perm
      ((Fate.meeting .repeated specs).map fun s =>
        (.duplicateTypeName, some s.trimmedName, some s.position)) := by
  have hfaults : ((faults config specs).map Diagnostic.gist).filter
      (fun p => p.1 = .duplicateTypeName) = [] := by
    refine List.filter_eq_nil_iff.mpr fun p hp => ?_
    obtain ⟨d, hd, rfl⟩ := List.mem_map.mp hp
    simp [Diagnostic.gist, kind_of_mem_faults hd]
  have hout : ((repeats Declaration.name [] (declared config specs)).map
      Declaration.duplicateGist).filter (fun p => p.1 = .duplicateTypeName) =
      (repeats Declaration.name [] (declared config specs)).map Declaration.duplicateGist := by
    refine List.filter_eq_self.mpr fun p hp => ?_
    obtain ⟨d, -, rfl⟩ := List.mem_map.mp hp
    rfl
  have hperm := hx.reports.filter fun p => p.1 = .duplicateTypeName
  rw [List.filter_append, hfaults, List.nil_append, hout, repeats_declared, List.map_map,
    List.filter_map] at hperm
  exact hperm

/-- **No declaration is lost**, and the first of a name wins. Each declaration of the source has one
of three fates. If it cannot be used, it is reported when candidates are collected, and the report
reaches the end. If it is the first of its name, it is in the graph, alone under this name and with
what it says. If its name is taken, there is a report of it. The names are in the order of their
first declarations. -/
theorem ofUnits_accounts (s : Settings) (us : List SourceUnit) :
    let specs := us.flatMap SourceUnit.specs
    let x := ofUnits s us
    let malformed := Fate.malformed.meeting specs
    let first := Fate.first.meeting specs
    let repeated := Fate.repeated.meeting specs
    (malformed ++ (first ++ repeated)).Perm specs ∧
      ((us.flatMap fun u => (Candidate.ofItems u.items).2).map fun d => (d.kind, d.position)) =
        malformed.map (fun n => (.malformedDeclaration, some n.position)) ∧
      reportsOf .malformedDeclaration x = us.flatMap (malformedReports s.toConfig) ∧
      x.graph.declarations = first.map (TypeSpec.toDeclaration s.toConfig) ∧
      (∀ n ∈ first, x.graph.declarations.filter (fun d => d.name = n.trimmedName) =
        [n.toDeclaration s.toConfig]) ∧
      ((reportsOf .duplicateTypeName x).map Diagnostic.gist).Perm
        (repeated.map fun n => (.duplicateTypeName, some n.trimmedName, some n.position)) ∧
      x.graph.names = first.map TypeSpec.trimmedName ∧
      specs.length = x.graph.declarations.length + (reportsOf .duplicateTypeName x).length +
        malformed.length := by
  intro specs x malformed first repeated
  have hsum := sumsUp_joinUnits s.toConfig us
  have hgraph : x.graph.declarations = first.map (TypeSpec.toDeclaration s.toConfig) :=
    hsum.declarations.trans (firsts_declared s.toConfig specs)
  have hmalformed : malformed = specs.filter fun n => n.IsMalformed := by
    rw [← Fate.meetingAfter_malformed [], ← Fate.meeting_eq]
  have hfinish : ∀ k ≠ .embeddingCycle, reportsOf k x = reportsOf k
      (joinUnits s.toConfig { graph := .empty, diagnostics := [] } us) :=
    fun _ hk => reportsOf_finish hk _
  have hduplicates := hsum.duplicates_perm
  rw [← hfinish .duplicateTypeName nofun] at hduplicates
  refine ⟨Fate.meeting_perm specs, ?_, ?_, hgraph, fun n hn => ?_, hduplicates, ?_, ?_⟩
  · rw [flatMap_ofItems_snd, Candidate.map_ofSpecs_snd, hmalformed]
  · exact (hfinish .malformedDeclaration nofun).trans (reportsOf_joinUnits _ us)
  · have hmem : n.toDeclaration s.toConfig ∈ x.graph.declarations := by
      rw [hgraph]
      exact List.mem_map_of_mem hn
    exact TypeGraph.filter_name_eq hmem
  · rw [TypeGraph.names, hgraph, List.map_map]
    rfl
  · have hlength : malformed.length + (first.length + repeated.length) = specs.length := by
      rw [← List.length_append, ← List.length_append]
      exact (Fate.meeting_perm specs).length_eq
    have hout : (reportsOf .duplicateTypeName x).length = repeated.length := by
      have hlengths := hduplicates.length_eq
      rwa [List.length_map, List.length_map] at hlengths
    rw [hgraph, List.length_map, hout]
    omega

-- the second `A` of the first unit is left out there, the third by the join
example :
    let us : List SourceUnit :=
      [⟨"first", [.single (embedder "A" "B" 1), .single (embedder " " "B" 2),
        .single (embedder "A" "C" 3)]⟩,
      ⟨"second", [.single (embedder " A" "D" 4), .single (embedder "B" "A" 5)]⟩]
    let lines := fun f => (Fate.meeting f (us.flatMap SourceUnit.specs)).map (·.position.line)
    lines .malformed = [2] ∧ lines .first = [1, 5] ∧ lines .repeated = [3, 4] := by
  decide +kernel

end Extraction

end GoAtlas
