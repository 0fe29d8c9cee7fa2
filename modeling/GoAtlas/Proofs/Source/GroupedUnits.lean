import GoAtlas.Proofs.Source.Certificates
import GoAtlas.Proofs.Source.Declarations

/-!
# Declarations in a group and by themselves

The same declarations, each under comment lines of its own, can be written in one group in
parentheses or each behind a word `type` of its own. The comments and the declarations then stand
among the children of different nodes, and at other places. A parser that reads both units as they
are written gives the same candidates for the graph all the same, up to places: one for each
declaration, under the doc that its comment lines make, and no reports
(`SourceUnit.ofTree_grouped`).

Both units are lists of entries, so what each declares is read off `Phrase.forall₂_members` and
`Phrase.forall₂_singles`: the units declare what the phrases stand for by themselves
(`SourceUnit.specs_grouped`, `SourceUnit.specs_separate`).
-/

namespace GoAtlas

namespace Phrase

variable {p : Phrase}

/-! ## What a declaration stands for -/

/-- A declaration is a candidate for the graph. -/
theorem Follows.isSome_toOption_ofSpec (h : p.Follows) (hp : p.kind.isSpec = true)
    (doc : Option String) : (Candidate.ofSpec (p.spec doc)).toOption.isSome = true := by
  obtain ⟨⟨m, -, hname, hword⟩, ⟨t, -, htype⟩, -⟩ := h.declares hp (isAt_alone p) "" doc
  have hempty := Text.isEmpty_of_isWordText hword
  rw [← Text.trim_of_isWordText hword] at hempty
  exact Candidate.isSome_toOption_ofSpec hname hempty htype
    (Lowering.type_ne_missing _ _)

/-! ## Two layouts -/

/-- A declaration under its comment lines, as it may be written: each line is a comment on one line,
and the declaration follows the grammar. -/
structure IsEntry (e : List String × Phrase) : Prop where
  remarks : ∀ line ∈ e.1, ['/', '/'].isPrefixOf line.toList = true ∧ '\n' ∉ line.toList
  follows : e.2.Follows
  isSpec : e.2.kind.isSpec = true

/-- A unit of declarations under their comment lines, each behind a word `type` of its own, behind
other lines. -/
def separate (preface : List Phrase) (es : List (List String × Phrase)) : List Phrase :=
  onLines preface ++ entries Prod.fst (fun e => lone e.2) "\n" "" "" es

/-- A unit of the same declarations in one group, behind the same lines. -/
def grouped (preface : List Phrase) (indent : String) (es : List (List String × Phrase)) :
    List Phrase :=
  onLines preface ++ [group Prod.fst Prod.snd indent "" es, newline]

/-- What an entry declares, at no place of its own. -/
def declared (e : List String × Phrase) : TypeSpec :=
  (e.2.spec (docOf e.1)).unplaced

end Phrase

open Phrase

namespace SourceUnit

variable {parse : String → Node} {preface : List Phrase} {es : List (List String × Phrase)}
  {indent : String}

/-- Declarations that are what entries stand for are all candidates, under the docs of the entries.
-/
theorem candidates_of_declared {specs : List TypeSpec} (hes : ∀ e ∈ es, IsEntry e)
    (hspecs : specs.map TypeSpec.unplaced = es.map declared) :
    (Candidate.ofSpecs specs).1.map Candidate.unplaced =
        (Candidate.ofSpecs (es.map declared)).1 ∧
      (Candidate.ofSpecs specs).1.map Candidate.doc = es.map (fun e => docOf e.1) ∧
      (Candidate.ofSpecs specs).2 = [] := by
  have hdocs : specs.map TypeSpec.doc = es.map fun e => docOf e.1 := by
    have hmap := congrArg (List.map TypeSpec.doc) hspecs
    rwa [List.map_map, List.map_map] at hmap
  have hsome : ∀ spec ∈ specs, ∃ c, Candidate.ofSpec spec = .ok c ∧ c.doc = spec.doc := by
    intro spec hspec
    obtain ⟨e, he, heq⟩ := List.mem_map.mp (hspecs ▸ List.mem_map_of_mem hspec)
    have hdeclared := (hes e he).follows.isSome_toOption_ofSpec (hes e he).isSpec (docOf e.1)
    rw [← Option.isSome_map, ← Candidate.toOption_ofSpec_unplaced, ← declared, heq,
      Candidate.toOption_ofSpec_unplaced, Option.isSome_map] at hdeclared
    exact Candidate.exists_of_isSome_toOption_ofSpec hdeclared
  refine ⟨?_, ?_, ?_⟩
  · rw [← Candidate.ofSpecs_unplaced, hspecs]
  · rw [← hdocs]
    clear hspecs hdocs
    induction specs with
    | nil => rfl
    | cons spec specs ih =>
      rw [List.forall_mem_cons] at hsome
      obtain ⟨⟨c, hc, hdoc⟩, hsome⟩ := hsome
      have hoption : (Candidate.ofSpec spec).toOption = some c := by
        rw [hc]
        rfl
      have hcons : (Candidate.ofSpecs (spec :: specs)).1 = c :: (Candidate.ofSpecs specs).1 := by
        simp only [Candidate.ofSpecs, List.filterMap_cons, hoption]
      rw [hcons, List.map_cons, List.map_cons, hdoc, ih hsome]
  · refine List.filterMap_eq_nil_iff.mpr fun spec hspec => ?_
    obtain ⟨c, hc, -⟩ := hsome spec hspec
    rw [hc]

/-- What is made of things that stand for others, one by one. -/
theorem flatMap_eq_map_of_forall₂ {α β γ : Type} {f : β → List γ} {g : α → γ} {xs : List α}
    {ys : List β} (h : List.Forall₂ (fun x y => f y = [g x]) xs ys) : ys.flatMap f = xs.map g := by
  induction h with
  | nil => rfl
  | cons head _ ih => rw [List.flatMap_cons, head, ih, List.map_cons, List.singleton_append]

/-- What an entry declares does not depend on where it stands. -/
theorem unplaced_spec_of_isEntry {source : String} {e : List String × Phrase} (he : IsEntry e)
    {t : Place} {other : String} (hpart : HoldsAt source t (e.2.withGap other).chars) (name : String) :
    (({ source, unit := name } : Lowering).spec (docOf e.1)
      ((e.2.withGap other).place t)).unplaced = declared e :=
  SameButGap.unplaced_spec ⟨he.follows, other, rfl⟩ he.isSpec ⟨t, rfl, hpart⟩ (docOf e.1) name

/-- **By themselves**, entries declare what they stand for. -/
theorem specs_separate (hpreface : NoItems preface) (hes : ∀ e ∈ es, IsEntry e)
    (hreads : ReadsAs parse (separate preface es)) (name : String) :
    (ofTree name (write (separate preface es))
      (parse (write (separate preface es)))).specs.map TypeSpec.unplaced = es.map declared := by
  have hholds := holdsAt_write (separate preface es)
  generalize hsource : write (separate preface es) = source at hreads hholds ⊢
  rw [ReadsAs, hsource, separate] at hreads
  rw [separate, charsOfList_append] at hholds
  have hfresh := fresh_onLines preface .start (Node.fresh_nil _)
  rw [List.append_nil] at hfresh
  have hitems := @forall₂_singles _ Prod.fst Prod.snd "" source name _ es
    (fun e item => item.specs.map TypeSpec.unplaced = [declared e.2]) "\n" "" _ rfl
    (fun e he => ⟨fun line hline => ((hes e he).remarks line hline).2, (hes e he).isSpec⟩)
    (fun e he t other hpart => congrArg (fun spec => [spec])
      (unplaced_spec_of_isEntry (hes e he) hpart name)) hfresh hholds.right
  rw [specs, items_ofTree_onLines hpreface hreads, List.map_flatMap,
    flatMap_eq_map_of_forall₂ hitems, map_placesOf]

/-- **In a group**, entries declare what they stand for. -/
theorem specs_grouped (hpreface : NoItems preface) (hindent : '\n' ∉ indent.toList)
    (hes : ∀ e ∈ es, IsEntry e) (hreads : ReadsAs parse (grouped preface indent es)) (name : String) :
    (ofTree name (write (grouped preface indent es))
      (parse (write (grouped preface indent es)))).specs.map TypeSpec.unplaced =
        es.map declared := by
  have hholds := holdsAt_write (grouped preface indent es)
  generalize hsource : write (grouped preface indent es) = source at hreads hholds ⊢
  rw [ReadsAs, hsource, grouped] at hreads
  rw [grouped, charsOfList_append, charsOfList] at hholds
  have hmembers := @forall₂_members _ Prod.fst Prod.snd indent "" source name _ es
    (fun e spec => spec.unplaced = declared e.2) hindent
    (fun e he => ⟨fun line hline => ((hes e he).remarks line hline).2,
      fun other => gap_withGap other _ (hes e he).follows, (hes e he).isSpec⟩)
    (fun e he t other hpart => unplaced_spec_of_isEntry (hes e he) hpart name) hholds.right.left
  rw [specs, items_ofTree_onLines hpreface hreads, placeAll, placeAll, placeAll,
    Lowering.itemsBehind_cons, Lowering.itemsBehind_cons, item?_group_place,
    Lowering.item?_symbol (kind_place _ newline)]
  simp only [Option.toList_some, Option.toList_none, List.flatMap_cons, Lowering.itemsBehind,
    Node.withElders, List.filterMap_nil, List.flatMap_nil, List.append_nil, Item.specs]
  rw [map_eq_of_forall₂_mem hmembers fun _ _ _ h => h, placesInGroup, map_placesOf]

/-- **Grouping makes no difference.** Declarations under comment lines are written in one group, or
each behind a word `type` of its own, and a parser reads both units as they are written. Then both
have the same candidates for the graph, up to places, and nothing to report: one candidate for each
declaration, in their order, under the doc that its comment lines make. -/
theorem ofTree_grouped (hpreface : NoItems preface) (hindent : '\n' ∉ indent.toList)
    (hes : ∀ e ∈ es, IsEntry e) (hgrouped : ReadsAs parse (grouped preface indent es))
    (hseparate : ReadsAs parse (separate preface es)) (name : String) :
    let inGroup := ofTree name (write (grouped preface indent es))
      (parse (write (grouped preface indent es)))
    let alone := ofTree name (write (separate preface es)) (parse (write (separate preface es)))
    (Candidate.ofItems inGroup.items).1.map Candidate.unplaced =
      (Candidate.ofItems alone.items).1.map Candidate.unplaced ∧
    (Candidate.ofItems inGroup.items).1.map Candidate.doc = es.map (fun e => docOf e.1) ∧
    (Candidate.ofItems inGroup.items).2 = [] ∧ (Candidate.ofItems alone.items).2 = [] := by
  intro inGroup alone
  have hinGroup : inGroup.specs.map TypeSpec.unplaced = es.map declared :=
    specs_grouped hpreface hindent hes hgrouped name
  have halone : alone.specs.map TypeSpec.unplaced = es.map declared :=
    specs_separate hpreface hes hseparate name
  obtain ⟨hcandidates, hdocs, hreports⟩ := candidates_of_declared hes hinGroup
  obtain ⟨hcandidates', -, hreports'⟩ := candidates_of_declared hes halone
  exact ⟨hcandidates.trans hcandidates'.symm, hdocs, hreports, hreports'⟩

/-! ## An example -/

/-- A struct with a tagged field under two comment lines, and an alias under none. -/
def boxAndNames : List (List String × Phrase) :=
  [(["// A box holds", "// one thing."],
    node .typeSpec none
      [leaf .typeIdentifier (some .name) "" "Box",
        node .structType (some .type)
          [leaf (.symbol "struct") none " " "struct",
            node .fieldDeclarationList none
              [leaf (.symbol "\x7b") none " " "\x7b",
                node .fieldDeclaration none
                  [leaf .fieldIdentifier (some .name) "\n\t" "thing",
                    node .pointerType (some .type)
                      [leaf (.symbol "*") none " " "*", leaf .typeIdentifier none "" "Thing"],
                    leaf (.other "raw_string_literal") (some .tag) " " "\x60json\x60"],
                leaf (.symbol "\n") none "" "\n", leaf (.symbol "\x7d") none "" "\x7d"]]]),
    ([],
      node .typeAlias none
        [leaf .typeIdentifier (some .name) "" "Names", leaf (.symbol "=") none " " "=",
          node (.other "type") (some .type)
            [leaf (.symbol "[") none " " "[", leaf (.symbol "]") none "" "]",
              leaf .identifier none "" "string"]])]

theorem ofTree_grouped_boxAndNames :
    let inGroup := ofText "a.go" (write (grouped [SourceText.clause] "\t" boxAndNames))
    let alone := ofText "a.go" (write (separate [SourceText.clause] boxAndNames))
    (Candidate.ofItems inGroup.items).1.map Candidate.unplaced =
      (Candidate.ofItems alone.items).1.map Candidate.unplaced ∧
    (Candidate.ofItems inGroup.items).1.map Candidate.doc = [some "A box holds\none thing.", none] := by
  have hgrouped : ReadsAs SourceText.tree (grouped [SourceText.clause] "\t" boxAndNames) :=
    SourceText.readsAs_tree (by decide +kernel) (by decide +kernel)
  have hseparate : ReadsAs SourceText.tree (separate [SourceText.clause] boxAndNames) :=
    SourceText.readsAs_tree (by decide +kernel) (by decide +kernel)
  have hes : ∀ e ∈ boxAndNames, IsEntry e := by
    rw [boxAndNames, List.forall_mem_cons, List.forall_mem_singleton]
    exact ⟨⟨by decide +kernel, by decide +kernel, rfl⟩, ⟨nofun, by decide +kernel, rfl⟩⟩
  obtain ⟨hsame, hdocs, -⟩ := ofTree_grouped (by decide) (by decide +kernel) hes hgrouped hseparate
    "a.go"
  exact ⟨hsame, hdocs.trans (by decide +kernel)⟩

end SourceUnit

end GoAtlas
