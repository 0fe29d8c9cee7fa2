import GoAtlas.Proofs.Graph.Extension
import GoAtlas.Proofs.Graph.History
import GoAtlas.Proofs.View.Cycles
import GoAtlas.Proofs.View.Methods

/-!
# Views that last

When a graph is extended, some views of the declared names stay what they were: those that did not
have to leave the graph. The expansion of a struct is settled when all types that it meets are
declared (`StaysInside`); then the extended graph has the same types on the same levels
(`Extends.stage_eq`), and no cycle through the struct, since a way back would have to leave the
types that were met (`Extends.transGen_embeds_of_staysInside`). The method set of an interface is
settled when all interfaces that it embeds have been expanded.

A mark of a cycle stays in any case. A join of built graphs extends the first of them, so all of
this is true of the answers that it gives about the names of the first (`merge_keeps_answers`).
-/

namespace GoAtlas

namespace MethodSet

variable {body body' : Reference → Option (List Signature × List Reference)}

/-- When all interfaces that are taken into account had a body, it makes no difference whether
others have one. -/
theorem foldl_embed_eq {s : MethodSet} {rs : List Reference}
    (hbody : ∀ r b, body r = some b → body' r = some b)
    (hs : ∀ e ∈ (rs.foldl (fun s r => s.embed r (body r)) s).embedded, e.expanded = true) :
    rs.foldl (fun s r => s.embed r (body' r)) s = rs.foldl (fun s r => s.embed r (body r)) s := by
  refine List.foldl_ext _ _ _ fun acc r hr => ?_
  rw [foldl_embed] at hs
  have hsome := hs _ (List.mem_append_right _ (List.mem_map_of_mem hr))
  obtain ⟨b, hb⟩ := Option.isSome_iff_exists.mp hsome
  rw [hb, hbody r b hb]

end MethodSet

namespace TypeGraph

open Relation (ReflTransGen TransGen)

variable {g m : TypeGraph} {root x y name : String} {t : Trail} {direct : List Field}

/-! ## Expansions that stay inside -/

/-- Whatever the expansion of a struct meets, its embeddings lead to declared types. -/
def StaysInside (g : TypeGraph) (root : String) : Prop :=
  ∀ x, ReflTransGen g.Expands root x → g.unresolvedOf x = []

theorem exists_embedded_eq_ok (h : g.unresolvedOf x = []) {e : Embedding}
    (he : e ∈ g.embeddingsFrom x) : ∃ name declared, g.embedded e = .ok (name, declared) := by
  have hnone := List.filterMap_eq_nil_iff.mp h e he
  rcases hembedded : g.embedded e with text | ⟨name, declared⟩
  · rw [hembedded] at hnone
    cases hnone
  · exact ⟨name, declared, rfl⟩

/-- A view that lists no embedding as unresolved comes from an expansion that stays inside. -/
theorem staysInside_of_unresolved (hroot : g.IsPlain root) (h : g.unresolvedOf root ++
    (g.trails root).flatMap (fun t => g.unresolvedOf t.name) = []) : g.StaysInside root := by
  obtain ⟨hnone, htrails⟩ := List.append_eq_nil_iff.mp h
  intro x hx
  by_cases hne : x = root
  · rw [hne]
    exact hnone
  · obtain ⟨t, ht, rfl⟩ := exists_mem_discovered hroot (Nat.le_succ _) hx hne
    exact List.flatMap_eq_nil_iff.mp htrails t ht

/-- No level is left out when more are looked at than there can be. -/
theorem discovered_eq_trails (hroot : g.IsPlain root) {n : Nat}
    (hn : g.declarations.length + 1 ≤ n) : g.discovered root n = g.trails root := by
  induction n, hn using Nat.le_induction with
  | base => rfl
  | succ n hn ih =>
    rw [discovered, trails_eq_nil hroot (by omega), List.append_nil, ih]

/-- What is reached from a declared name that is no alias is such a name. -/
theorem isPlain_of_reflTransGen (hroot : g.IsPlain root) (h : ReflTransGen g.Expands root x) :
    g.IsPlain x := by
  obtain ⟨ranks, via, hchain⟩ := exists_chain_iff.mpr h
  exact hchain.isPlain hroot

namespace Extends

variable (hm : m.Extends g)
include hm

/-! ## The expansion in a graph that is extended -/

theorem embedded_eq {e : Embedding} {declared : String}
    (he : g.embedded e = .ok (name, declared)) : m.embedded e = .ok (name, declared) := by
  rw [embedded_eq_ok_iff] at he ⊢
  exact ⟨hm.resolve_eq he.1, hm.followAliases_eq he.2⟩

theorem lookupStruct_eq (h : g.lookupStruct name = .ok direct) :
    m.lookupStruct name = .ok direct := by
  rw [lookupStruct, hm.find?_eq_of_mem (isPlain_of_lookupStruct h).mem_names]
  exact h

theorem fieldsOf_eq (hx : x ∈ g.names) : m.fieldsOf x = g.fieldsOf x := by
  rw [fieldsOf, hm.find?_eq_of_mem hx, fieldsOf]

section StaysInside

variable (hroot : g.IsPlain root) (hin : g.StaysInside root)
include hroot hin

/-- The embeddings of a type that is met lead where they led. -/
theorem embeddingsFrom_embedded_eq (hx : ReflTransGen g.Expands root x) :
    m.embeddingsFrom x = g.embeddingsFrom x ∧
      ∀ e ∈ g.embeddingsFrom x, m.embedded e = g.embedded e := by
  refine ⟨hm.embeddingsFrom_eq x (isPlain_of_reflTransGen hroot hx).mem_names, fun e he => ?_⟩
  obtain ⟨name, declared, hembedded⟩ := exists_embedded_eq_ok (hin x hx) he
  rw [hembedded, hm.embedded_eq hembedded]

theorem unresolvedOf_eq (hx : ReflTransGen g.Expands root x) :
    m.unresolvedOf x = g.unresolvedOf x := by
  obtain ⟨hfrom, hembedded⟩ := hm.embeddingsFrom_embedded_eq hroot hin hx
  rw [unresolvedOf, hfrom, unresolvedOf]
  exact List.filterMap_congr fun e he => by rw [hembedded e he]

theorem extend_eq (ht : ReflTransGen g.Expands root t.name) : m.extend t = g.extend t := by
  obtain ⟨hfrom, hembedded⟩ := hm.embeddingsFrom_embedded_eq hroot hin ht
  rw [extend, hfrom, extend]
  refine List.filterMap_congr fun p hp => ?_
  rw [step?, step?, hembedded p.1 (List.mem_of_getElem? (List.mem_zipIdx_iff_getElem?.mp hp))]

/-- **The levels of an expansion** that stays inside are the same in the extended graph. -/
theorem stage_eq (n : Nat) : m.stage root n = g.stage root n := by
  induction n with
  | zero => rfl
  | succ n ih =>
    have hnext : (g.stage root n).trails.flatMap m.extend =
        (g.stage root n).trails.flatMap g.extend := by
      refine List.flatMap_congr fun t ht => hm.extend_eq hroot hin ?_
      exact exists_chain_iff.mp ⟨_, _, (chain_of_mem_stage ht).1⟩
    rw [stage, ih, hnext, stage]

theorem trails_eq : m.trails root = g.trails root := by
  have hlevels : ∀ n, m.discovered root n = g.discovered root n := by
    intro n
    induction n with
    | zero => rfl
    | succ n ih => rw [discovered, ih, hm.stage_eq hroot hin, discovered]
  rw [trails, hlevels]
  exact discovered_eq_trails hroot (Nat.succ_le_succ hm.length_le)

/-- An embedding of a type that is met leads, in the extended graph too, to a declared name, and
that is a type that is met unless it is an alias. -/
theorem embeds_of_reached (hx : ReflTransGen g.Expands root x) (hxy : m.Embeds x y) :
    g.Embeds x y ∧ (g.IsPlain y → g.Expands x y) := by
  obtain ⟨e, he, howner, hresolve⟩ := hxy
  have hfrom := mem_embeddingsFrom_iff.mpr ⟨he, howner⟩
  rw [(hm.embeddingsFrom_embedded_eq hroot hin hx).1] at hfrom
  obtain ⟨name, declared, hembedded⟩ := exists_embedded_eq_ok (hin x hx) hfrom
  obtain ⟨hname, hfollow⟩ := embedded_eq_ok_iff.mp hembedded
  obtain rfl := Resolution.declared.inj (hresolve.symm.trans (hm.resolve_eq hname))
  obtain ⟨he, howner⟩ := mem_embeddingsFrom_iff.mp hfrom
  refine ⟨⟨e, he, howner, hname⟩, fun hplain => ⟨e, hfrom, y, hname, ?_⟩⟩
  exact followAliases_of_isPlain hplain

/-- **Where embeddings lead** in the extended graph, from a struct whose expansion stays inside,
they led before. The way passes structs only, because nothing else owns embeddings, and each of them
is a type that the expansion meets. -/
theorem transGen_embeds_of_staysInside (hg : g.OwnsEmbeddings) (h : TransGen m.Embeds root y) :
    TransGen g.Embeds root y ∧ (g.IsPlain y → ReflTransGen g.Expands root y) := by
  induction h with
  | single hl =>
    obtain ⟨hembeds, hexpands⟩ := hm.embeds_of_reached hroot hin .refl hl
    exact ⟨.single hembeds, fun hplain => .single (hexpands hplain)⟩
  | @tail x y _ hl ih =>
    obtain ⟨hway, hreached⟩ := ih
    have hplain : g.IsPlain x := by
      obtain ⟨e, he, rfl, -⟩ := hl
      obtain ⟨last, -, hlast⟩ := TransGen.tail'_iff.mp hway
      have hfrom := mem_embeddingsFrom_iff.mpr ⟨he, rfl⟩
      rw [hm.embeddingsFrom_eq _ hlast.mem_names] at hfrom
      exact hg.isPlain_owner (mem_embeddingsFrom_iff.mp hfrom).1
    obtain ⟨hembeds, hexpands⟩ := hm.embeds_of_reached hroot hin (hreached hplain) hl
    exact ⟨hway.tail hembeds, fun hplain' => (hreached hplain).tail (hexpands hplain')⟩

/-- A struct whose expansion stays inside gets no cycle that it did not have. -/
theorem cycleThrough?_eq_none (hg : g.OwnsEmbeddings) (h : g.cycleThrough? root = none) :
    m.cycleThrough? root = none := by
  rw [← Option.not_isSome_iff_eq_none, cycleThrough?_isSome_iff] at h ⊢
  exact fun hloop => h (hm.transGen_embeds_of_staysInside hroot hin hg hloop).1

/-- The types that are met supply the same fields. -/
theorem flatMap_supply_eq :
    (m.trails root).flatMap (fun t => m.supply t.ranks.length t.toVisit) =
      (g.trails root).flatMap fun t => g.supply t.ranks.length t.toVisit := by
  rw [hm.trails_eq hroot hin]
  refine List.flatMap_congr fun t ht => ?_
  have hmem := (isPlain_of_reflTransGen hroot (reaches_of_mem_trails ht)).mem_names
  rw [supply, supply, hm.fieldsOf_eq hmem]

/-- The types that are met leave the same embeddings unresolved. -/
theorem flatMap_unresolvedOf_eq : (m.trails root).flatMap (fun t => m.unresolvedOf t.name) =
    (g.trails root).flatMap fun t => g.unresolvedOf t.name := by
  rw [hm.trails_eq hroot hin]
  exact List.flatMap_congr fun t ht => hm.unresolvedOf_eq hroot hin (reaches_of_mem_trails ht)

end StaysInside

/-! ## Views -/

/-- **A flattened view** without a mark and with everything resolved is the same in the extended
graph. -/
theorem flattened_eq_of_settled (hg : g.OwnsEmbeddings) {v : Flattened}
    (h : g.flattened name = .ok v) (hcycle : v.cycle = none) (hunresolved : v.unresolved = []) :
    m.flattened name = .ok v := by
  rcases hdirect : g.lookupStruct name with e | direct
  · rw [flattened, hdirect] at h
    cases h
  · have hroot := isPlain_of_lookupStruct hdirect
    rw [flattened_eq hdirect] at h
    rcases hc : g.cycleThrough? name with _ | path
    · rw [hc] at h
      obtain rfl := Except.ok.inj h
      have hin := staysInside_of_unresolved hroot hunresolved
      rw [flattened_eq (hm.lookupStruct_eq hdirect), hm.cycleThrough?_eq_none hroot hin hg hc,
        hm.flatMap_supply_eq hroot hin, hm.flatMap_unresolvedOf_eq hroot hin,
        hm.unresolvedOf_eq hroot hin .refl]
    · rw [hc] at h
      obtain rfl := Except.ok.inj h
      cases hcycle

/-- A view that is marked with a cycle is marked in the extended graph too. -/
theorem flattened_marked_of_marked {v : Flattened} (h : g.flattened name = .ok v)
    (hcycle : v.cycle.isSome) : ∃ w, m.flattened name = .ok w ∧ w.cycle.isSome := by
  rcases hdirect : g.lookupStruct name with e | direct
  · rw [flattened, hdirect] at h
    cases h
  · have hmem := (isPlain_of_lookupStruct hdirect).mem_names
    obtain ⟨v', hv, hmark, -⟩ := flattened_marked hdirect
    obtain rfl := Except.ok.inj (h.symm.trans hv)
    obtain ⟨w, hw, hmark', -⟩ := flattened_marked (hm.lookupStruct_eq hdirect)
    exact ⟨w, hw, hmark'.mpr (hm.transGen_embeds hmem (hmark.mp hcycle))⟩

theorem interfaceBody?_eq {r : Reference} {body : List Signature × List Reference}
    (h : g.interfaceBody? r = some body) : m.interfaceBody? r = some body := by
  match r, h with
  | .named none name _, h =>
    rw [interfaceBody?] at h ⊢
    rcases hd : g.find? name with _ | d
    · rw [hd] at h
      cases h
    · rw [hm.find?_eq hd]
      rw [hd] at h
      exact h

/-- **A method set** whose embedded interfaces have all been expanded is the same in the extended
graph. -/
theorem methodSet_eq_of_settled {expand : Bool} {s : MethodSet}
    (h : g.methodSet expand name = .ok s) (hs : ∀ e ∈ s.embedded, e.expanded = true) :
    m.methodSet expand name = .ok s := by
  obtain ⟨d, methods, embeds, constraints, hd, hshape, rfl⟩ := methodSet_eq_ok_iff.mp h
  refine methodSet_eq_ok_iff.mpr
    ⟨d, methods, embeds, constraints, hm.find?_eq hd, hshape, Eq.symm ?_⟩
  refine MethodSet.foldl_embed_eq (fun r body hbody => ?_) hs
  cases expand
  · exact hbody
  · exact hm.interfaceBody?_eq hbody

end Extends

/-! ## Joins -/

/-- **Settled answers outlive a join**. Of a name that the first of two built graphs declares, the
join has the same declaration and the same embeddings; references and chains of aliases that led to
a declared name lead to the same one; a flattened view that has no mark and nothing unresolved, and
a method set whose embedded interfaces are all expanded, stay as they are; and a view that was
marked with a cycle is marked still. -/
theorem merge_keeps_answers {g h : TypeGraph} (hg : Built g) (hh : Built h) {name : String}
    (hname : name ∈ g.names) :
    let m := (g.merge h).1
    (∃ d, g.lookup name = .ok d ∧ m.lookup name = .ok d) ∧
      m.embeddingsFrom name = g.embeddingsFrom name ∧
      (∀ r target, g.resolve r = .declared target → m.resolve r = .declared target) ∧
      (∀ last, g.followAliases name = .ok last → m.followAliases name = .ok last) ∧
      (∀ v, g.flattened name = .ok v → v.cycle = none → v.unresolved = [] →
        m.flattened name = .ok v) ∧
      (∀ expand s, g.methodSet expand name = .ok s → (∀ e ∈ s.embedded, e.expanded = true) →
        m.methodSet expand name = .ok s) ∧
      ∀ v, g.flattened name = .ok v → v.cycle.isSome →
        ∃ w, m.flattened name = .ok w ∧ w.cycle.isSome := by
  intro m
  have hm : m.Extends g := extends_merge g hh.ownsEmbeddings.wellFormed
  refine ⟨?_, hm.embeddingsFrom_eq name hname, fun _ _ => hm.resolve_eq,
    fun _ => hm.followAliases_eq, fun _ => hm.flattened_eq_of_settled hg.ownsEmbeddings,
    fun _ _ => hm.methodSet_eq_of_settled, fun _ => hm.flattened_marked_of_marked⟩
  rcases hd : g.find? name with _ | d
  · exact absurd hname (find?_eq_none_iff.mp hd)
  · exact ⟨d, by rw [lookup, hd], by rw [lookup, hm.find?_eq hd]⟩

/-- A struct `T` that embeds `U` keeps its view when a second graph is joined in which `U` embeds
`T`, as that `U` is left out. -/
theorem merge_keeps_answers_of_cycle :
    let plain : FieldDecl := ⟨["x"], .predeclared "int", none, ⟨"", 2, 2⟩⟩
    let g := (ofCandidates default [structOf "T" 1 [embeddingOf "U" 1], structOf "U" 2 [plain]]).1
    let h := (ofCandidates default [structOf "U" 3 [embeddingOf "T" 3]]).1
    Built g ∧ Built h ∧ "T" ∈ g.names ∧
      ∃ v, g.flattened "T" = .ok v ∧ v.cycle = none ∧ v.unresolved = [] ∧
        (g.merge h).1.flattened "T" = .ok v := by
  intro plain g h
  have hg : Built g := .build default _
  have hh : Built h := .build default _
  have hname : "T" ∈ g.names := by decide
  obtain ⟨-, -, -, -, hflattened, -⟩ := merge_keeps_answers hg hh hname
  exact ⟨hg, hh, hname, _, rfl, rfl, rfl, hflattened _ rfl rfl rfl⟩

end TypeGraph

end GoAtlas
