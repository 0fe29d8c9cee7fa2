import GoAtlas.Proofs.Graph.History
import GoAtlas.Proofs.Graph.Rearrangement
import GoAtlas.Proofs.View.Cycles
import GoAtlas.Proofs.View.Flattened

/-!
# The access paths of promoted fields

A promoted field is kept with the names that are passed on the way to it. `access_path` says that
these can be walked: starting from the struct, each name is that of an embedding of the type that
has been reached and leads to the next type, the last type declares the field, and no route to it is
shorter. A route is told from its front, step by step; that it is there follows from the chain of
embeddings that the view goes along (`Chain.route`), and a route is no shorter than the chain that
it gives (`Route.exists_chain`).

In a built graph the names are also those of embedded fields (`Built.stepsByField`), since an
embedded field is named after its type (`FieldDecl.namedAfterType_of_mem_fieldsOfList`).
-/

namespace GoAtlas

/-! ## Names of embedded fields -/

/-- A field that embeds a type is named after it, if its reference names a type. -/
def Field.NamedAfterType (f : Field) : Prop :=
  f.embedded = true → ∀ name, f.reference.simpleName? = some name → f.name = name

namespace FieldDecl

variable {f : Field} {limit depth : Nat} {owner : String}

theorem namedAfterType_embeddedField (type : TypeExpr) (tag : Option String) (position : Position)
    (depth : Nat) : (embeddedField type tag position depth).NamedAfterType := by
  intro _ name hname
  rw [embeddedField] at hname ⊢
  dsimp only at hname ⊢
  rw [hname, Option.getD_some]

/-- A field with a name of its own embeds nothing. -/
theorem namedAfterType_of_mem_map {names : List String} {reference : Reference} {tag : Option String}
    {position : Position} {children : List Field}
    (hf : f ∈ names.map fun n => namedField n reference depth tag position children) :
    f.NamedAfterType := by
  obtain ⟨n, -, rfl⟩ := List.mem_map.mp hf
  intro hembedded
  cases hembedded

/-- The fields of one line of a struct body are named as they should be. -/
theorem namedAfterType_of_mem_fields {line : FieldDecl}
    (hf : f ∈ (fields limit owner depth line).1) : f.NamedAfterType := by
  unfold fields at hf
  split at hf
  · cases hf
  · rw [List.mem_singleton.mp hf]
    exact namedAfterType_embeddedField _ _ _ _
  · split at hf
    · exact namedAfterType_of_mem_map hf
    · exact namedAfterType_of_mem_map hf
  · exact namedAfterType_of_mem_map hf

theorem namedAfterType_of_mem_fieldsOfList {lines : List FieldDecl}
    (hf : f ∈ (fieldsOfList limit owner depth lines).1) : f.NamedAfterType := by
  induction lines with
  | nil =>
    rw [fieldsOfList] at hf
    cases hf
  | cons line rest ih =>
    rw [fieldsOfList] at hf
    rcases List.mem_append.mp hf with hf | hf
    · exact namedAfterType_of_mem_fields hf
    · exact ih hf

end FieldDecl

/-- The fields of a declaration are named as they should be. -/
theorem Declaration.namedAfterType_of_mem_ofCandidate {config : Config} {c : Candidate} {f : Field}
    (hf : f ∈ (ofCandidate config c).1.fields) : f.NamedAfterType := by
  unfold ofCandidate Declaration.fields at hf
  dsimp only at hf
  unfold Shape.ofExpr at hf
  split at hf
  · exact FieldDecl.namedAfterType_of_mem_fieldsOfList hf
  all_goals cases hf

namespace TypeGraph

variable {g : TypeGraph} {a b c name root y : String} {ranks : List Nat} {via others : List String}
  {step : String → String → String → Prop} {direct : List Field} {p : PromotedField}

/-- The fields of a built graph are named as they should be. -/
theorem Built.namedAfterType (hg : Built g) :
    ∀ d ∈ g.declarations, ∀ f ∈ d.fields, f.NamedAfterType := by
  induction hg with
  | empty => exact nofun
  | build config cs =>
    intro d hd f hf
    rw [declarations_ofCandidates] at hd
    obtain ⟨candidate, -, rfl⟩ := List.mem_map.mp (firsts_sublist.subset hd)
    exact Declaration.namedAfterType_of_mem_ofCandidate hf
  | merge _ _ ihg ihh =>
    intro d hd
    rw [declarations_merge] at hd
    rcases List.mem_append.mp hd with hd | hd
    · exact ihg d hd
    · exact ihh d (firsts_sublist.subset hd)
  | reread _ hread ih =>
    rw [ofJson?_toJson] at hread
    obtain rfl := Option.some.inj hread
    exact ih

/-! ## Routes -/

/-- One step of a route: a type owns an embedding that resolves to a name, and the aliases from this
name lead to the next type. -/
def StepsBy (g : TypeGraph) (a name b : String) : Prop :=
  ∃ e ∈ g.embeddingsFrom a, g.resolve e.target = .declared name ∧ g.followAliases name = .ok b

/-- A route from one type to another, by the names that its steps pass. -/
inductive Route (step : String → String → String → Prop) : String → List String → String → Prop
  | nil {a : String} : Route step a [] a
  | cons {a b c name : String} {via : List String} : step a name b → Route step b via c →
      Route step a (name :: via) c

theorem Route.snoc (h : Route step a via b) (hstep : step b name c) :
    Route step a (via ++ [name]) c := by
  induction h with
  | nil => exact .cons hstep .nil
  | cons hfirst _ ih => exact .cons hfirst (ih hstep)

theorem Route.mono {other : String → String → String → Prop}
    (hstep : ∀ {a name b}, step a name b → other a name b) (h : Route step a via b) :
    Route other a via b := by
  induction h with
  | nil => exact .nil
  | cons hfirst _ ih => exact .cons (hstep hfirst) ih

/-- A chain of embeddings is a route. -/
theorem Chain.route (h : g.Chain root ranks via y) :
    Route g.StepsBy root via y ∧ via.length = ranks.length := by
  induction h with
  | nil => exact ⟨.nil, rfl⟩
  | snoc _ hrank hresolve hfollow ih =>
    obtain ⟨hroute, hlength⟩ := ih
    refine ⟨hroute.snoc ⟨_, List.mem_of_getElem? hrank, hresolve, hfollow⟩, ?_⟩
    rw [List.length_append, List.length_append, hlength]
    rfl

/-- A route goes on from a chain to a longer one. -/
theorem Route.exists_chain (h : Route g.StepsBy a others b) (hchain : g.Chain root ranks via a) :
    ∃ more, g.Chain root more (via ++ others) b ∧ more.length = ranks.length + others.length := by
  induction h generalizing ranks via with
  | nil => exact ⟨ranks, by rwa [List.append_nil], rfl⟩
  | @cons a b c name rest hstep _ ih =>
    obtain ⟨e, he, hresolve, hfollow⟩ := hstep
    obtain ⟨r, hr⟩ := List.mem_iff_getElem?.mp he
    obtain ⟨more, hmore, hlength⟩ := ih (hchain.snoc hr hresolve hfollow)
    rw [List.append_assoc, List.singleton_append] at hmore
    refine ⟨more, hmore, ?_⟩
    rw [hlength, List.length_append, List.length_singleton, List.length_cons]
    omega

/-- No route to a type is shorter than the type is far. -/
theorem IsDistance.le_length {k : Nat} (hk : g.IsDistance root y k)
    (h : Route g.StepsBy root via y) : k ≤ via.length := by
  obtain ⟨ranks, hchain, hlength⟩ := h.exists_chain .nil
  refine hk.2 ⟨ranks, _, hchain, ?_⟩
  rw [hlength, List.length_nil, Nat.zero_add]

/-! ## Built graphs -/

/-- One step of a route along a name that an embedded field of the type has. -/
def StepsByField (g : TypeGraph) (a name b : String) : Prop :=
  g.StepsBy a name b ∧ ∃ f ∈ g.fieldsOf a, f.embedded = true ∧ f.name = name

/-- **In a built graph** each step of a route is along a name that an embedded field has. -/
theorem Built.stepsByField (hg : Built g) (h : g.StepsBy a name b) : g.StepsByField a name b := by
  refine ⟨h, ?_⟩
  obtain ⟨e, he, hresolve, -⟩ := h
  obtain ⟨⟨pointer, htarget⟩, -⟩ := resolve_eq_declared_iff.mp hresolve
  rw [hg.ownsEmbeddings.embeddingsFrom_eq] at he
  obtain ⟨d, hd, he⟩ := List.mem_flatMap.mp he
  have hfind : g.find? a = some d := Option.mem_toList.mp hd
  obtain ⟨f, hf, rfl⟩ := List.mem_map.mp he
  obtain ⟨hf, hembedded⟩ := List.mem_filter.mp hf
  have hname : f.reference.simpleName? = some name := by
    dsimp only at htarget
    rw [htarget, Reference.simpleName?]
  refine ⟨f, ?_, hembedded, ?_⟩
  · rw [fieldsOf, hfind]
    exact hf
  · exact hg.namedAfterType d (find?_eq_some_iff.mp hfind).1 f hf hembedded name hname

/-! ## The paths of a view -/

/-- The fields of a name are those of a struct. -/
theorem exists_struct_of_mem_fieldsOf {f : Field} (hf : f ∈ g.fieldsOf a) :
    ∃ d fields, g.find? a = some d ∧ d.shape = .struct fields ∧ f ∈ fields := by
  rw [fieldsOf] at hf
  rcases hfind : g.find? a with _ | d
  · rw [hfind] at hf
    cases hf
  · rw [hfind] at hf
    obtain ⟨fields, hshape, hf⟩ := exists_struct_of_mem_fields hf
    exact ⟨d, fields, rfl, hshape, hf⟩

/-- A field of a view below the direct fields is promoted as it should be. -/
theorem isPromoted_of_mem_flattened {v : Flattened} (h : g.lookupStruct root = .ok direct)
    (hv : g.flattened root = .ok v) (hp : p ∈ v.fields) (hlevel : 0 < p.level) :
    g.IsPromoted root p := by
  have hown : p ∉ ownFields root [] 0 direct := by
    intro hmem
    obtain ⟨f, -, rfl⟩ := List.mem_map.mp hmem
    exact Nat.lt_irrefl 0 hlevel
  obtain ⟨v', hv', hfields⟩ := flattened_fields h
  obtain ⟨v'', hv'', -, hmarked⟩ := flattened_marked h
  obtain rfl := Except.ok.inj (hv.symm.trans hv')
  obtain rfl := Except.ok.inj (hv.symm.trans hv'')
  rcases hcycle : v.cycle with _ | path
  · obtain ⟨promoted, heq, hpromotion, -⟩ := hfields hcycle
    rw [heq] at hp
    exact hpromotion.each p ((List.mem_append.mp hp).resolve_left hown)
  · -- a view that is marked with a cycle has the direct fields only
    rw [hmarked (by rw [hcycle]; rfl)] at hp
    exact absurd hp hown

/-- **The access paths of promoted fields** can be walked. For each field of a view below the direct
fields there are as many names as its level; they lead by embeddings and aliases from the struct to
the owner, a declared struct that declares the field; and no route to the owner is shorter. In a
built graph each name is also that of an embedded field of the type that it is taken from. -/
theorem access_path (h : g.lookupStruct root = .ok direct) : ∃ v, g.flattened root = .ok v ∧
    ∀ p ∈ v.fields, 0 < p.level →
      p.via.length = p.level ∧ Route g.StepsBy root p.via p.owner ∧
        (∃ d fields, g.find? p.owner = some d ∧ d.shape = .struct fields ∧ p.field ∈ fields) ∧
        (∀ via, Route g.StepsBy root via p.owner → p.level ≤ via.length) ∧
        (Built g → Route g.StepsByField root p.via p.owner) := by
  obtain ⟨v, hv, -⟩ := flattened_fields h
  refine ⟨v, hv, fun p hp hlevel => ?_⟩
  have hpromoted := isPromoted_of_mem_flattened h hv hp hlevel
  obtain ⟨ranks, hfirst, -⟩ := hpromoted.earliest
  obtain ⟨hroute, hlength⟩ := hfirst.chain.route
  have hfield := exists_struct_of_mem_fieldsOf (List.mem_of_find?_eq_some hpromoted.field)
  refine ⟨hlength.trans (hfirst.length_eq hpromoted.near), hroute, hfield, ?_, ?_⟩
  · intro via hvia
    exact hpromoted.near.le_length hvia
  · intro hg
    exact hroute.mono fun hstep => hg.stepsByField hstep

/-- A struct `A` that embeds the alias `B` of `C`, and then `E`; both `C` and `E` embed a pointer to
`D`, which has a field. -/
def aliasedPath : TypeGraph :=
  let renamed : Candidate :=
    { name := "B"
      doc := none
      typeParams := none
      isAlias := true
      type := .named none "C"
      position := ⟨"", 2, 1⟩ }
  let pointer : FieldDecl := ⟨[], .pointer (.named none "D"), none, ⟨"", 3, 2⟩⟩
  let named : FieldDecl := ⟨["x"], .predeclared "int", none, ⟨"", 4, 2⟩⟩
  (ofCandidates default
    [structOf "A" 1 [embeddingOf "B" 1, embeddingOf "E" 1], renamed, structOf "C" 3 [pointer],
      structOf "D" 4 [named], structOf "E" 5 [pointer]]).1

theorem access_path_aliasedPath : ∃ direct v p, aliasedPath.lookupStruct "A" = .ok direct ∧
    aliasedPath.flattened "A" = .ok v ∧ p ∈ v.fields ∧
      (p.name, p.owner, p.via, p.level) = ("x", "D", ["B", "D"], 2) ∧
        Route aliasedPath.StepsByField "A" ["B", "D"] "D" ∧
          ∀ via, Route aliasedPath.StepsBy "A" via "D" → 2 ≤ via.length := by
  obtain ⟨direct, hdirect⟩ : ∃ direct, aliasedPath.lookupStruct "A" = .ok direct := ⟨_, rfl⟩
  obtain ⟨v, hv, hpaths⟩ := access_path hdirect
  have hlast : (aliasedPath.flattened "A").map (fun v => v.fields.getLast?.map fun p =>
      (p.name, p.owner, p.via, p.level)) = .ok (some ("x", "D", ["B", "D"], 2)) := by decide
  rw [hv] at hlast
  obtain ⟨p, hp, hparts⟩ := Option.map_eq_some_iff.mp (Except.ok.inj hlast)
  obtain ⟨-, howner, hvia, hlevel⟩ : p.name = "x" ∧ p.owner = "D" ∧ p.via = ["B", "D"] ∧
      p.level = 2 := by simpa using hparts
  have hmem : p ∈ v.fields := List.mem_of_getLast? hp
  obtain ⟨-, -, -, hshortest, hbuilt⟩ := hpaths p hmem (by rw [hlevel]; decide)
  rw [howner, hlevel] at hshortest
  rw [howner, hvia] at hbuilt
  exact ⟨direct, v, p, hdirect, hv, hmem, hparts, hbuilt (.build default _), hshortest⟩

end TypeGraph

end GoAtlas
