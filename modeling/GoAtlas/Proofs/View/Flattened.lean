import GoAtlas.Proofs.View.Expansion

/-!
# What a flattened view holds

When no cycle leads through a struct, its flattened view lists the direct fields and then the
promoted fields. `IsPromotion` says what these are in terms of chains of embeddings only, and
`flattened_fields` says that the view has them: a name is promoted when it is not the name of a
direct field and some type that can be reached declares it; it comes from the type that is nearest,
and among the nearest from the one whose first chain comes earliest.

The promoted fields are determined by this (`IsPromotion.unique`). In the proof each supplier of a
name is met by one of the `trails`, and the trails come in the order of their chains, so the first
field of a name is that of the supplier met earliest (`find?_supplied_eq_some`).
-/

namespace GoAtlas.TypeGraph

open Relation (ReflTransGen)

variable {g : TypeGraph} {root x name : String} {p q : PromotedField} {t u : Trail}
  {direct : List Field} {promoted others : List PromotedField}

/-- A type other than `root`, and reached from it, declares a field of a name. -/
structure Supplies (g : TypeGraph) (root x name : String) : Prop where
  ne_root : x ≠ root
  reached : ReflTransGen g.Expands root x
  declares : ∃ field ∈ g.fieldsOf x, field.name = name

/-- A field is promoted as it should be. -/
structure IsPromoted (g : TypeGraph) (root : String) (p : PromotedField) : Prop where
  /-- the owner declares the name, and the field is its first field of this name -/
  owner : g.Supplies root p.owner p.name
  field : (g.fieldsOf p.owner).find? (fun f => f.name = p.name) = some p.field
  /-- the level is the smallest distance of a type that declares the name, and the owner is that
  far -/
  level : IsLeast {k | ∃ x, g.Supplies root x p.name ∧ g.IsDistance root x k} p.level
  near : g.IsDistance root p.owner p.level
  /-- the first chain to the owner passes the names `via`, and the first chains to the other types
  that declare the name at this distance are greater -/
  earliest : ∃ ranks, g.IsFirstChain root p.owner ranks p.via ∧
    ∀ {x others via}, g.Supplies root x p.name → g.IsDistance root x p.level →
      g.IsFirstChain root x others via → x ≠ p.owner → List.Lex (· < ·) ranks others

/-- One promoted field stands before another: its owner is met earlier, or both have one owner and
their names occur there in this order. -/
def StandsBefore (g : TypeGraph) (root : String) (p q : PromotedField) : Prop :=
  (∃ ranks others, g.IsFirstChain root p.owner ranks p.via ∧
    g.IsFirstChain root q.owner others q.via ∧ Earlier ranks others) ∨
    (p.owner = q.owner ∧ (g.fieldsOf p.owner).findIdx (fun f => f.name = p.name) <
      (g.fieldsOf p.owner).findIdx fun f => f.name = q.name)

/-- The promoted fields of a struct with some direct fields. -/
structure IsPromotion (g : TypeGraph) (root : String) (direct : List Field)
    (promoted : List PromotedField) : Prop where
  /-- a name is promoted when it is not the name of a direct field and some type declares it -/
  names : ∀ name, (∃ p ∈ promoted, p.name = name) ↔
    (∀ field ∈ direct, field.name ≠ name) ∧ ∃ x, g.Supplies root x name
  /-- each name is promoted once -/
  once : (promoted.map PromotedField.name).Nodup
  /-- each field comes from the right type -/
  each : ∀ p ∈ promoted, g.IsPromoted root p
  /-- the fields stand in the order in which they are met -/
  ordered : promoted.Pairwise (g.StandsBefore root)

/-! ## Only one list is right -/

/-- What is said of a promoted field determines it by its name. -/
theorem IsPromoted.eq (hp : g.IsPromoted root p) (hq : g.IsPromoted root q) (h : p.name = q.name) :
    p = q := by
  obtain ⟨ranks, hfirst, hleast⟩ := hp.earliest
  obtain ⟨others, hfirst', hleast'⟩ := hq.earliest
  have hlevel : p.level = q.level := (h ▸ hp.level).unique hq.level
  have howner : p.owner = q.owner := by
    by_contra hne
    have hlex := hleast (h ▸ hq.owner) (hlevel ▸ hq.near) hfirst' (Ne.symm hne)
    have hlex' := hleast' (h ▸ hp.owner) (hlevel ▸ hp.near) hfirst hne
    exact Std.Asymm.asymm (r := List.Lex (· < ·)) _ _ hlex hlex'
  have hvia : p.via = q.via := (hfirst.unique (howner ▸ hfirst')).2
  have hfield : p.field = q.field :=
    Option.some.inj (hp.field.symm.trans (h ▸ howner ▸ hq.field))
  cases p
  cases q
  cases hlevel
  cases howner
  cases hvia
  cases hfield
  rfl

theorem StandsBefore.asymm (h : g.StandsBefore root p q) : ¬ g.StandsBefore root q p := by
  rcases h with ⟨ranks, others, hp, hq, hearlier⟩ | ⟨howner, hlt⟩
  · rintro (⟨others', ranks', hq', hp', hearlier'⟩ | ⟨howner, -⟩)
    · rw [(hp.unique hp').1, (hq.unique hq').1] at hearlier
      exact hearlier.asymm hearlier'
    · rw [(hq.unique (howner ▸ hp)).1] at hearlier
      exact Earlier.irrefl hearlier
  · rintro (⟨others, ranks, hq, hp, hearlier⟩ | ⟨-, hlt'⟩)
    · rw [(hq.unique (howner ▸ hp)).1] at hearlier
      exact Earlier.irrefl hearlier
    · rw [howner] at hlt
      exact Nat.lt_asymm hlt hlt'

/-- **The promoted fields are determined** by what `IsPromotion` says of them. -/
theorem IsPromotion.unique (h : g.IsPromotion root direct promoted)
    (h' : g.IsPromotion root direct others) : promoted = others := by
  have hmem : ∀ {ps qs}, g.IsPromotion root direct ps → g.IsPromotion root direct qs →
      ∀ p ∈ ps, p ∈ qs := by
    intro ps qs hps hqs p hp
    obtain ⟨q, hq, hname⟩ := (hqs.names _).mpr ((hps.names _).mp ⟨p, hp, rfl⟩)
    rwa [(hps.each p hp).eq (hqs.each q hq) hname.symm]
  have hperm : promoted.Perm others :=
    (List.perm_ext_iff_of_nodup (List.Nodup.of_map _ h.once) (List.Nodup.of_map _ h'.once)).mpr
      fun p => ⟨hmem h h' p, hmem h' h p⟩
  exact hperm.eq_of_pairwise (fun _ _ _ _ hpq hqp => absurd hqp hpq.asymm) h.ordered h'.ordered

/-! ## Suppliers -/

/-- The fields that the types met by some trails supply, one type after the other. -/
def supplied (g : TypeGraph) (ts : List Trail) : List PromotedField :=
  ts.flatMap fun t => g.supply t.ranks.length t.toVisit

/-- The suppliers of a name are met by the trails. -/
theorem supplies_iff (hroot : g.IsPlain root) : g.Supplies root x name ↔
    ∃ t ∈ g.trails root, t.name = x ∧ ∃ field ∈ g.fieldsOf x, field.name = name := by
  constructor
  · rintro ⟨hne, hreached, hdeclares⟩
    obtain ⟨t, ht, hname⟩ := exists_mem_discovered hroot (Nat.le_succ _) hreached hne
    exact ⟨t, ht, hname, hdeclares⟩
  · rintro ⟨t, ht, rfl, hdeclares⟩
    refine ⟨name_ne_root ht, ?_, hdeclares⟩
    exact exists_chain_iff.mp ⟨_, _, (isFirstChain_of_mem_discovered ht).chain⟩

/-- The field of a name that a type supplies is its first field of this name. -/
theorem find?_supply_eq_some {level : Nat} {v : Visit}
    (h : (g.supply level v).find? (fun q => q.name = name) = some p) :
    p.owner = v.name ∧ p.via = v.via ∧ p.level = level ∧
      (g.fieldsOf v.name).find? (fun f => f.name = name) = some p.field := by
  rw [supply, ownFields, List.find?_map] at h
  obtain ⟨field, hfield, rfl⟩ := Option.map_eq_some_iff.mp h
  exact ⟨rfl, rfl, rfl, hfield⟩

/-- **The first field of a name** among those supplied is that of the supplier met earliest. -/
theorem find?_supplied_eq_some (h : (g.supplied (g.trails root)).find? (fun q => q.name = name) =
    some p) : ∃ t ∈ g.trails root, p.owner = t.name ∧ p.via = t.via ∧ p.level = t.ranks.length ∧
      (g.fieldsOf t.name).find? (fun f => f.name = name) = some p.field ∧
      ∀ u ∈ g.trails root, (∃ field ∈ g.fieldsOf u.name, field.name = name) →
        u = t ∨ Earlier t.ranks u.ranks := by
  rw [supplied, List.find?_flatMap] at h
  obtain ⟨before, t, after, hsplit, hfound, hnone⟩ := List.findSome?_eq_some_iff.mp h
  obtain ⟨howner, hvia, hlevel, hfield⟩ := find?_supply_eq_some hfound
  refine ⟨t, ?_, howner, hvia, hlevel, hfield, ?_⟩
  · rw [hsplit]
    exact List.mem_append_right _ (List.mem_cons_self ..)
  · rintro u hu ⟨field, hmem, hname⟩
    have hpairwise : (before ++ t :: after).Pairwise fun t u => Earlier t.ranks u.ranks :=
      hsplit ▸ pairwise_discovered g root _
    rw [hsplit] at hu
    rcases List.mem_append.mp hu with hu | hu
    · -- a type met before `t` would have supplied the field
      have hmiss := List.find?_eq_none.mp (hnone u hu)
        { field, owner := u.name, via := u.via, level := u.ranks.length } (List.mem_map_of_mem hmem)
      exact absurd (decide_eq_true hname) hmiss
    · rcases List.mem_cons.mp hu with rfl | hu
      · exact Or.inl rfl
      · exact Or.inr ((List.pairwise_cons.mp (List.pairwise_append.mp hpairwise).2.1).1 u hu)

/-- The fields chosen among those supplied stand in the order in which they are met. -/
theorem pairwise_firsts_supplied (g : TypeGraph) (root : String) (taken : List String) :
    (firsts PromotedField.name taken (g.supplied (g.trails root))).Pairwise
      (g.StandsBefore root) := by
  have hearlier := pairwise_discovered g root (g.declarations.length + 1)
  refine pairwise_firsts_flatMap (fun t _ taken => ?_) (hearlier.imp_of_mem ?_)
  · -- the fields of one type, each in the place where its name occurs first
    refine pairwise_findIdx_firsts.imp_of_mem fun {p q} hp hq hlt => Or.inr ?_
    obtain ⟨field, -, rfl⟩ := List.mem_map.mp (firsts_sublist.subset hp)
    obtain ⟨other, -, rfl⟩ := List.mem_map.mp (firsts_sublist.subset hq)
    rw [supply, ownFields, List.findIdx_map, List.findIdx_map] at hlt
    exact ⟨rfl, hlt⟩
  · intro t u ht hu hearlier p hp q hq
    obtain ⟨field, -, rfl⟩ := List.mem_map.mp hp
    obtain ⟨other, -, rfl⟩ := List.mem_map.mp hq
    exact Or.inl ⟨t.ranks, u.ranks, isFirstChain_of_mem_discovered ht,
      isFirstChain_of_mem_discovered hu, hearlier⟩

/-- A name is supplied when some type that can be reached declares it. -/
theorem mem_map_supplied_iff (hroot : g.IsPlain root) :
    name ∈ (g.supplied (g.trails root)).map PromotedField.name ↔ ∃ x, g.Supplies root x name := by
  rw [List.mem_map]
  constructor
  · rintro ⟨p, hp, rfl⟩
    obtain ⟨t, ht, hp⟩ := List.mem_flatMap.mp hp
    obtain ⟨field, hfield, rfl⟩ := List.mem_map.mp hp
    exact ⟨t.name, (supplies_iff hroot).mpr ⟨t, ht, rfl, field, hfield, rfl⟩⟩
  · rintro ⟨x, hx⟩
    obtain ⟨t, ht, rfl, field, hfield, rfl⟩ := (supplies_iff hroot).mp hx
    exact ⟨_, List.mem_flatMap.mpr ⟨t, ht, List.mem_map_of_mem hfield⟩, rfl⟩

/-- The first field of a name among those supplied is promoted as it should be. -/
theorem isPromoted_of_find? (hroot : g.IsPlain root)
    (h : (g.supplied (g.trails root)).find? (fun q => q.name = p.name) = some p) :
    g.IsPromoted root p := by
  obtain ⟨t, ht, howner, hvia, hlevel, hfield, hleast⟩ := find?_supplied_eq_some h
  have hfirst : g.IsFirstChain root p.owner t.ranks p.via := by
    rw [howner, hvia]
    exact isFirstChain_of_mem_discovered ht
  have hnear : g.IsDistance root p.owner p.level := by
    rw [hlevel]
    exact hfirst.isDistance
  have howns : g.Supplies root p.owner p.name := by
    refine (supplies_iff hroot).mpr ⟨t, ht, howner.symm, p.field, ?_, ?_⟩
    · exact howner ▸ List.mem_of_find?_eq_some hfield
    · simpa using List.find?_some hfield
  -- every other supplier is reached later than the owner
  have hlater : ∀ {x others via}, g.Supplies root x p.name → g.IsFirstChain root x others via →
      x = p.owner ∨ Earlier t.ranks others := by
    intro x others via hx hchain
    obtain ⟨u, hu, rfl, hdeclares⟩ := (supplies_iff hroot).mp hx
    have hranks := ((isFirstChain_of_mem_discovered hu).unique hchain).1
    rcases hleast u hu hdeclares with rfl | hearlier
    · exact Or.inl howner.symm
    · exact Or.inr (hranks ▸ hearlier)
  refine ⟨howns, howner ▸ hfield, ⟨⟨p.owner, howns, hnear⟩, ?_⟩, hnear, t.ranks, hfirst, ?_⟩
  · rintro k ⟨x, hx, hk⟩
    obtain ⟨u, hu, rfl, -⟩ := (supplies_iff hroot).mp hx
    have hchain := isFirstChain_of_mem_discovered hu
    rcases hlater hx hchain with heq | hearlier
    · exact Nat.le_of_eq (hnear.unique (heq ▸ hk))
    · rw [hlevel, ← hchain.length_eq hk]
      exact hearlier.length_le
  · intro x others via hx hk hchain hne
    have hlength : t.ranks.length = others.length := by
      rw [← hlevel, hchain.length_eq hk]
    rcases earlier_iff.mp ((hlater hx hchain).resolve_left hne) with hlt | ⟨-, hlex⟩
    · exact absurd hlength (Nat.ne_of_lt hlt)
    · exact hlex

/-! ## The view -/

/-- What is chosen of the fields supplied, against the direct fields, are the promoted fields. -/
theorem isPromotion_firsts (hroot : g.IsPlain root) (direct : List Field) :
    g.IsPromotion root direct
      (firsts PromotedField.name (direct.map Field.name) (g.supplied (g.trails root))) := by
  refine ⟨fun name => ?_, nodup_map_firsts, fun p hp => ?_, ?_⟩
  · rw [← List.mem_map, mem_map_firsts_iff, mem_map_supplied_iff hroot]
    refine and_congr_left fun _ => ?_
    rw [List.mem_map]
    exact ⟨fun h field hfield hname => h ⟨field, hfield, hname⟩,
      fun h ⟨field, hfield, hname⟩ => h field hfield hname⟩
  · exact isPromoted_of_find? hroot (mem_firsts_iff.mp hp).2
  · exact pairwise_firsts_supplied g root _

/-- **The flattened view** of a struct that no cycle leads through has the direct fields, kept as
they are, and then the promoted fields; and these are the only list that is right. -/
theorem flattened_fields (h : g.lookupStruct root = .ok direct) :
    ∃ v, g.flattened root = .ok v ∧ (v.cycle = none → ∃ promoted,
      v.fields = ownFields root [] 0 direct ++ promoted ∧ g.IsPromotion root direct promoted ∧
        ∀ others, g.IsPromotion root direct others → promoted = others) := by
  rw [flattened_eq h]
  rcases g.cycleThrough? root with _ | path
  · have hpromotion := isPromotion_firsts (isPlain_of_lookupStruct h) direct
    refine ⟨_, rfl, fun _ => ⟨_, ?_, hpromotion, fun _ => hpromotion.unique⟩⟩
    have hnames : (ownFields root [] 0 direct).map PromotedField.name = direct.map Field.name :=
      List.map_map
    rw [← hnames]
    exact promote_eq
  · exact ⟨_, rfl, fun hnone => nomatch hnone⟩

/-- A field of a predeclared type. -/
def plainField (name : String) : Field :=
  { name
    reference := .predeclared "int"
    embedded := false
    depth := 0
    tag := none
    position := default
    children := [] }

/-- A struct `A` that embeds `B` and then `C`, which both embed `D`. The field `x` of `C` hides that
of `D`, although `D` is met through `B` before. -/
def diamond : TypeGraph :=
  let struct (name : String) (fields : List Field) : Declaration :=
    { name
      doc := none
      typeParams := none
      isAlias := false
      position := default
      shape := .struct fields }
  let embedding (owner target : String) : Embedding :=
    { owner, target := .named none target false, position := default }
  ofParts
    [struct "A" [plainField "a"], struct "B" [], struct "C" [plainField "x"],
      struct "D" [plainField "x", plainField "y"]]
    [embedding "A" "B", embedding "A" "C", embedding "B" "D", embedding "C" "D"]

theorem flattened_fields_diamond : diamond.lookupStruct "A" = .ok [plainField "a"] ∧
    ∃ v promoted, diamond.flattened "A" = .ok v ∧ v.cycle = none ∧
      v.fields = ownFields "A" [] 0 [plainField "a"] ++ promoted ∧
        diamond.IsPromotion "A" [plainField "a"] promoted := by
  have hlookup : diamond.lookupStruct "A" = .ok [plainField "a"] := rfl
  obtain ⟨v, hv, hfields⟩ := flattened_fields hlookup
  have hcycle : (diamond.flattened "A").map Flattened.cycle = .ok none := rfl
  rw [hv] at hcycle
  have hnone : v.cycle = none := Except.ok.inj hcycle
  obtain ⟨promoted, heq, hpromotion, -⟩ := hfields hnone
  exact ⟨hlookup, v, promoted, hv, hnone, heq, hpromotion⟩

example : (diamond.flattened "A").map (fun v => v.fields.map fun p => (p.name, p.owner, p.via)) =
    .ok [("a", "A", []), ("x", "C", ["C"]), ("y", "D", ["B", "D"])] := by
  decide

end GoAtlas.TypeGraph
