import GoAtlas.Proofs.Codec.Views
import GoAtlas.Proofs.Json.Writable

/-!
# What is decoded is written no larger

A value that was decoded from JSON need not be written as it was read: members may have been passed
over, and a structure may have been given as a list. But what is written is no larger than what was
read (`Json.KeepsSize`): it is no deeper, and its whole numbers have 64 bits if those that were read
have. So whatever a reader has read once, it can read again after it was written.

A structure is taken apart first. What was written for a field is no larger than the part that the
field was decoded from, and every part is inside the value (`Json.StandsIn`). The law of a type is
then put together from those of its fields, with the laws of lists and tags in the simp set.
-/

namespace GoAtlas

namespace Json

/-! ## Sizes -/

/-- A value is no larger than another: it is no deeper, and fits when the other does. -/
structure NoLarger (w v : Json) : Prop where
  depth : w.depth ≤ v.depth
  fits : v.Fits → w.Fits

/-- A value is no larger than what stands inside another. -/
structure Inside (w v : Json) : Prop where
  depth : w.depth < v.depth
  fits : v.Fits → w.Fits

variable {u v w : Json} {items : List Json} {members : List (String × Json)}

/-- What is no larger than a part is no larger than what stands inside. -/
theorem NoLarger.inside (h : u.NoLarger w) (hw : w.Inside v) : u.Inside v :=
  ⟨Nat.lt_of_le_of_lt h.depth hw.depth, fun hv => h.fits (hw.fits hv)⟩

theorem Inside.pos (h : w.Inside v) : 0 < v.depth :=
  Nat.zero_lt_of_lt h.depth

/-- An item stands inside its list, one level down. -/
theorem inside_of_mem_arr (h : w ∈ items) : w.Inside (arr items) :=
  ⟨depth_lt_arr h, fun hv => fits_arr.mp hv w h⟩

theorem inside_of_mem_obj {name : String} (h : (name, w) ∈ members) : w.Inside (obj members) :=
  ⟨depth_lt_obj name h, fun hv => fits_obj.mp hv _ h⟩

@[simp] theorem noLarger_str (s : String) : (str s).NoLarger v :=
  ⟨Nat.zero_le _, fun _ => trivial⟩

@[simp] theorem inside_str {s : String} : (str s).Inside v ↔ 0 < v.depth :=
  ⟨Inside.pos, fun h => ⟨h, fun _ => trivial⟩⟩

@[simp] theorem inside_bool {b : Bool} : (bool b).Inside v ↔ 0 < v.depth :=
  ⟨Inside.pos, fun h => ⟨h, fun _ => trivial⟩⟩

@[simp] theorem inside_ofOption_str {text : Option String} :
    (ofOption str text).Inside v ↔ 0 < v.depth := by
  cases text with
  | none => exact ⟨Inside.pos, fun h => ⟨h, fun _ => trivial⟩⟩
  | some s => exact inside_str

/-- **A list is no larger than a value** when the value is a list or an object at all and each item
is inside it: the list itself takes one level and so does the value. -/
@[simp] theorem noLarger_arr :
    (arr items).NoLarger v ↔ 0 < v.depth ∧ ∀ w ∈ items, w.Inside v := by
  constructor
  · intro h
    refine ⟨Nat.lt_of_lt_of_le (Nat.succ_pos _) h.depth, fun w hw => ?_⟩
    exact ⟨Nat.lt_of_lt_of_le (depth_lt_arr hw) h.depth, fun hv => fits_arr.mp (h.fits hv) w hw⟩
  · rintro ⟨hpos, h⟩
    refine ⟨?_, fun hv => fits_arr.mpr fun w hw => (h w hw).fits hv⟩
    have hbelow : depthOfItems items ≤ v.depth - 1 :=
      depthOfItems_le_iff.mpr fun w hw => Nat.le_sub_one_of_lt (h w hw).depth
    rw [depth]
    omega

/-- The same of an object, whose names have no size. -/
@[simp] theorem noLarger_obj :
    (obj members).NoLarger v ↔ 0 < v.depth ∧ ∀ m ∈ members, m.2.Inside v := by
  constructor
  · intro h
    refine ⟨Nat.lt_of_lt_of_le (Nat.succ_pos _) h.depth, fun m hm => ?_⟩
    exact ⟨Nat.lt_of_lt_of_le (depth_lt_obj m.1 hm) h.depth, fun hv => fits_obj.mp (h.fits hv) m hm⟩
  · rintro ⟨hpos, h⟩
    refine ⟨?_, fun hv => fits_obj.mpr fun m hm => (h m hm).fits hv⟩
    have hbelow : depthOfMembers members ≤ v.depth - 1 :=
      depthOfMembers_le_iff.mpr fun m hm => Nat.le_sub_one_of_lt (h m hm).depth
    rw [depth]
    omega

@[simp] theorem noLarger_tagged {tag : String} : (tagged tag w).NoLarger v ↔ w.Inside v := by
  rw [tagged, noLarger_obj]
  exact ⟨fun h => h.2 _ List.mem_cons_self,
    fun h => ⟨h.pos, List.forall_mem_singleton.mpr h⟩⟩

/-! ## Taking values apart -/

/-- The members of a value are parts of another. -/
structure StandsIn (w v : Json) : Prop where
  pos : 0 < v.depth
  inside : ∀ {name u}, w.member? name = some u → u.Inside v

/-- The members of an object are parts of it. -/
theorem standsIn_obj : (obj members).StandsIn (obj members) := by
  refine ⟨Nat.succ_pos _, fun hu => ?_⟩
  obtain ⟨before, after, rfl, -⟩ := List.lookup_eq_some_iff.mp hu
  exact inside_of_mem_obj (List.mem_append_right before List.mem_cons_self)

/-- The fields of a structure are parts of it, whether it was given as an object or as a list. -/
theorem standsIn_of_fields? {names : List String} {omissible : Nat}
    (h : v.fields? names omissible = some w) : w.StandsIn v := by
  cases v with
  | obj members =>
    rw [fields?] at h
    split at h
    · cases h
      exact standsIn_obj
    · cases h
  | arr items =>
    rw [fields?] at h
    split at h
    · cases h
      refine ⟨Nat.succ_pos _, fun {name u} hu => ?_⟩
      obtain ⟨before, after, hzip, -⟩ := List.lookup_eq_some_iff.mp hu
      have hmem : (name, u) ∈ names.zip items :=
        hzip ▸ List.mem_append_right before List.mem_cons_self
      exact inside_of_mem_arr (List.of_mem_zip hmem).2
    · cases h
  | _ => cases h

/-- What stands under a tag is a part of the tagged value. -/
theorem inside_of_tag? {tag : String} (h : v.tag? = some (tag, some w)) : w.Inside v := by
  unfold tag? at h
  split at h
  · cases h
  · cases h
    exact inside_of_mem_obj List.mem_cons_self
  · cases h

/-- What is written under a tag is no larger, when it is no larger than what stood under one. -/
theorem NoLarger.tagged {tag other : String} (h : u.NoLarger w)
    (htag : v.tag? = some (other, some w)) : (Json.tagged tag u).NoLarger v :=
  noLarger_tagged.mpr (h.inside (inside_of_tag? htag))

section Decoders

variable {α : Type} {encode : α → Json} {decode : Json → Option α} {name : String}

/-- What is decoded is written no larger. -/
def KeepsSize (encode : α → Json) (decode : Json → Option α) : Prop :=
  ∀ v a, decode v = some a → (encode a).NoLarger v

/-- A number is written as it was read. -/
theorem keepsSize_nat : KeepsSize nat nat? := by
  intro v n h
  cases v with
  | nat m =>
    cases h
    exact ⟨Nat.le_refl _, id⟩
  | _ => cases h

theorem keepsSize_str : KeepsSize str str? :=
  fun _ s _ => noLarger_str s

/-- What is decoded from a field is no larger than a part of the structure. -/
theorem KeepsSize.required (hkeeps : KeepsSize encode decode) (hw : w.StandsIn v) {a : α}
    (h : w.required name decode = some a) : (encode a).Inside v := by
  obtain ⟨u, hu, ha⟩ := Option.bind_eq_some_iff.mp h
  exact (hkeeps _ _ ha).inside (hw.inside hu)

/-- So is what may be left out: `null` has no size. -/
theorem KeepsSize.optional (hkeeps : KeepsSize encode decode) (hw : w.StandsIn v) {o : Option α}
    (h : w.optional name decode = some o) : (ofOption encode o).Inside v := by
  have hnone : (ofOption encode none).Inside v := ⟨hw.pos, fun _ => trivial⟩
  rw [Json.optional] at h
  split at h
  · cases h
    exact hnone
  · rename_i u hu
    rw [option?.eq_def] at h
    split at h
    · cases h
      exact hnone
    · obtain ⟨a, ha, rfl⟩ := Option.map_eq_some_iff.mp h
      exact (hkeeps _ _ ha).inside (hw.inside hu)

/-- The items of a list come from the items that they were decoded from. -/
theorem exists_of_mem_mapM {as : List α} (h : items.mapM decode = some as) {a : α} (ha : a ∈ as) :
    ∃ w ∈ items, decode w = some a := by
  induction items generalizing as with
  | nil =>
    obtain rfl : [] = as := Option.some.inj h
    cases ha
  | cons w rest ih =>
    simp only [List.mapM_cons, Option.bind_eq_bind, Option.bind_eq_some_iff, Option.pure_def,
      Option.some.injEq] at h
    obtain ⟨b, hb, bs, hbs, rfl⟩ := h
    rcases List.mem_cons.mp ha with rfl | ha
    · exact ⟨w, List.mem_cons_self, hb⟩
    · obtain ⟨u, hu, hua⟩ := ih hbs ha
      exact ⟨u, List.mem_cons_of_mem _ hu, hua⟩

/-- A list is written no larger when its items are. -/
theorem KeepsSize.list? (hkeeps : KeepsSize encode decode) :
    KeepsSize (ofList encode) (list? decode) := by
  intro v as h
  cases v with
  | arr items =>
    refine noLarger_arr.mpr ⟨Nat.succ_pos _, List.forall_mem_map.mpr fun a ha => ?_⟩
    obtain ⟨w, hw, hwa⟩ := exists_of_mem_mapM h ha
    exact (hkeeps _ _ hwa).inside (inside_of_mem_arr hw)
  | _ => cases h

/-- A list of a structure that may be missing is empty, or no larger than a part of the structure.
-/
theorem KeepsSize.withDefault_list? (hkeeps : KeepsSize encode decode) (hw : w.StandsIn v)
    {as : List α} (h : w.withDefault name [] (Json.list? decode) = some as) :
    as = [] ∨ (ofList encode as).Inside v := by
  rw [withDefault] at h
  split at h
  · exact Or.inl (Option.some.inj h).symm
  · rename_i u hu
    exact Or.inr ((hkeeps.list? _ _ h).inside (hw.inside hu))

end Decoders

end Json

open Json (KeepsSize standsIn_of_fields? inside_of_tag? keepsSize_nat keepsSize_str)

/-! ## Positions and type expressions -/

theorem Position.keepsSize : KeepsSize toJson ofJson? := by
  intro v p h
  simp only [ofJson?, Option.bind_eq_bind, Option.bind_eq_some_iff, Option.pure_def,
    Option.some.injEq] at h
  obtain ⟨w, hw, unit, -, line, hline, column, hcolumn, rfl⟩ := h
  have hw := standsIn_of_fields? hw
  have hl := keepsSize_nat.required hw hline
  have hc := keepsSize_nat.required hw hcolumn
  simp [toJson, hw.pos, hl, hc]

section Parts

variable {type : Json → Option TypeExpr}

/-- A line of a struct, by what is said of the types inside it. -/
theorem FieldDecl.keepsSize_decode (htype : KeepsSize TypeExpr.toJson type) :
    KeepsSize toJson (decode type) := by
  intro v x h
  simp only [decode, Option.bind_eq_bind, Option.bind_eq_some_iff, Option.pure_def,
    Option.some.injEq] at h
  obtain ⟨w, hw, names, hnames, t, ht, tag, -, position, hposition, rfl⟩ := h
  have hw := standsIn_of_fields? hw
  have hn := keepsSize_str.list?.required hw hnames
  have ht := htype.required hw ht
  have hp := Position.keepsSize.required hw hposition
  simp [toJson, hw.pos, hn, ht, hp]

theorem Param.keepsSize_decode (htype : KeepsSize TypeExpr.toJson type) :
    KeepsSize toJson (decode type) := by
  intro v x h
  simp only [decode, Option.bind_eq_bind, Option.bind_eq_some_iff, Option.pure_def,
    Option.some.injEq] at h
  obtain ⟨w, hw, names, hnames, t, ht, variadic, -, rfl⟩ := h
  have hw := standsIn_of_fields? hw
  have hn := keepsSize_str.list?.required hw hnames
  have ht := htype.required hw ht
  simp [toJson, hw.pos, hn, ht]

/-- A line of an interface, by what is said of the types inside it. -/
theorem Element.keepsSize_decode (htype : KeepsSize TypeExpr.toJson type) :
    KeepsSize toJson (decode type) := by
  intro v x h
  unfold decode at h
  split at h
  · rename_i body htag
    simp only [Option.bind_eq_bind, Option.bind_eq_some_iff, Option.pure_def,
      Option.some.injEq] at h
    obtain ⟨w, hw, name, -, params, hparams, results, hresults, position, hposition, rfl⟩ := h
    have hw := standsIn_of_fields? hw
    have hp := (Param.keepsSize_decode htype).list?.required hw hparams
    have hr := (Param.keepsSize_decode htype).list?.required hw hresults
    have hq := Position.keepsSize.required hw hposition
    rw [toJson, Param.toJsonList_eq_map, Param.toJsonList_eq_map]
    refine Json.NoLarger.tagged ?_ htag
    simpa [hw.pos, hq] using ⟨hp, hr⟩
  · rename_i body htag
    obtain ⟨t, ht, rfl⟩ := Option.map_eq_some_iff.mp h
    exact (htype _ _ ht).tagged htag
  · rename_i text htag
    cases h
    exact (Json.noLarger_str _).tagged htag
  · cases h

end Parts

namespace TypeExpr

theorem keepsSize_decodeWith {inner : Json → Option TypeExpr} (hinner : KeepsSize toJson inner) :
    KeepsSize toJson (decodeWith inner) := by
  intro v t h
  unfold decodeWith at h
  split at h
  · rename_i body htag
    simp only [Option.bind_eq_bind, Option.bind_eq_some_iff, Option.pure_def,
      Option.some.injEq] at h
    obtain ⟨w, hw, package, -, name, -, rfl⟩ := h
    refine Json.NoLarger.tagged ?_ htag
    simp [(standsIn_of_fields? hw).pos]
  · rename_i name htag
    cases h
    exact (Json.noLarger_str _).tagged htag
  · rename_i body htag
    obtain ⟨target, htarget, rfl⟩ := Option.map_eq_some_iff.mp h
    exact (hinner _ _ htarget).tagged htag
  · rename_i body htag
    obtain ⟨fields, hfields, rfl⟩ := Option.map_eq_some_iff.mp h
    rw [toJson, FieldDecl.toJsonList_eq_map]
    exact ((FieldDecl.keepsSize_decode hinner).list? _ _ hfields).tagged htag
  · rename_i body htag
    obtain ⟨elements, helements, rfl⟩ := Option.map_eq_some_iff.mp h
    rw [toJson, Element.toJsonList_eq_map]
    exact ((Element.keepsSize_decode hinner).list? _ _ helements).tagged htag
  · rename_i text htag
    cases h
    exact (Json.noLarger_str _).tagged htag
  · split at h
    · cases h
      simp [toJson]
    · cases h
  · cases h

/-- **Type expressions** are written no larger than they were read. -/
theorem keepsSize : KeepsSize toJson ofJson? := by
  have hdecode : ∀ fuel, KeepsSize toJson (decode fuel) := by
    intro fuel
    induction fuel with
    | zero => exact nofun
    | succ fuel ih => exact keepsSize_decodeWith ih
  exact fun v => hdecode (v.depth + 1) v

end TypeExpr

theorem FieldDecl.keepsSize : KeepsSize toJson ofJson? :=
  keepsSize_decode TypeExpr.keepsSize

theorem Param.keepsSize : KeepsSize toJson ofJson? :=
  keepsSize_decode TypeExpr.keepsSize

theorem Element.keepsSize : KeepsSize toJson ofJson? :=
  keepsSize_decode TypeExpr.keepsSize

theorem TypeSpec.keepsSize : KeepsSize toJson ofJson? := by
  intro v s h
  simp only [ofJson?, Option.bind_eq_bind, Option.bind_eq_some_iff, Option.pure_def,
    Option.some.injEq] at h
  obtain ⟨w, hw, name, -, doc, -, typeParams, -, isAlias, -, type, htype, position, hposition,
    rfl⟩ := h
  have hw := standsIn_of_fields? hw
  have ht := TypeExpr.keepsSize.optional hw htype
  have hp := Position.keepsSize.required hw hposition
  simp [toJson, hw.pos, ht, hp]

theorem Item.keepsSize : KeepsSize toJson ofJson? := by
  intro v x h
  unfold ofJson? at h
  split at h
  · rename_i body htag
    obtain ⟨spec, hspec, rfl⟩ := Option.map_eq_some_iff.mp h
    exact (TypeSpec.keepsSize _ _ hspec).tagged htag
  · rename_i body htag
    simp only [Option.bind_eq_bind, Option.bind_eq_some_iff, Option.pure_def,
      Option.some.injEq] at h
    obtain ⟨w, hw, position, hposition, members, hmembers, rfl⟩ := h
    have hw := standsIn_of_fields? hw
    have hp := Position.keepsSize.required hw hposition
    have hm := TypeSpec.keepsSize.list?.required hw hmembers
    refine Json.NoLarger.tagged ?_ htag
    simp [hw.pos, hp, hm]
  · cases h

theorem SourceUnit.keepsSize : KeepsSize toJson ofJson? := by
  intro v u h
  simp only [ofJson?, Option.bind_eq_bind, Option.bind_eq_some_iff, Option.pure_def,
    Option.some.injEq] at h
  obtain ⟨w, hw, name, -, items, hitems, rfl⟩ := h
  have hw := standsIn_of_fields? hw
  have hi := Item.keepsSize.list?.required hw hitems
  simp [toJson, hw.pos, hi]

/-! ## References, fields and declarations

A reference is a tag with a structure under it. Fields are decoded by recursion through the fields
inside them, with a bound that the law does not mention. -/

theorem Reference.keepsSize : KeepsSize toJson ofJson? := by
  intro v r h
  unfold ofJson? at h
  split at h
  · rename_i body htag
    simp only [Option.bind_eq_bind, Option.bind_eq_some_iff, Option.pure_def,
      Option.some.injEq] at h
    obtain ⟨w, hw, package, -, name, -, pointer, -, rfl⟩ := h
    refine Json.NoLarger.tagged ?_ htag
    simp [(standsIn_of_fields? hw).pos]
  · rename_i name htag
    cases h
    exact (Json.noLarger_str _).tagged htag
  · split at h
    · cases h
      simp [toJson]
    · cases h
  · split at h
    · cases h
      simp [toJson]
    · cases h
  · rename_i text htag
    cases h
    exact (Json.noLarger_str _).tagged htag
  · cases h

namespace Field

theorem toJsonList_eq_map (xs : List Field) : toJsonList xs = xs.map toJson := by
  induction xs with
  | nil => rfl
  | cons x rest ih => rw [toJsonList, ih, List.map_cons]

theorem keepsSize_decodeWith {inner : Json → Option Field} (hinner : KeepsSize toJson inner) :
    KeepsSize toJson (decodeWith inner) := by
  intro v x h
  simp only [decodeWith, Option.bind_eq_bind, Option.bind_eq_some_iff, Option.pure_def,
    Option.some.injEq] at h
  obtain ⟨w, hw, name, -, reference, hreference, embedded, -, depth, hdepth, tag, -, position,
    hposition, children, hchildren, rfl⟩ := h
  have hw := standsIn_of_fields? hw
  have hr := Reference.keepsSize.required hw hreference
  have hd := keepsSize_nat.required hw hdepth
  have hp := Position.keepsSize.required hw hposition
  rcases hinner.withDefault_list? hw hchildren with rfl | hc
  · simp [toJson, toJsonList, hw.pos, hr, hd, hp]
  · -- the children are written when there are any
    cases children with
    | nil => simp [toJson, toJsonList, hw.pos, hr, hd, hp]
    | cons c rest =>
      rw [Json.ofList, List.map_cons] at hc
      simp [toJson, toJsonList, toJsonList_eq_map, hw.pos, hr, hd, hp, hc]

/-- **Fields** are written no larger. An empty list of fields is not written at all. -/
theorem keepsSize : KeepsSize toJson ofJson? := by
  have hdecode : ∀ fuel, KeepsSize toJson (decode fuel) := by
    intro fuel
    induction fuel with
    | zero => exact nofun
    | succ fuel ih => exact keepsSize_decodeWith ih
  exact fun v => hdecode (v.depth + 1) v

end Field

theorem Signature.keepsSize : KeepsSize toJson ofJson? := by
  intro v s h
  simp only [ofJson?, Option.bind_eq_bind, Option.bind_eq_some_iff, Option.pure_def,
    Option.some.injEq] at h
  obtain ⟨w, hw, name, -, params, hparams, results, hresults, position, hposition, rfl⟩ := h
  have hw := standsIn_of_fields? hw
  have hp := Reference.keepsSize.list?.required hw hparams
  have hr := Reference.keepsSize.list?.required hw hresults
  have hq := Position.keepsSize.required hw hposition
  simp [toJson, hw.pos, hp, hr, hq]

theorem Shape.keepsSize : KeepsSize toJson ofJson? := by
  intro v s h
  unfold ofJson? at h
  split at h
  · rename_i body htag
    simp only [Option.bind_eq_bind, Option.bind_eq_some_iff, Option.pure_def,
      Option.some.injEq] at h
    obtain ⟨w, hw, target, htarget, rfl⟩ := h
    have hw := standsIn_of_fields? hw
    have ht := Reference.keepsSize.required hw htarget
    refine Json.NoLarger.tagged ?_ htag
    simp [hw.pos, ht]
  · rename_i body htag
    simp only [Option.bind_eq_bind, Option.bind_eq_some_iff, Option.pure_def,
      Option.some.injEq] at h
    obtain ⟨w, hw, fields, hfields, rfl⟩ := h
    have hw := standsIn_of_fields? hw
    have hf := Field.keepsSize.list?.required hw hfields
    refine Json.NoLarger.tagged ?_ htag
    simp [hw.pos, hf]
  · rename_i body htag
    simp only [Option.bind_eq_bind, Option.bind_eq_some_iff, Option.pure_def,
      Option.some.injEq] at h
    obtain ⟨w, hw, methods, hmethods, embeds, hembeds, constraints, hconstraints, rfl⟩ := h
    have hw := standsIn_of_fields? hw
    have hm := Signature.keepsSize.list?.required hw hmethods
    have he := Reference.keepsSize.list?.required hw hembeds
    have hc := keepsSize_str.list?.required hw hconstraints
    refine Json.NoLarger.tagged ?_ htag
    simp [hw.pos, hm, he, hc]
  · cases h

theorem Declaration.keepsSize : KeepsSize toJson ofJson? := by
  intro v d h
  simp only [ofJson?, Option.bind_eq_bind, Option.bind_eq_some_iff, Option.pure_def,
    Option.some.injEq] at h
  obtain ⟨w, hw, name, -, doc, -, typeParams, -, isAlias, -, position, hposition, shape, hshape,
    rfl⟩ := h
  have hw := standsIn_of_fields? hw
  have hp := Position.keepsSize.required hw hposition
  have hs := Shape.keepsSize.required hw hshape
  simp [toJson, hw.pos, hp, hs]

theorem Embedding.keepsSize : KeepsSize toJson ofJson? := by
  intro v e h
  simp only [ofJson?, Option.bind_eq_bind, Option.bind_eq_some_iff, Option.pure_def,
    Option.some.injEq] at h
  obtain ⟨w, hw, owner, -, target, htarget, position, hposition, rfl⟩ := h
  have hw := standsIn_of_fields? hw
  have ht := Reference.keepsSize.required hw htarget
  have hp := Position.keepsSize.required hw hposition
  simp [toJson, hw.pos, ht, hp]

/-- **A graph is written no larger** than what it was decoded from, though that may declare a name
more than once. -/
theorem TypeGraph.keepsSize : KeepsSize toJson ofJson? := by
  intro v g h
  obtain ⟨declarations, embeddings, hparts, rfl⟩ := ofJson?_eq_some_iff.mp h
  simp only [parts?, Option.bind_eq_bind, Option.bind_eq_some_iff, Option.pure_def,
    Option.some.injEq, Prod.mk.injEq] at hparts
  obtain ⟨w, hw, ds, hds, es, hes, rfl, rfl⟩ := hparts
  have hw := standsIn_of_fields? hw
  have hd := Declaration.keepsSize.list?.required hw hds
  have he := Embedding.keepsSize.list?.required hw hes
  have hfirst : (Json.ofList Declaration.toJson (ofParts ds es).declarations).NoLarger
      (Json.ofList Declaration.toJson ds) := by
    rw [declarations_ofParts]
    refine Json.noLarger_arr.mpr ⟨Nat.succ_pos _, List.forall_mem_map.mpr fun d hd => ?_⟩
    exact Json.inside_of_mem_arr (List.mem_map_of_mem (firsts_sublist.subset hd))
  rw [toJson]
  simpa [hw.pos] using ⟨hfirst.inside hd, he⟩

/-! ## Views

Structures that hold nothing but other structures, texts and counters: what is inside them is inside
what they were read from, field by field. -/

/-- A diagnostic leaves its list of other names out when it is empty, and so is no larger either
way. -/
theorem Diagnostic.keepsSize : KeepsSize toJson ofJson? := by
  intro v d h
  simp only [ofJson?, Option.bind_eq_bind, Option.bind_eq_some_iff, Option.pure_def,
    Option.some.injEq] at h
  obtain ⟨w, hw, kind, -, message, -, subject, -, position, hposition, related, hrelated, rfl⟩ := h
  have hw := standsIn_of_fields? hw
  have hp := Position.keepsSize.optional hw hposition
  have hr := keepsSize_str.withDefault_list? hw hrelated
  cases related with
  | nil => simp [toJson, DiagnosticKind.toJson, Json.memberUnlessEmpty, hw.pos, hp]
  | cons name rest =>
    have hr := hr.resolve_left (List.cons_ne_nil name rest)
    simp [toJson, DiagnosticKind.toJson, Json.memberUnlessEmpty, hw.pos, hp, hr]

theorem Stats.keepsSize : KeepsSize toJson ofJson? := by
  intro v s h
  simp only [ofJson?, Option.bind_eq_bind, Option.bind_eq_some_iff, Option.pure_def,
    Option.some.injEq] at h
  obtain ⟨w, hw, declarations, hdeclarations, aliases, haliases, structs, hstructs, interfaces,
    hinterfaces, embeddings, hembeddings, lost, hlost, lostAliases, hlostAliases, rfl⟩ := h
  have hw := standsIn_of_fields? hw
  have hcount := fun {name : String} {n : Nat} (h : w.required name Json.nat? = some n) =>
    keepsSize_nat.required hw h
  simp [toJson, hw.pos, hcount hdeclarations, hcount haliases, hcount hstructs,
    hcount hinterfaces, hcount hembeddings, hcount hlost, hcount hlostAliases]

theorem ExternalReason.keepsSize : KeepsSize toJson ofJson? := by
  intro v r h
  unfold ofJson? at h
  split at h
  · rename_i body htag
    simp only [Option.bind_eq_bind, Option.bind_eq_some_iff, Option.pure_def,
      Option.some.injEq] at h
    obtain ⟨w, hw, package, -, name, -, rfl⟩ := h
    refine Json.NoLarger.tagged ?_ htag
    simp [(standsIn_of_fields? hw).pos]
  · rename_i name htag
    cases h
    exact (Json.noLarger_str _).tagged htag
  · rename_i name htag
    cases h
    exact (Json.noLarger_str _).tagged htag
  · rename_i text htag
    cases h
    exact (Json.noLarger_str _).tagged htag
  · cases h

theorem Resolution.keepsSize : KeepsSize toJson ofJson? := by
  intro v r h
  unfold ofJson? at h
  split at h
  · rename_i name htag
    cases h
    exact (Json.noLarger_str _).tagged htag
  · rename_i body htag
    obtain ⟨reason, hreason, rfl⟩ := Option.map_eq_some_iff.mp h
    exact (ExternalReason.keepsSize _ _ hreason).tagged htag
  · cases h

theorem Extraction.keepsSize : KeepsSize toJson ofJson? := by
  intro v x h
  simp only [ofJson?, Option.bind_eq_bind, Option.bind_eq_some_iff, Option.pure_def,
    Option.some.injEq] at h
  obtain ⟨w, hw, graph, hgraph, diagnostics, hdiagnostics, rfl⟩ := h
  have hw := standsIn_of_fields? hw
  have hg := TypeGraph.keepsSize.required hw hgraph
  have hd := Diagnostic.keepsSize.list?.required hw hdiagnostics
  simp [toJson, hw.pos, hg, hd]

theorem PromotedField.keepsSize : KeepsSize toJson ofJson? := by
  intro v f h
  simp only [ofJson?, Option.bind_eq_bind, Option.bind_eq_some_iff, Option.pure_def,
    Option.some.injEq] at h
  obtain ⟨w, hw, field, hfield, owner, -, via, hvia, level, hlevel, rfl⟩ := h
  have hw := standsIn_of_fields? hw
  have hf := Field.keepsSize.required hw hfield
  have hv := keepsSize_str.list?.required hw hvia
  have hl := keepsSize_nat.required hw hlevel
  simp [toJson, hw.pos, hf, hv, hl]

theorem Flattened.keepsSize : KeepsSize toJson ofJson? := by
  intro v x h
  simp only [ofJson?, Option.bind_eq_bind, Option.bind_eq_some_iff, Option.pure_def,
    Option.some.injEq] at h
  obtain ⟨w, hw, typeName, -, fields, hfields, cycle, hcycle, unresolved, hunresolved, rfl⟩ := h
  have hw := standsIn_of_fields? hw
  have hf := PromotedField.keepsSize.list?.required hw hfields
  have hc := keepsSize_str.list?.optional hw hcycle
  have hu := keepsSize_str.list?.required hw hunresolved
  simp [toJson, hw.pos, hf, hc, hu]

theorem FieldPath.keepsSize : KeepsSize toJson ofJson? := by
  intro v p h
  simp only [ofJson?, Option.bind_eq_bind, Option.bind_eq_some_iff, Option.pure_def,
    Option.some.injEq] at h
  obtain ⟨w, hw, path, -, reference, hreference, depth, hdepth, embedded, -, rfl⟩ := h
  have hw := standsIn_of_fields? hw
  have hr := Reference.keepsSize.required hw hreference
  have hd := keepsSize_nat.required hw hdepth
  simp [toJson, hw.pos, hr, hd]

theorem MethodEntry.keepsSize : KeepsSize toJson ofJson? := by
  intro v m h
  simp only [ofJson?, Option.bind_eq_bind, Option.bind_eq_some_iff, Option.pure_def,
    Option.some.injEq] at h
  obtain ⟨w, hw, signature, hsignature, origin, -, rfl⟩ := h
  have hw := standsIn_of_fields? hw
  have hs := Signature.keepsSize.required hw hsignature
  simp [toJson, hw.pos, hs]

theorem EmbeddedInterface.keepsSize : KeepsSize toJson ofJson? := by
  intro v e h
  simp only [ofJson?, Option.bind_eq_bind, Option.bind_eq_some_iff, Option.pure_def,
    Option.some.injEq] at h
  obtain ⟨w, hw, reference, hreference, expanded, -, rfl⟩ := h
  have hw := standsIn_of_fields? hw
  have hr := Reference.keepsSize.required hw hreference
  simp [toJson, hw.pos, hr]

theorem MethodSet.keepsSize : KeepsSize toJson ofJson? := by
  intro v s h
  simp only [ofJson?, Option.bind_eq_bind, Option.bind_eq_some_iff, Option.pure_def,
    Option.some.injEq] at h
  obtain ⟨w, hw, interface, -, methods, hmethods, embedded, hembedded, lost, hlost, rfl⟩ := h
  have hw := standsIn_of_fields? hw
  have hm := MethodEntry.keepsSize.list?.required hw hmethods
  have he := EmbeddedInterface.keepsSize.list?.required hw hembedded
  have hl := keepsSize_str.list?.required hw hlost
  simp [toJson, hw.pos, hm, he, hl]

/-- **A configuration** may leave any member out, and is then written with the default, which fits.
-/
theorem Config.keepsSize : KeepsSize toJson ofJson? := by
  intro v c h
  simp only [ofJson?, Option.bind_eq_bind, Option.bind_eq_some_iff, Option.pure_def,
    Option.some.injEq] at h
  obtain ⟨w, hw, maxInlineDepth, hdepth, keepDocComments, -, resolveInterfaceEmbeds, -,
    detectCycles, -, rfl⟩ := h
  have hw := standsIn_of_fields? hw
  have hd : (Json.nat maxInlineDepth).Inside v := by
    rw [Json.withDefault] at hdepth
    split at hdepth
    · cases hdepth
      exact ⟨hw.pos, fun _ => Json.fits_nat.mpr (by decide)⟩
    · rename_i u hu
      exact (keepsSize_nat _ _ hdepth).inside (hw.inside hu)
  simp [toJson, hw.pos, hd]

end GoAtlas
