import GoAtlas.Proofs.Codec.Graph

/-!
# Source units survive their JSON

A unit that is written as JSON is read back as it was (`SourceUnit.ofJson?_toJson`), and so is
everything in it. Type expressions nest through the lines of structs and interfaces and through
parameters. Whatever stands inside a type is written with fewer levels than the type
(`Json.depth_lt_arr`, `Json.depth_lt_obj`). So the law of the decoder with a bound goes by induction
on the bound (`TypeExpr.decode_toJson`), with the laws of lines and parameters for any decoder that
reads the types inside them.
-/

namespace GoAtlas

namespace Json

/-! ## What stands inside

The decoders take a bound on the depth. It is never reached on what was written, since each part is
less deep than the whole. -/

/-- What stands in a list is less deep, which is what the bound of the decoders counts on. -/
theorem depth_lt_arr {items : List Json} {v : Json} (h : v ∈ items) :
    v.depth < (arr items).depth := by
  rw [depth, Nat.lt_succ_iff]
  induction items with
  | nil => simp at h
  | cons w rest ih =>
    rw [depthOfItems]
    rcases List.mem_cons.mp h with rfl | hrest
    · exact Nat.le_max_left _ _
    · exact Nat.le_trans (ih hrest) (Nat.le_max_right _ _)

theorem depth_lt_obj (name : String) {members : List (String × Json)} {v : Json}
    (h : (name, v) ∈ members) : v.depth < (obj members).depth := by
  rw [depth, Nat.lt_succ_iff]
  induction members with
  | nil => simp at h
  | cons m rest ih =>
    obtain ⟨other, w⟩ := m
    rw [depthOfMembers]
    rcases List.mem_cons.mp h with heq | hrest
    · obtain ⟨-, rfl⟩ := Prod.mk.inj heq
      exact Nat.le_max_left _ _
    · exact Nat.le_trans (ih hrest) (Nat.le_max_right _ _)

theorem depth_lt_tagged (tag : String) (v : Json) : v.depth < (tagged tag v).depth :=
  depth_lt_obj tag List.mem_cons_self

variable {α : Type} {encode : α → Json} {decode : Json → Option α}

/-- A list is read back when each of its items is. -/
theorem list?_map {as : List α} (h : ∀ a ∈ as, decode (encode a) = some a) :
    (arr (as.map encode)).list? decode = some as := by
  rw [list?]
  induction as with
  | nil => rfl
  | cons a rest ih =>
    obtain ⟨ha, hrest⟩ := List.forall_mem_cons.mp h
    rw [List.map_cons, List.mapM_cons, ha, ih hrest]
    rfl

@[simp] theorem list?_ofList_str (texts : List String) :
    (ofList str texts).list? str? = some texts :=
  list?_ofList str?_str

/-- A value that may be absent is read back, when it is not written like an absent one. -/
@[simp] theorem option?_ofOption (h : ∀ a, decode (encode a) = some a)
    (hnull : ∀ a, encode a ≠ null) (o : Option α) :
    (ofOption encode o).option? decode = some o := by
  cases o with
  | none => rfl
  | some a =>
    have hsome : (encode a).option? decode = (decode (encode a)).map some := by
      rw [option?]
      exact hnull a
    rw [ofOption, hsome, h a]
    rfl

end Json

/-! ## Type expressions -/

/-- The recursion through lines writes each line for itself. -/
theorem FieldDecl.toJsonList_eq_map (xs : List FieldDecl) : toJsonList xs = xs.map toJson := by
  induction xs with
  | nil => rfl
  | cons x rest ih => rw [toJsonList, ih, List.map_cons]

theorem Element.toJsonList_eq_map (xs : List Element) : toJsonList xs = xs.map toJson := by
  induction xs with
  | nil => rfl
  | cons x rest ih => rw [toJsonList, ih, List.map_cons]

theorem Param.toJsonList_eq_map (xs : List Param) : toJsonList xs = xs.map toJson := by
  induction xs with
  | nil => rfl
  | cons x rest ih => rw [toJsonList, ih, List.map_cons]

section Parts

variable {type : Json → Option TypeExpr}

/-- A line of a struct is read back when its type is. -/
theorem FieldDecl.decode_toJson (x : FieldDecl)
    (h : ∀ t : TypeExpr, t.toJson.depth < x.toJson.depth → type t.toJson = some t) :
    decode type x.toJson = some x := by
  obtain ⟨names, t, tag, position⟩ := x
  have ht := h t (Json.depth_lt_obj "ty" (by simp))
  simp [decode, toJson, Json.required, Json.optional, ht]

/-- Parameters are read back when their type is. -/
theorem Param.decode_toJson (x : Param)
    (h : ∀ t : TypeExpr, t.toJson.depth < x.toJson.depth → type t.toJson = some t) :
    decode type x.toJson = some x := by
  obtain ⟨names, t, variadic⟩ := x
  have ht := h t (Json.depth_lt_obj "ty" (by simp))
  simp [decode, toJson, Json.required, ht]

/-- A list of parameters is read back when their types are. -/
theorem Param.list?_toJsonList (xs : List Param)
    (h : ∀ t : TypeExpr, t.toJson.depth < (Json.arr (toJsonList xs)).depth →
      type t.toJson = some t) :
    (Json.arr (toJsonList xs)).list? (decode type) = some xs := by
  rw [toJsonList_eq_map] at h ⊢
  refine Json.list?_map fun x hx => decode_toJson x fun t ht => h t ?_
  exact Nat.lt_trans ht (Json.depth_lt_arr (List.mem_map_of_mem hx))

/-- A line of an interface is read back when the types in it are. -/
theorem Element.decode_toJson (x : Element)
    (h : ∀ t : TypeExpr, t.toJson.depth < x.toJson.depth → type t.toJson = some t) :
    decode type x.toJson = some x := by
  cases x with
  | method name params results position =>
    have hinside : ∀ (list : String) (xs : List Param),
        (list, Json.arr (Param.toJsonList xs)) ∈
          [("name", Json.str name), ("params", .arr (Param.toJsonList params)),
            ("results", .arr (Param.toJsonList results)), ("position", position.toJson)] →
        (Json.arr (Param.toJsonList xs)).list? (Param.decode type) = some xs := by
      intro list xs hmem
      refine Param.list?_toJsonList xs fun t ht => h t ?_
      exact Nat.lt_trans ht (Nat.lt_trans (Json.depth_lt_obj list hmem) (Json.depth_lt_tagged _ _))
    have hparams := hinside "params" params (by simp)
    have hresults := hinside "results" results (by simp)
    simp [decode, toJson, Json.required, hparams, hresults]
  | embed t =>
    have ht := h t (Json.depth_lt_tagged _ _)
    simp [decode, toJson, ht]
  | constraint text => rfl

end Parts

namespace TypeExpr

/-- **A type expression is read back** by a decoder whose bound is above the depth of what was
written. -/
theorem decode_toJson {fuel : Nat} {t : TypeExpr} (h : t.toJson.depth < fuel) :
    decode fuel t.toJson = some t := by
  induction fuel generalizing t with
  | zero => exact absurd h (Nat.not_lt_zero _)
  | succ fuel ih =>
    rw [Nat.lt_succ_iff] at h
    cases t with
    | named package name => cases package <;> rfl
    | predeclared name => rfl
    | pointer target =>
      have htarget : decode fuel target.toJson = some target :=
        ih (Nat.lt_of_lt_of_le (Json.depth_lt_tagged _ _) h)
      simp [decode, decodeWith, toJson, htarget]
    | struct fields =>
      have hfields : (Json.arr (fields.map FieldDecl.toJson)).list?
          (FieldDecl.decode (decode fuel)) = some fields := by
        refine Json.list?_map fun x hx => x.decode_toJson fun t ht => ih ?_
        have hlist := Json.depth_lt_arr (List.mem_map_of_mem (f := FieldDecl.toJson) hx)
        rw [toJson, FieldDecl.toJsonList_eq_map] at h
        exact Nat.lt_of_lt_of_le (Nat.lt_trans (Nat.lt_trans ht hlist) (Json.depth_lt_tagged _ _)) h
      simp [decode, decodeWith, toJson, FieldDecl.toJsonList_eq_map, hfields]
    | interface elements =>
      have helements : (Json.arr (elements.map Element.toJson)).list?
          (Element.decode (decode fuel)) = some elements := by
        refine Json.list?_map fun x hx => x.decode_toJson fun t ht => ih ?_
        have hlist := Json.depth_lt_arr (List.mem_map_of_mem (f := Element.toJson) hx)
        rw [toJson, Element.toJsonList_eq_map] at h
        exact Nat.lt_of_lt_of_le (Nat.lt_trans (Nat.lt_trans ht hlist) (Json.depth_lt_tagged _ _)) h
      simp [decode, decodeWith, toJson, Element.toJsonList_eq_map, helements]
    | verbatim text => rfl
    | missing => rfl

/-- **A type expression is read back** as it was, since the bound is the depth of what was written.
-/
@[simp] theorem ofJson?_toJson (t : TypeExpr) : ofJson? t.toJson = some t :=
  decode_toJson (Nat.lt_succ_self _)

/-- A type is never written as `null`, so it can be told from one that is left out. -/
theorem toJson_ne_null (t : TypeExpr) : t.toJson ≠ .null := by
  cases t <;> simp [toJson, Json.tagged]

end TypeExpr

@[simp] theorem FieldDecl.ofJson?_toJson (x : FieldDecl) : ofJson? x.toJson = some x :=
  x.decode_toJson fun t _ => t.ofJson?_toJson

@[simp] theorem Param.ofJson?_toJson (x : Param) : ofJson? x.toJson = some x :=
  x.decode_toJson fun t _ => t.ofJson?_toJson

/-- Lines of an interface are read back with the types of their parameters. -/
@[simp] theorem Element.ofJson?_toJson (x : Element) : ofJson? x.toJson = some x :=
  x.decode_toJson fun t _ => t.ofJson?_toJson

/-! ## Declarations, items and units -/

/-- A declaration is read back, also one without a name or a type. -/
@[simp] theorem TypeSpec.ofJson?_toJson (s : TypeSpec) : ofJson? s.toJson = some s := by
  simp [ofJson?, toJson, Json.required, Json.optional, TypeExpr.toJson_ne_null]

@[simp] theorem Item.ofJson?_toJson (x : Item) : ofJson? x.toJson = some x := by
  cases x <;> simp [ofJson?, toJson, Json.required]

/-- **A unit is read back** as it was. -/
@[simp] theorem SourceUnit.ofJson?_toJson (u : SourceUnit) : ofJson? u.toJson = some u := by
  simp [ofJson?, toJson, Json.required]

end GoAtlas
