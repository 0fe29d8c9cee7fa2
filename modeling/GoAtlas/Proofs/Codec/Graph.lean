import GoAtlas.Codec.Graph
import GoAtlas.Proofs.Graph.Build

/-!
# Graphs survive their JSON

A graph that is written as JSON is read back as it was (`TypeGraph.ofJson?_toJson`), and so is
everything in it. A structure is read back member by member, so the first section has the laws of
reading: a member is found under its name, behind members of other names, and a list is read item by
item. With them in the simp set, the law of a structure follows from those of its parts.

Only fields nest. Their decoder stops at a bound on the nesting, so their law is one of the decoder
with a bound above the depth of what is written (`Field.decode_toJson`). The depth of the JSON value
is enough for the field and everything in it.
-/

namespace GoAtlas

/-! ## Reading what was written -/

namespace Json

variable {α : Type} {encode : α → Json} {decode : Json → Option α} {name other : String} {v : Json}
  {members : List (String × Json)}

@[simp] theorem member?_nil : (obj []).member? name = none := rfl

@[simp] theorem member?_cons_self : (obj ((name, v) :: members)).member? name = some v :=
  List.lookup_cons_self

/-- A member of another name is passed over. -/
@[simp] theorem member?_cons_of_ne (h : name ≠ other) :
    (obj ((other, v) :: members)).member? name = (obj members).member? name := by
  rw [member?, List.lookup_cons, beq_eq_false_iff_ne.mpr h, member?]

/-- An object with distinct names has the fields of a structure as its members. -/
@[simp] theorem fields?_obj {names : List String} {omissible : Nat}
    (h : (members.map Prod.fst).Nodup) :
    (obj members).fields? names omissible = some (obj members) :=
  if_pos (h.filter _)

@[simp] theorem str?_str (text : String) : (str text).str? = some text := rfl

@[simp] theorem bool?_bool (b : Bool) : (bool b).bool? = some b := rfl

@[simp] theorem nat?_nat (n : Nat) : (nat n).nat? = some n := rfl

/-- A text that may be left out is read back, since no text is written as `null`. -/
@[simp] theorem option?_ofOption_str (text : Option String) :
    (ofOption str text).option? str? = some text := by
  cases text <;> rfl

/-- A list is read back when whatever its items can be is read back. -/
@[simp] theorem list?_ofList {as : List α} (h : ∀ a, decode (encode a) = some a) :
    (ofList encode as).list? decode = some as := by
  rw [ofList, list?]
  induction as with
  | nil => rfl
  | cons a rest ih =>
    rw [List.map_cons, List.mapM_cons, h a, ih]
    rfl

/-- A tag is read back with what stands under it. -/
@[simp] theorem tag?_tagged (tag : String) (v : Json) : (tagged tag v).tag? = some (tag, some v) :=
  rfl

end Json

/-! ## Positions, references and signatures -/

@[simp] theorem Position.ofJson?_toJson (p : Position) : Position.ofJson? p.toJson = some p :=
  rfl

@[simp] theorem Reference.ofJson?_toJson (r : Reference) : Reference.ofJson? r.toJson = some r := by
  cases r with
  | named package name pointer => cases package <;> rfl
  | predeclared name => rfl
  | inlineStruct => rfl
  | inlineInterface => rfl
  | verbatim text => rfl

@[simp] theorem Signature.ofJson?_toJson (s : Signature) : Signature.ofJson? s.toJson = some s := by
  simp [Signature.ofJson?, Signature.toJson, Json.required]

/-! ## Fields -/

namespace Field

/-- A field is read back when its children are. -/
theorem decodeWith_toJson {inner : Json → Option Field} (x : Field)
    (h : (toJsonList x.children).mapM inner = some x.children) :
    decodeWith inner x.toJson = some x := by
  obtain ⟨name, reference, embedded, depth, tag, position, children⟩ := x
  cases children with
  | nil =>
    simp [decodeWith, toJson, toJsonList, Json.required, Json.optional, Json.withDefault]
  | cons c rest =>
    rw [toJsonList] at h
    simp [decodeWith, toJson, toJsonList, Json.required, Json.optional, Json.withDefault,
      Json.list?, h]

/-- The children of a field are written inside it. -/
theorem depthOfItems_children_lt (x : Field) :
    Json.depthOfItems (toJsonList x.children) < x.toJson.depth := by
  obtain ⟨name, reference, embedded, depth, tag, position, children⟩ := x
  cases children with
  | nil => simp [toJson, toJsonList, Json.depth, Json.depthOfItems]
  | cons c rest =>
    simp only [toJson, toJsonList, Json.depth, List.cons_append, List.nil_append,
      Json.depthOfMembers]
    omega

mutual

/-- **A field is read back** by a decoder whose bound is above the depth of what was written. -/
theorem decode_toJson : (x : Field) → {fuel : Nat} → x.toJson.depth < fuel →
    decode fuel x.toJson = some x
  | ⟨name, reference, embedded, depth, tag, position, children⟩, fuel + 1, h => by
    refine decodeWith_toJson _ (mapM_decode_toJsonList children ?_)
    have hinside := depthOfItems_children_lt
      ⟨name, reference, embedded, depth, tag, position, children⟩
    exact Nat.lt_of_lt_of_le hinside (Nat.le_of_lt_succ h)

/-- Some fields are read back by a decoder whose bound is above the depth of each. -/
theorem mapM_decode_toJsonList : (xs : List Field) → {fuel : Nat} →
    Json.depthOfItems (toJsonList xs) < fuel → (toJsonList xs).mapM (decode fuel) = some xs
  | [], _, _ => rfl
  | x :: rest, fuel, h => by
    rw [toJsonList, Json.depthOfItems, Nat.max_lt] at h
    rw [toJsonList, List.mapM_cons, decode_toJson x h.1, mapM_decode_toJsonList rest h.2]
    rfl

end

/-- **A field is read back** with all fields inside it. -/
@[simp] theorem ofJson?_toJson (x : Field) : ofJson? x.toJson = some x :=
  decode_toJson x (Nat.lt_succ_self _)

end Field

/-! ## Declarations, embeddings and graphs -/

/-- A shape is read back under the tag that it was written with. -/
@[simp] theorem Shape.ofJson?_toJson (s : Shape) : Shape.ofJson? s.toJson = some s := by
  cases s with
  | aliasType target => simp [Shape.toJson, Shape.ofJson?, Json.required]
  | struct fields => simp [Shape.toJson, Shape.ofJson?, Json.required]
  | interface methods embeds constraints =>
    simp [Shape.toJson, Shape.ofJson?, Json.required, Json.list?_ofList Json.str?_str]

/-- **A declaration is read back** as it was. -/
@[simp] theorem Declaration.ofJson?_toJson (d : Declaration) :
    Declaration.ofJson? d.toJson = some d := by
  simp [Declaration.toJson, Declaration.ofJson?, Json.required, Json.optional]

/-- **An embedding is read back** as it was. -/
@[simp] theorem Embedding.ofJson?_toJson (e : Embedding) :
    Embedding.ofJson? e.toJson = some e := by
  simp [Embedding.toJson, Embedding.ofJson?, Json.required]

namespace TypeGraph

/-- A graph is made of its parts again, as its names are distinct. -/
theorem ofParts_self (g : TypeGraph) : ofParts g.declarations g.embeddings = g := by
  refine eq_of_parts ?_ rfl
  rw [declarations_ofParts, firsts_nil_of_nodup g.distinct]

/-- What is read as a graph are declarations and embeddings. -/
theorem ofJson?_eq_some_iff {v : Json} {g : TypeGraph} : ofJson? v = some g ↔
    ∃ declarations embeddings,
      parts? v = some (declarations, embeddings) ∧ ofParts declarations embeddings = g := by
  simp [ofJson?, Option.map_eq_some_iff]

/-- **A graph is read back** as it was. -/
@[simp] theorem ofJson?_toJson (g : TypeGraph) : ofJson? g.toJson = some g := by
  simp [ofJson?, parts?, toJson, Json.required, ofParts_self]

end TypeGraph

end GoAtlas
