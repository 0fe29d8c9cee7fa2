import GoAtlas.Proofs.Declaration.Lines

/-!
# The depth limit only cuts

Structs written in place are expanded down to a limit. A smaller limit gives the same fields as a
larger one, with every struct that is held at the smaller limit kept as text
(`FieldDecl.fieldsOfList_truncate`), and reports each of the structs that are cut there
(`FieldDecl.countP_isNotExpanded_fieldsOfList`). The depth that a field carries is its level in the
tree, nothing lies below the limit, and only structs written in place have anything below them
(`FieldDecl.standsAt_of_mem_atLevel`). `Field.ofDecls_truncate` puts this together.
-/

namespace GoAtlas

/-- Whether a diagnostic reports a struct that is not expanded. The message tells. -/
def Diagnostic.isNotExpanded (d : Diagnostic) : Bool :=
  d.kind == .malformedDeclaration && "not expanded".toList.isSuffixOf d.message.toList

namespace Field

/-- A field with the struct that it holds kept as text. Any other field stays as it is. -/
def fold (f : Field) : Field :=
  if f.holdsStruct then { f with reference := .verbatim "struct\x7b...\x7d", children := [] } else f

/-- Fields with the structs that are held at a level kept as text. All else stays as it is. -/
def truncate : Nat → List Field → List Field
  | 0, fs => fs.map fold
  | level + 1, fs => fs.map fun f => { f with children := truncate level f.children }

/-- The fields at a level: the fields themselves, then their children, and so on down. -/
def atLevel : Nat → List Field → List Field
  | 0, fs => fs
  | level + 1, fs => atLevel level (fs.flatMap children)

section Laws

variable {level depth : Nat} {f : Field} {fs gs inner : List Field} {reference : Reference}
  {tag : Option String} {position : Position} {names : List String}

/-! ## Truncation -/

theorem truncate_nil : truncate level [] = [] := by
  cases level <;> rfl

theorem truncate_append : truncate level (fs ++ gs) = truncate level fs ++ truncate level gs := by
  cases level <;> exact List.map_append

/-- Leaves have nothing that could be cut. -/
theorem truncate_of_leaves (h : ∀ f ∈ fs, f.IsLeaf) : truncate level fs = fs := by
  refine Eq.trans ?_ (List.map_id fs)
  cases level with
  | zero =>
    apply List.map_congr_left
    intro f hf
    rw [fold, (h f hf).holdsNone]
    rfl
  | succ level =>
    apply List.map_congr_left
    intro f hf
    obtain ⟨name, reference, embedded, depth, tag, position, children⟩ := f
    obtain rfl : children = [] := (h _ hf).childless
    exact congrArg (Field.mk name reference embedded depth tag position) truncate_nil

/-- The structs of a line are cut at the line itself. -/
theorem truncate_zero_namedFields : truncate 0
    (names.map fun n => FieldDecl.namedField n .inlineStruct depth tag position inner) =
      names.map fun n =>
        FieldDecl.namedField n (.verbatim "struct\x7b...\x7d") depth tag position [] :=
  List.map_map

/-- The fields of a line are cut further down where the fields below them are. -/
theorem truncate_succ_namedFields : truncate (level + 1)
    (names.map fun n => FieldDecl.namedField n reference depth tag position inner) =
      names.map fun n =>
        FieldDecl.namedField n reference depth tag position (truncate level inner) :=
  List.map_map

/-! ## Levels -/

theorem atLevel_nil : atLevel level [] = [] := by
  induction level with
  | zero => rfl
  | succ level ih => exact ih

theorem atLevel_append : atLevel level (fs ++ gs) = atLevel level fs ++ atLevel level gs := by
  induction level generalizing fs gs with
  | zero => rfl
  | succ level ih => rw [atLevel, List.flatMap_append, ih, atLevel, atLevel]

/-- Below leaves there is nothing. -/
theorem atLevel_succ_of_leaves (h : ∀ f ∈ fs, f.IsLeaf) : atLevel (level + 1) fs = [] := by
  have hbelow : fs.flatMap children = [] :=
    List.flatMap_eq_nil_iff.mpr fun f hf => (h f hf).childless
  rw [atLevel, hbelow, atLevel_nil]

/-- The fields of a line all have the same fields below them. -/
theorem atLevel_succ_namedFields : atLevel (level + 1)
    (names.map fun n => FieldDecl.namedField n reference depth tag position inner) =
      names.flatMap fun _ => atLevel level inner := by
  rw [atLevel, List.flatMap_map]
  induction names with
  | nil => exact atLevel_nil
  | cons name names ih =>
    rw [List.flatMap_cons, List.flatMap_cons, atLevel_append, ih]
    rfl

theorem countP_holdsStruct_of_leaves (h : ∀ f ∈ fs, f.IsLeaf) :
    (atLevel level fs).countP holdsStruct = 0 := by
  cases level with
  | zero => exact List.countP_eq_zero.mpr fun f hf => by rw [(h f hf).holdsNone]; nofun
  | succ level => rw [atLevel_succ_of_leaves h, List.countP_nil]

end Laws

/-- A field carries its level in a tree as its depth, lies within the limit, and has fields below it
only where it holds a struct written in place. -/
structure StandsAt (limit level : Nat) (f : Field) : Prop where
  depth_eq : f.depth = level
  depth_le : f.depth ≤ limit
  holdsStruct : f.children ≠ [] → f.embedded = false ∧ f.reference = .inlineStruct

end Field

namespace FieldDecl

open GoAtlas.Field (truncate atLevel)

variable {limit larger depth level : Nat} {owner : String} {line : FieldDecl} {f : Field}

/-- **A smaller limit cuts**: it gives the fields of a larger one, with the structs that are held at
the smaller limit kept as text. -/
theorem fieldsOfList_truncate (h : limit ≤ larger) (lines : List FieldDecl) (hdepth : depth ≤ limit) :
    (fieldsOfList limit owner depth lines).1 =
      truncate (limit - depth) (fieldsOfList larger owner depth lines).1 := by
  induction lines using linesInduction generalizing depth with
  | nil => rw [fieldsOfList, fieldsOfList, Field.truncate_nil]
  | plain line rest hline ih =>
    obtain ⟨fs, hfields, hleaves⟩ := exists_fields_of_plain hline owner depth
    rw [fieldsOfList_cons, fieldsOfList_cons, hfields, hfields, Field.truncate_append, ← ih hdepth,
      Field.truncate_of_leaves fun f hf => (hleaves f hf).1]
  | body name names lines tag position rest ihlines ihrest =>
    rw [fieldsOfList_cons, fieldsOfList_cons, Field.truncate_append, ← ihrest hdepth]
    apply congrArg (· ++ (fieldsOfList limit owner depth rest).1)
    rcases Nat.lt_or_ge depth limit with hwithin | hdeep
    · -- both limits expand the body, and the cut is one level nearer to it
      have hlevel : limit - depth = limit - (depth + 1) + 1 := by omega
      rw [fields_of_body hwithin, fields_of_body (Nat.lt_of_lt_of_le hwithin h), hlevel,
        Field.truncate_succ_namedFields, ← ihlines hwithin]
    · -- the smaller limit is reached; the larger one may be the same
      obtain rfl : depth = limit := Nat.le_antisymm hdepth hdeep
      rw [Nat.sub_self, fields_of_deep hdeep]
      rcases Nat.lt_or_ge depth larger with hlarger | hlarger
      · rw [fields_of_body hlarger, Field.truncate_zero_namedFields]
      · rw [fields_of_deep hlarger, Field.truncate_of_leaves]
        exact List.forall_mem_map.mpr fun _ _ => ⟨rfl, rfl⟩

/-- Leaves stand at their own level only. -/
theorem standsAt_of_leaves {fs : List Field} (hleaves : ∀ f ∈ fs, f.IsLeaf ∧ f.depth = depth)
    (hdepth : depth ≤ limit) (hf : f ∈ atLevel level fs) : f.StandsAt limit (depth + level) := by
  cases level with
  | zero =>
    obtain ⟨hleaf, rfl⟩ := hleaves f hf
    exact ⟨rfl, hdepth, fun hchildren => absurd hleaf.childless hchildren⟩
  | succ level =>
    rw [Field.atLevel_succ_of_leaves fun f hf => (hleaves f hf).1] at hf
    cases hf

/-- **Every field stands at its level**, within the limit. -/
theorem standsAt_of_mem_atLevel {lines : List FieldDecl} (hdepth : depth ≤ limit)
    (hf : f ∈ atLevel level (fieldsOfList limit owner depth lines).1) :
    f.StandsAt limit (depth + level) := by
  induction lines using linesInduction generalizing depth level with
  | nil =>
    rw [fieldsOfList, Field.atLevel_nil] at hf
    cases hf
  | plain line rest hline ih =>
    obtain ⟨fs, hfields, hleaves⟩ := exists_fields_of_plain hline owner depth
    rw [fieldsOfList_cons, hfields, Field.atLevel_append] at hf
    rcases List.mem_append.mp hf with hf | hf
    · exact standsAt_of_leaves hleaves hdepth hf
    · exact ih hdepth hf
  | body name names lines tag position rest ihlines ihrest =>
    rw [fieldsOfList_cons, Field.atLevel_append] at hf
    rcases List.mem_append.mp hf with hf | hf
    · rcases Nat.lt_or_ge depth limit with hwithin | hdeep
      · rw [fields_of_body hwithin] at hf
        cases level with
        | zero =>
          obtain ⟨n, -, rfl⟩ := List.mem_map.mp hf
          exact ⟨rfl, hdepth, fun _ => ⟨rfl, rfl⟩⟩
        | succ level =>
          -- one level further down in the tree is the same level of the body
          rw [Field.atLevel_succ_namedFields] at hf
          obtain ⟨n, -, hf⟩ := List.mem_flatMap.mp hf
          rw [Nat.add_succ, ← Nat.succ_add]
          exact ihlines hwithin hf
      · rw [fields_of_deep hdeep] at hf
        apply standsAt_of_leaves _ hdepth hf
        exact List.forall_mem_map.mpr fun _ _ => ⟨⟨rfl, rfl⟩, rfl⟩
    · exact ihrest hdepth hf

/-! ## Reports of what is cut -/

/-- The message about a line without a type does not end as the other one does. -/
theorem isNotExpanded_typeless (names : List String) (position : Position) :
    (typeless owner names position).isNotExpanded = false := by
  refine Bool.eq_false_iff.mpr fun h => ?_
  obtain ⟨before, hbefore⟩ := List.isSuffixOf_iff_suffix.mp (Bool.and_eq_true_iff.mp h).2
  have hend : "not expanded".toList.getLast? = some 'd' := by decide
  have hmessage : " has no type".toList.getLast? = some 'e' := by decide
  have hlast := congrArg List.getLast? hbefore
  rw [typeless, Diagnostic.malformed, String.toList_append, List.getLast?_append,
    List.getLast?_append, hend, hmessage] at hlast
  cases hlast

theorem isNotExpanded_tooDeep (name : String) (position : Position) :
    (tooDeep limit owner name position).isNotExpanded = true := by
  refine Bool.and_eq_true_iff.mpr ⟨rfl, List.isSuffixOf_iff_suffix.mpr ?_⟩
  rw [tooDeep, Diagnostic.malformed, String.toList_append]
  exact List.IsSuffix.trans (by decide) (List.suffix_append _ _)

theorem countP_isNotExpanded_ownReports :
    (ownReports owner line).countP Diagnostic.isNotExpanded = 0 := by
  unfold ownReports
  split
  · exact List.countP_eq_zero.mpr (by simp [isNotExpanded_typeless])
  · rfl

/-- **What is cut is reported**: a limit reports as many structs as a larger one expands there. -/
theorem countP_isNotExpanded_fieldsOfList (h : limit < larger) (lines : List FieldDecl)
    (hdepth : depth ≤ limit) :
    (fieldsOfList limit owner depth lines).2.countP Diagnostic.isNotExpanded =
      (atLevel (limit - depth) (fieldsOfList larger owner depth lines).1).countP
        Field.holdsStruct := by
  induction lines using linesInduction generalizing depth with
  | nil => rw [fieldsOfList, fieldsOfList, Field.atLevel_nil, List.countP_nil, List.countP_nil]
  | plain line rest hline ih =>
    obtain ⟨fs, hfields, hleaves⟩ := exists_fields_of_plain hline owner depth
    rw [fieldsOfList_cons, fieldsOfList_cons, hfields, hfields, Field.atLevel_append,
      List.countP_append, List.countP_append, countP_isNotExpanded_ownReports, ih hdepth,
      Field.countP_holdsStruct_of_leaves fun f hf => (hleaves f hf).1]
  | body name names lines tag position rest ihlines ihrest =>
    have hlarger : depth < larger := Nat.lt_of_le_of_lt hdepth h
    rw [fieldsOfList_cons, fieldsOfList_cons, Field.atLevel_append, List.countP_append,
      List.countP_append, ihrest hdepth, fields_of_body hlarger]
    congr 1
    rcases Nat.lt_or_ge depth limit with hwithin | hdeep
    · have hlevel : limit - depth = limit - (depth + 1) + 1 := by omega
      rw [fields_of_body hwithin, hlevel, Field.atLevel_succ_namedFields, List.countP_flatMap,
        List.countP_flatMap]
      apply congrArg List.sum
      apply List.map_congr_left
      intro n _
      exact ihlines hwithin
    · -- the line is at the limit: each of its names is reported, and each of them holds the struct
      obtain rfl : depth = limit := Nat.le_antisymm hdepth hdeep
      rw [Nat.sub_self, fields_of_deep hdeep, atLevel, List.countP_map, List.countP_map]
      apply List.countP_congr
      intro n _
      exact iff_of_true (isNotExpanded_tooDeep n position) rfl

end FieldDecl

namespace Field

/-- **The depth limit only cuts.** A smaller limit gives exactly the fields of a larger one with the
structs that are held at the smaller limit kept as text. Under every limit, the depth of a field is
its level in the tree, no field is deeper than the limit, and only the structs written in place have
fields below them. A limit that is really smaller reports as many structs as it cuts. -/
theorem ofDecls_truncate {limit larger : Nat} (h : limit ≤ larger) (owner : String)
    (lines : List FieldDecl) :
    (ofDecls limit owner lines).1 = truncate limit (ofDecls larger owner lines).1 ∧
      (∀ bound level, ∀ f ∈ atLevel level (ofDecls bound owner lines).1,
        f.depth = level ∧ f.depth ≤ bound ∧
          (f.children ≠ [] → f.embedded = false ∧ f.reference = .inlineStruct)) ∧
      (limit < larger → (ofDecls limit owner lines).2.countP Diagnostic.isNotExpanded =
        (atLevel limit (ofDecls larger owner lines).1).countP holdsStruct) := by
  refine ⟨FieldDecl.fieldsOfList_truncate h lines (Nat.zero_le limit), ?_, fun hlarger => ?_⟩
  · intro bound level f hf
    have hstands := FieldDecl.standsAt_of_mem_atLevel (Nat.zero_le bound) hf
    exact ⟨hstands.depth_eq.trans (Nat.zero_add level), hstands.depth_le, hstands.holdsStruct⟩
  · exact FieldDecl.countP_isNotExpanded_fieldsOfList hlarger lines (Nat.zero_le limit)

/-- Two names that share a struct, whose body has a struct for two names, a line without a type and
an embedded type. -/
def sharedBodies : List FieldDecl :=
  let line (names : List String) (type : TypeExpr) : FieldDecl := ⟨names, type, none, default⟩
  [line ["A", "B"] (.struct
    [line ["C", "D"] (.struct [line ["E"] (.predeclared "int")]), line ["F"] .missing,
      line [] (.named none "G")])]

/-- Under the limit 1 both copies of both inner structs are cut, and each of the four is reported.
-/
theorem ofDecls_truncate_sharedBodies : 1 ≤ 2 ∧
    (ofDecls 1 "T" sharedBodies).1 = truncate 1 (ofDecls 2 "T" sharedBodies).1 ∧
    (atLevel 2 (ofDecls 2 "T" sharedBodies).1).map Field.depth = [2, 2, 2, 2] ∧
    (ofDecls 1 "T" sharedBodies).2.countP Diagnostic.isNotExpanded = 4 := by
  obtain ⟨htree, -, hcount⟩ := ofDecls_truncate (by decide : 1 ≤ 2) "T" sharedBodies
  exact ⟨by decide, htree, by decide, (hcount (by decide)).trans (by decide)⟩

end Field

end GoAtlas
