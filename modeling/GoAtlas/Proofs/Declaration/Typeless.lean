import GoAtlas.Proofs.Declaration.Lines
import Mathlib.Algebra.BigOperators.Group.List.Basic

/-!
# Lines without a type

A line without a type is reported and gives no field. A line may stand in the body of a struct that
is written in place for several names; such a body is read once for each of the names, and so is
everything in it. So within the depth limit a line without a type is reported as many times as there
are ways to choose a name for each of the lines around it, nothing else is reported, and the fields
are those that the lines would give if those without a type were not there
(`Field.ofDecls_typeless`). It is reported exactly once when each line around it has one name.

A star in front of a type that is left out is a type of its own here: it embeds something called
`*`, and is not reported (`Field.ofDecls_misreports`).
-/

namespace GoAtlas

namespace FieldDecl

/-! ## The lines of a struct at every depth -/

/-- A line somewhere in a struct, with the lines whose bodies it stands in, the outermost first. -/
structure Nested where
  around : List FieldDecl
  line : FieldDecl

/-- How many times a line is read: the number of ways to choose a name for each line around it. -/
def Nested.copies (n : Nested) : Nat :=
  (n.around.map fun line => line.names.length).prod

/-- Whether a line has no type. -/
def Nested.isTypeless (n : Nested) : Bool :=
  n.line.type.isMissing

/-- A line in the body of another. -/
def Nested.inside (outer : FieldDecl) (n : Nested) : Nested :=
  ⟨outer :: n.around, n.line⟩

mutual

/-- A line with the lines at every depth of its body. -/
def nested : FieldDecl → List Nested
  | ⟨names, .struct body, tag, position⟩ =>
    ⟨[], ⟨names, .struct body, tag, position⟩⟩ ::
      (nestedOfList body).map (Nested.inside ⟨names, .struct body, tag, position⟩)
  | line => [⟨[], line⟩]

/-- The lines of a struct with those at every depth of their bodies. -/
def nestedOfList : List FieldDecl → List Nested
  | [] => []
  | line :: rest => nested line ++ nestedOfList rest

end

mutual

/-- How many structs are written in place inside each other in a line. -/
def nesting : FieldDecl → Nat
  | ⟨_, .struct body, _, _⟩ => nestingOfList body + 1
  | _ => 0

/-- How many structs are written in place inside each other in some lines, at most. -/
def nestingOfList : List FieldDecl → Nat
  | [] => 0
  | line :: rest => max (nesting line) (nestingOfList rest)

end

mutual

/-- A line without the lines in its body that have no type. -/
def typed : FieldDecl → FieldDecl
  | ⟨names, .struct body, tag, position⟩ => ⟨names, .struct (typedOfList body), tag, position⟩
  | line => line

/-- Some lines without those that have no type, at every depth. -/
def typedOfList : List FieldDecl → List FieldDecl
  | [] => []
  | line :: rest =>
    if line.type.isMissing then typedOfList rest else typed line :: typedOfList rest

end

variable {limit depth : Nat} {owner : String} {line : FieldDecl} {ns : List Nested}

/-- A line that holds no struct has no lines inside. -/
theorem nested_of_flat (h : ∀ body, line.type ≠ .struct body) : nested line = [⟨[], line⟩] := by
  obtain ⟨names, type, tag, position⟩ := line
  rw [nested]
  rintro names body tag position ⟨⟩
  exact h body rfl

theorem typed_of_flat (h : ∀ body, line.type ≠ .struct body) : typed line = line := by
  obtain ⟨names, type, tag, position⟩ := line
  rw [typed]
  rintro names body tag position ⟨⟩
  exact h body rfl

/-! ## What is left when the lines without a type are dropped -/

/-- A line without a type gives no field. -/
theorem fields_of_isMissing (h : line.type.isMissing = true) :
    fields limit owner depth line = ([], [typeless owner line.names line.position]) := by
  obtain ⟨names, type, tag, position⟩ := line
  cases type with
  | missing => rw [fields]
  | _ => cases h

/-- A plain line gives the same fields whatever its body may hold. -/
theorem fields_typed_of_plain (h : line.body? = none) :
    fields limit owner depth line.typed = fields limit owner depth line := by
  obtain ⟨names, type, tag, position⟩ := line
  cases type with
  | struct body =>
    -- the line embeds the struct, and the body is not looked at
    cases names with
    | cons name names => cases h
    | nil =>
      rw [typed, fields, fields]
      · rfl
      all_goals simp
  | _ => rw [typed_of_flat (by simp)]

/-- **Lines without a type leave no trace** in the fields. -/
theorem fieldsOfList_typedOfList (lines : List FieldDecl) :
    (fieldsOfList limit owner depth (typedOfList lines)).1 =
      (fieldsOfList limit owner depth lines).1 := by
  induction lines using linesInduction generalizing depth with
  | nil => rfl
  | plain line rest hline ih =>
    rw [typedOfList, fieldsOfList_cons]
    split
    · rename_i hmissing
      rw [fields_of_isMissing hmissing, ih, List.nil_append]
    · rw [fieldsOfList_cons, fields_typed_of_plain hline, ih]
  | body name names lines tag position rest ihlines ihrest =>
    rw [typedOfList, if_neg nofun, typed, fieldsOfList_cons, fieldsOfList_cons, ihrest]
    apply congrArg (· ++ (fieldsOfList limit owner depth rest).1)
    rcases Nat.lt_or_ge depth limit with hwithin | hdeep
    · rw [fields_of_body hwithin, fields_of_body hwithin, ihlines]
    · rw [fields_of_deep hdeep, fields_of_deep hdeep]

/-- No line without a type is left, at any depth. -/
theorem isTypeless_of_mem_typedOfList (lines : List FieldDecl) :
    ∀ n ∈ nestedOfList (typedOfList lines), n.isTypeless = false := by
  -- the induction of `typedOfList`: a line that is kept has a type itself
  induction lines using typedOfList.induct fun line =>
    line.type.isMissing = false → ∀ n ∈ nested line.typed, n.isTypeless = false with
  | case1 names body tag position ih _ n hn =>
    rw [typed, nested] at hn
    rcases List.mem_cons.mp hn with rfl | hn
    · rfl
    · obtain ⟨m, hm, rfl⟩ := List.mem_map.mp hn
      exact ih m hm
  | case2 line hflat hline n hn =>
    have hstruct : ∀ body, line.type ≠ .struct body := by
      intro body hbody
      obtain ⟨names, type, tag, position⟩ := line
      exact hflat names body tag position (congrArg (FieldDecl.mk names · tag position) hbody)
    rw [typed_of_flat hstruct, nested_of_flat hstruct] at hn
    rw [List.mem_singleton.mp hn]
    exact hline
  | case3 => exact nofun
  | case4 line rest hmissing ih =>
    rw [typedOfList, if_pos hmissing]
    exact ih
  | case5 line rest hmissing ihline ihrest =>
    rw [typedOfList, if_neg hmissing, nestedOfList]
    exact List.forall_mem_append.mpr ⟨ihline (Bool.eq_false_iff.mpr hmissing), ihrest⟩

/-! ## What is reported -/

/-- The reports of some lines without a type: as many for each as it is read. -/
def reportsOf (owner : String) (ns : List Nested) : List Diagnostic :=
  (ns.filter Nested.isTypeless).flatMap fun n =>
    List.replicate n.copies (typeless owner n.line.names n.line.position)

theorem reportsOf_append (ns ms : List Nested) :
    reportsOf owner (ns ++ ms) = reportsOf owner ns ++ reportsOf owner ms := by
  rw [reportsOf, List.filter_append, List.flatMap_append, reportsOf, reportsOf]

/-- The lines that stand in no body are read once. -/
theorem reportsOf_cons (line : FieldDecl) (ns : List Nested) :
    reportsOf owner (⟨[], line⟩ :: ns) = ownReports owner line ++ reportsOf owner ns := by
  have hline : (Nested.mk [] line).isTypeless = line.type.isMissing := rfl
  rw [reportsOf, List.filter_cons, hline, ownReports]
  split
  · exact List.flatMap_cons
  · rfl

theorem flatMap_replicate_perm {α β γ : Type} (names : List α) (xs : List β) (count : β → Nat)
    (report : β → γ) : (xs.flatMap fun x => List.replicate (names.length * count x) (report x)).Perm
      (names.flatMap fun _ => xs.flatMap fun x => List.replicate (count x) (report x)) := by
  induction names with
  | nil => simp
  | cons name names ih =>
    have hsplit : ∀ x, List.replicate ((name :: names).length * count x) (report x) =
        List.replicate (count x) (report x) ++
          List.replicate (names.length * count x) (report x) := by
      intro x
      rw [List.length_cons, Nat.succ_mul, Nat.add_comm, List.replicate_add]
    simp only [hsplit, List.flatMap_cons]
    exact (List.flatMap_append_perm xs _ _).symm.trans (ih.append_left _)

/-- **A body is read once for each name** of its line, and so is everything in it. -/
theorem reportsOf_inside_perm (owner : String) (outer : FieldDecl) (ns : List Nested) :
    (reportsOf owner (ns.map (Nested.inside outer))).Perm
      (outer.names.flatMap fun _ => reportsOf owner ns) := by
  rw [reportsOf, List.filter_map, List.flatMap_map]
  exact flatMap_replicate_perm outer.names (ns.filter Nested.isTypeless) Nested.copies
    fun n => typeless owner n.line.names n.line.position

/-- A plain line is reported by itself only. -/
theorem reportsOf_nested_of_plain (h : line.body? = none) :
    reportsOf owner (nested line) = ownReports owner line := by
  obtain ⟨names, type, tag, position⟩ := line
  cases type with
  | struct body =>
    -- the line has no name, so what is in its body is not read at all
    cases names with
    | cons name names => cases h
    | nil =>
      have hbody := reportsOf_inside_perm owner ⟨[], .struct body, tag, position⟩
        (nestedOfList body)
      rw [nested, reportsOf_cons, hbody.eq_nil, List.append_nil]
  | _ => rw [nested_of_flat (by simp), reportsOf_cons]; exact List.append_nil _

/-- **Lines without a type are reported** as many times as they are read, and nothing else is, as
long as the limit is not reached. -/
theorem reports_perm (owner : String) (lines : List FieldDecl)
    (h : depth + nestingOfList lines ≤ limit) :
    (fieldsOfList limit owner depth lines).2.Perm (reportsOf owner (nestedOfList lines)) := by
  induction lines using linesInduction generalizing depth with
  | nil => exact .refl []
  | plain line rest hline ih =>
    rw [nestingOfList] at h
    obtain ⟨fs, hfields, -⟩ := exists_fields_of_plain hline owner depth
    rw [fieldsOfList_cons, hfields, nestedOfList, reportsOf_append, reportsOf_nested_of_plain hline]
    exact (ih (by omega)).append_left _
  | body name names lines tag position rest ihlines ihrest =>
    rw [nestingOfList, nesting] at h
    rw [fieldsOfList_cons, nestedOfList, reportsOf_append, fields_of_body (by omega), nested,
      reportsOf_cons]
    apply List.Perm.append
    · -- the body is read for each name, one level nearer to the limit
      refine List.Perm.trans ?_ (reportsOf_inside_perm owner _ _).symm
      apply List.Perm.flatMap_left
      intro n _
      exact ihlines (by omega)
    · exact ihrest (by omega)

/-- A line is read once when each of the lines around it has one name. -/
theorem Nested.copies_eq_one {n : Nested} (h : ∀ line ∈ n.around, line.names.length = 1) :
    n.copies = 1 :=
  List.prod_eq_one (List.forall_mem_map.mpr h)

end FieldDecl

namespace Field

open FieldDecl (Nested nestedOfList nestingOfList typedOfList typeless)

/-- **Lines without a type**, within the depth limit, give no field: the fields are those of the
same lines without them. Each of them is reported once for each way to choose a name for the lines
around it, and nothing else is reported. So each is reported exactly once if all the lines around
such lines have one name. -/
theorem ofDecls_typeless {limit : Nat} {lines : List FieldDecl} (h : nestingOfList lines ≤ limit)
    (owner : String) :
    (ofDecls limit owner lines).1 = (ofDecls limit owner (typedOfList lines)).1 ∧
      (∀ n ∈ nestedOfList (typedOfList lines), n.isTypeless = false) ∧
      (ofDecls limit owner lines).2.Perm
        (((nestedOfList lines).filter Nested.isTypeless).flatMap fun n =>
          List.replicate n.copies (typeless owner n.line.names n.line.position)) ∧
      ((∀ n ∈ nestedOfList lines, n.isTypeless = true →
          ∀ line ∈ n.around, line.names.length = 1) →
        (ofDecls limit owner lines).2.Perm
          (((nestedOfList lines).filter Nested.isTypeless).map fun n =>
            typeless owner n.line.names n.line.position)) := by
  have hnesting : 0 + nestingOfList lines ≤ limit := (Nat.zero_add _).trans_le h
  have hreports := FieldDecl.reports_perm owner lines hnesting
  refine ⟨(FieldDecl.fieldsOfList_typedOfList lines).symm,
    FieldDecl.isTypeless_of_mem_typedOfList lines, hreports, fun hnames => ?_⟩
  refine hreports.trans (List.Perm.of_eq ?_)
  rw [FieldDecl.reportsOf, List.map_eq_flatMap]
  refine List.flatMap_congr fun n hn => ?_
  obtain ⟨hmem, htypeless⟩ := List.mem_filter.mp hn
  rw [Nested.copies_eq_one (hnames n hmem htypeless), List.replicate_one]

/-- Two names that share a struct with a line without a type. -/
def sharedTypeless : FieldDecl :=
  ⟨["A", "B"], .struct [⟨["X"], .missing, none, ⟨"a.go", 3, 2⟩⟩], none, ⟨"a.go", 2, 1⟩⟩

/-- The line in the shared struct is reported for both names. -/
theorem ofDecls_typeless_sharedTypeless : nestingOfList [sharedTypeless] ≤ 32 ∧
    (ofDecls 32 "T" [sharedTypeless]).2.Perm
      (List.replicate 2 (typeless "T" ["X"] ⟨"a.go", 3, 2⟩)) ∧
    (ofDecls 32 "T" [sharedTypeless]).1.map (fun f => (f.name, f.children)) =
      [("A", []), ("B", [])] := by
  obtain ⟨-, -, hreports, -⟩ := ofDecls_typeless (by decide : nestingOfList [sharedTypeless] ≤ 32) "T"
  exact ⟨by decide, hreports, by decide⟩

/-- A star in front of a type that is left out. -/
def starAlone : FieldDecl :=
  ⟨[], .pointer .missing, none, ⟨"a.go", 4, 1⟩⟩

/-- A line without a type is not always reported once: one in a struct that two names share is
reported twice, and a star without a type is not reported and gives a field. -/
theorem ofDecls_misreports :
    nestingOfList [sharedTypeless, starAlone] ≤ 32 ∧
      (ofDecls 32 "T" [sharedTypeless, starAlone]).2 =
        [typeless "T" ["X"] ⟨"a.go", 3, 2⟩, typeless "T" ["X"] ⟨"a.go", 3, 2⟩] ∧
      (ofDecls 32 "T" [sharedTypeless, starAlone]).1.map (fun f => (f.name, f.position)) =
        [("A", ⟨"a.go", 2, 1⟩), ("B", ⟨"a.go", 2, 1⟩), ("*", ⟨"a.go", 4, 1⟩)] := by
  decide

end Field

end GoAtlas
