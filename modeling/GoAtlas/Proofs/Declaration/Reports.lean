import GoAtlas.Declaration.Shaping

/-!
# The reports of reading declarations

Reading the declarations of a source reports only what cannot be used: declarations without a name
or a type (`Candidate.kind_of_mem_ofSpecs`) and fields without a type or too deep in other structs
(`Declaration.kind_of_mem_ofCandidate`). Names declared twice and cycles are not seen at this stage.
-/

namespace GoAtlas

variable {d : Diagnostic} {limit : Nat} {owner : String}

namespace Candidate

/-- One declaration is reported for its name or for its type. -/
theorem kind_of_ofSpec {s : TypeSpec} (h : ofSpec s = .error d) :
    d.kind = .malformedDeclaration := by
  rw [ofSpec] at h
  split at h
  · cases h
    rfl
  · split at h
    · cases h
      rfl
    · cases h
      rfl
    · cases h

/-- Declarations that are no candidates are reported as such. -/
theorem kind_of_mem_ofSpecs {specs : List TypeSpec} (hd : d ∈ (ofSpecs specs).2) :
    d.kind = .malformedDeclaration := by
  obtain ⟨s, -, hs⟩ := List.mem_filterMap.mp hd
  split at hs
  · cases hs
  · rename_i report hreport
    obtain rfl := Option.some.inj hs
    exact kind_of_ofSpec hreport

end Candidate

namespace FieldDecl

/-- **Fields are reported** as declarations that cannot be used, at every depth. -/
theorem kind_of_mem_fieldsOfList {depth : Nat} {lines : List FieldDecl} :
    d ∈ (fieldsOfList limit owner depth lines).2 → d.kind = .malformedDeclaration := by
  -- the induction of the reader: over the lines of a body, and over the body that a line holds
  induction depth, lines using fieldsOfList.induct limit owner fun depth line =>
    d ∈ (fields limit owner depth line).2 → d.kind = .malformedDeclaration with
  | case1 depth names tag position hd =>
    rw [fields, List.mem_singleton] at hd
    rw [hd]
    rfl
  | case2 depth type tag position htype hd =>
    rw [fields] at hd
    · cases hd
    · exact htype
  | case3 depth name names body tag position hdeep hd =>
    rw [fields, if_pos hdeep] at hd
    obtain ⟨n, -, rfl⟩ := List.mem_map.mp hd
    rfl
  | case4 depth name names body tag position hdeep ih hd =>
    rw [fields, if_neg hdeep] at hd
    obtain ⟨n, -, hd⟩ := List.mem_flatMap.mp hd
    exact ih hd
  | case5 depth name names type tag position hmissing hstruct hd =>
    rw [fields] at hd
    · cases hd
    · exact hmissing
    · exact hstruct
  | case6 depth =>
    intro hd
    rw [fieldsOfList] at hd
    cases hd
  | case7 depth line rest ihline ihrest =>
    intro hd
    rw [fieldsOfList] at hd
    rcases List.mem_append.mp hd with hd | hd
    · exact ihline hd
    · exact ihrest hd

end FieldDecl

/-- The fields of a candidate are reported as declarations that cannot be used. -/
theorem Declaration.kind_of_mem_ofCandidate {config : Config} {c : Candidate}
    (hd : d ∈ (ofCandidate config c).2) : d.kind = .malformedDeclaration := by
  rw [ofCandidate] at hd
  dsimp only at hd
  cases htype : c.type with
  | struct lines =>
    rw [htype] at hd
    exact FieldDecl.kind_of_mem_fieldsOfList hd
  | _ =>
    rw [htype] at hd
    cases hd

end GoAtlas
