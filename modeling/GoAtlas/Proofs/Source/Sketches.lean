import GoAtlas.Declaration.Candidate
import Mathlib.Data.List.Basic
import Mathlib.Tactic.SplitIfs

/-!
# Sketches of declarations

A sketch is what remains of a declaration when everything is put at one place and the texts that
types are kept as are replaced by others. Two sketches are of interest: `unplaced` keeps the texts,
so that two declarations are the same up to places when they are the same once they are unplaced,
and `outline` empties them, since the text of a type has the comments of the source in it.

What is a candidate for the graph does not depend on places (`Candidate.ofSpecs_unplaced`).
-/

namespace GoAtlas

/-! ## Types -/

mutual

/-- A type expression with every part at one place and with other texts. -/
def TypeExpr.sketch (f : String → String) : TypeExpr → TypeExpr
  | .pointer target => .pointer (target.sketch f)
  | .struct fields => .struct (FieldDecl.sketchList f fields)
  | .interface elements => .interface (Element.sketchList f elements)
  | .verbatim text => .verbatim (f text)
  | type => type

/-- A line of a struct in a sketch. -/
def FieldDecl.sketch (f : String → String) : FieldDecl → FieldDecl
  | ⟨names, type, tag, _⟩ => ⟨names, type.sketch f, tag, default⟩

/-- A line of an interface in a sketch. -/
def Element.sketch (f : String → String) : Element → Element
  | .method name params results _ =>
    .method name (Param.sketchList f params) (Param.sketchList f results) default
  | .embed type => .embed (type.sketch f)
  | .constraint text => .constraint (f text)

/-- Parameters in a sketch. -/
def Param.sketch (f : String → String) : Param → Param
  | ⟨names, type, variadic⟩ => ⟨names, type.sketch f, variadic⟩

/-- The lines of a struct in a sketch. -/
def FieldDecl.sketchList (f : String → String) : List FieldDecl → List FieldDecl
  | [] => []
  | x :: rest => x.sketch f :: FieldDecl.sketchList f rest

/-- The lines of an interface in a sketch. -/
def Element.sketchList (f : String → String) : List Element → List Element
  | [] => []
  | x :: rest => x.sketch f :: Element.sketchList f rest

/-- A list of parameters in a sketch. -/
def Param.sketchList (f : String → String) : List Param → List Param
  | [] => []
  | x :: rest => x.sketch f :: Param.sketchList f rest

end

/-- Lists are sketched one by one, here and in the next two laws. -/
theorem FieldDecl.sketchList_eq_map (f : String → String) (xs : List FieldDecl) :
    sketchList f xs = xs.map (sketch f) := by
  induction xs with
  | nil => rfl
  | cons x rest ih => rw [sketchList, ih, List.map_cons]

theorem Element.sketchList_eq_map (f : String → String) (xs : List Element) :
    sketchList f xs = xs.map (sketch f) := by
  induction xs with
  | nil => rfl
  | cons x rest ih => rw [sketchList, ih, List.map_cons]

theorem Param.sketchList_eq_map (f : String → String) (xs : List Param) :
    sketchList f xs = xs.map (sketch f) := by
  induction xs with
  | nil => rfl
  | cons x rest ih => rw [sketchList, ih, List.map_cons]

/-- A type expression without its places. -/
def TypeExpr.unplaced : TypeExpr → TypeExpr :=
  sketch id

/-- A type expression without its places and without the texts in it. -/
def TypeExpr.outline : TypeExpr → TypeExpr :=
  sketch fun _ => ""

/-! ## Declarations -/

/-- A declaration of the source at no place of its own. -/
def TypeSpec.unplaced (s : TypeSpec) : TypeSpec :=
  { s with type := s.type.map TypeExpr.unplaced, position := default }

/-- An item at no place of its own. -/
def Item.unplaced : Item → Item
  | .single s => .single s.unplaced
  | .group _ members => .group default (members.map TypeSpec.unplaced)

namespace Candidate

/-- A candidate at no place of its own. -/
def unplaced (c : Candidate) : Candidate :=
  { c with type := c.type.unplaced, position := default }

/-- A declaration is a candidate wherever it stands. -/
theorem toOption_ofSpec_unplaced (s : TypeSpec) :
    (ofSpec s.unplaced).toOption = (ofSpec s).toOption.map unplaced := by
  unfold ofSpec
  dsimp only [TypeSpec.unplaced]
  split_ifs
  · rfl
  · cases s.type with
    | none => rfl
    | some type =>
      cases type <;> simp [TypeExpr.unplaced, TypeExpr.sketch, Except.toOption, unplaced]

/-- Which candidates there are among some declarations does not depend on places. -/
theorem ofSpecs_unplaced (specs : List TypeSpec) :
    (ofSpecs (specs.map TypeSpec.unplaced)).1 = (ofSpecs specs).1.map unplaced := by
  rw [ofSpecs, ofSpecs, List.filterMap_map, List.map_filterMap]
  exact List.filterMap_congr fun s _ => toOption_ofSpec_unplaced s

/-- A declaration with a name and a type is a candidate. -/
theorem isSome_toOption_ofSpec {s : TypeSpec} {name : String} {type : TypeExpr}
    (hname : s.name = some name) (hblank : (Text.trim name).isEmpty = false)
    (htype : s.type = some type) (hmissing : type ≠ .missing) :
    (ofSpec s).toOption.isSome = true := by
  rw [ofSpec, hname, htype]
  dsimp only [Option.map_some, Option.getD_some]
  rw [if_neg (by simp [hblank])]
  cases type <;> first | rfl | exact absurd rfl hmissing

/-- What is a candidate has the doc of its declaration. -/
theorem exists_of_isSome_toOption_ofSpec {s : TypeSpec} (h : (ofSpec s).toOption.isSome = true) :
    ∃ c, ofSpec s = .ok c ∧ c.doc = s.doc := by
  unfold ofSpec at h ⊢
  dsimp only at h ⊢
  split_ifs at h ⊢
  · cases h
  · split at h
    · cases h
    · cases h
    · exact ⟨_, rfl, rfl⟩

end Candidate

end GoAtlas
