import GoAtlas.Declaration.Reference

/-!
# Declarations

A declaration has a name and one of three shapes: it is an alias of another type, a struct with its
fields, or an interface with its methods, embedded interfaces and type sets. Embedded struct fields
give rise to embeddings, the edges of the type graph.
-/

namespace GoAtlas

/-- A field of a struct. A field whose type is a struct written in place carries the fields of that
struct as its children; the depth counts the structs around it. -/
structure Field where
  name : String
  reference : Reference
  embedded : Bool
  depth : Nat
  tag : Option String
  position : Position
  children : List Field
  deriving Inhabited

mutual

/-- The equality test on fields. -/
def Field.decEq : (a b : Field) → Decidable (a = b)
  | ⟨n, r, e, d, t, p, cs⟩, ⟨n', r', e', d', t', p', cs'⟩ =>
    match Field.decEqList cs cs' with
    | isTrue h =>
      decidable_of_iff (n = n' ∧ r = r' ∧ e = e' ∧ d = d' ∧ t = t' ∧ p = p') (by simp [h])
    | isFalse h => isFalse fun eq => h (Field.mk.inj eq).2.2.2.2.2.2

/-- The equality test on lists of fields. -/
def Field.decEqList : (a b : List Field) → Decidable (a = b)
  | [], [] => isTrue rfl
  | [], _ :: _ | _ :: _, [] => isFalse nofun
  | x :: xs, y :: ys =>
    match Field.decEq x y, Field.decEqList xs ys with
    | isTrue e, isTrue f => isTrue (by rw [e, f])
    | isFalse e, _ => isFalse fun eq => e (List.cons.inj eq).1
    | _, isFalse f => isFalse fun eq => f (List.cons.inj eq).2

end

instance : DecidableEq Field := Field.decEq

/-- A method of an interface: one reference for each parameter and each result. -/
structure Signature where
  name : String
  params : List Reference
  results : List Reference
  position : Position
  deriving DecidableEq, Inhabited

namespace Signature

/-- The written form of a signature. A single result stands without parentheses. -/
def display (s : Signature) : String :=
  s.name ++ "(" ++ ", ".intercalate (s.params.map Reference.display) ++ ")" ++
    match s.results.map Reference.display with
    | [] => ""
    | [result] => " " ++ result
    | results => " (" ++ ", ".intercalate results ++ ")"

end Signature

/-- What a declared name stands for. -/
inductive Shape where
  | aliasType (target : Reference)
  | struct (fields : List Field)
  | interface (methods : List Signature) (embeds : List Reference) (constraints : List String)
  deriving DecidableEq, Inhabited

/-- The three kinds of shape. -/
inductive ShapeTag where
  | aliasType
  | struct
  | interface
  deriving DecidableEq, Repr, Inhabited

namespace Shape

/-- The kind of a shape. -/
def tag : Shape → ShapeTag
  | aliasType _ => .aliasType
  | struct _ => .struct
  | interface .. => .interface

/-- The direct fields of a shape; only a struct has any. -/
def fields : Shape → List Field
  | struct fields => fields
  | _ => []

/-- The methods that a shape lists itself; only an interface has any. -/
def methods : Shape → List Signature
  | interface methods _ _ => methods
  | _ => []

end Shape

/-- A named type. -/
structure Declaration where
  name : String
  doc : Option String
  typeParams : Option String
  isAlias : Bool
  position : Position
  shape : Shape
  deriving DecidableEq, Inhabited

namespace Declaration

/-- The direct fields of a declaration; only a struct has any. -/
def fields (d : Declaration) : List Field :=
  d.shape.fields

end Declaration

/-- An embedding of one type in another, by the text of the embedded field. -/
structure Embedding where
  owner : String
  target : Reference
  position : Position
  deriving DecidableEq, Inhabited

namespace Embedding

/-- The name of the embedded type when it carries no package. -/
def targetName? (e : Embedding) : Option String :=
  match e.target with
  | .named none name _ => some name
  | _ => none

end Embedding

namespace Declaration

/-- The embeddings of a declaration: one for each direct field that embeds its type, in the order of
the fields. -/
def embeddings (d : Declaration) : List Embedding :=
  (d.fields.filter Field.embedded).map fun field =>
    { owner := d.name, target := field.reference, position := field.position }

end Declaration

end GoAtlas
