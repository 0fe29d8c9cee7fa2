import GoAtlas.Source.Position

/-!
# Type expressions as written

A type expression keeps the structure that the rest of the library looks at (names, pointers,
struct and interface bodies) and the plain text of everything else. A type that the source leaves
out is `missing`.

Field lists, interface elements and parameter lists contain type expressions in turn, so the four
types are declared together, and so are their equality tests.
-/

namespace GoAtlas

mutual

/-- A type as it is written. -/
inductive TypeExpr where
  /-- A declared name, with the package in front of it if there is one. -/
  | named (package : Option String) (name : String)
  /-- One of the names that the language declares itself. -/
  | predeclared (name : String)
  | pointer (target : TypeExpr)
  | struct (fields : List FieldDecl)
  | interface (elements : List Element)
  /-- Any other type, as its text. -/
  | verbatim (text : String)
  /-- No type where one is expected. -/
  | missing

/-- A line of a struct body. It has no name when it embeds its type. -/
structure FieldDecl where
  names : List String
  type : TypeExpr
  tag : Option String
  position : Position

/-- A line of an interface body. -/
inductive Element where
  | method (name : String) (params results : List Param) (position : Position)
  /-- An interface that is embedded by its name. -/
  | embed (type : TypeExpr)
  /-- A set of types, as its text. -/
  | constraint (text : String)

/-- Parameters or results that share one type. -/
structure Param where
  names : List String
  type : TypeExpr
  variadic : Bool

end

instance : Inhabited TypeExpr := ⟨.missing⟩
instance : Inhabited FieldDecl := ⟨⟨[], .missing, none, default⟩⟩
instance : Inhabited Element := ⟨.constraint ""⟩
instance : Inhabited Param := ⟨⟨[], .missing, false⟩⟩

namespace TypeExpr

/-- The written form of a type expression on one line, with the bodies of structs and interfaces
left out. -/
def render : TypeExpr → String
  | named (some package) name => package ++ "." ++ name
  | named none name => name
  | predeclared name => name
  | pointer target => "*" ++ target.render
  | struct _ => "struct\x7b...\x7d"
  | interface _ => "interface\x7b...\x7d"
  | verbatim text => text
  | missing => ""

/-- Whether the type is left out. -/
def isMissing : TypeExpr → Bool
  | missing => true
  | _ => false

end TypeExpr

/-! ## Equality tests -/

mutual

/-- The equality test on type expressions. -/
def TypeExpr.decEq : (a b : TypeExpr) → Decidable (a = b)
  | .named p n, b =>
    match b with
    | .named q m => decidable_of_iff (p = q ∧ n = m) (by simp)
    | .predeclared _ | .pointer _ | .struct _ | .interface _ | .verbatim _ | .missing =>
      isFalse nofun
  | .predeclared n, b =>
    match b with
    | .predeclared m => decidable_of_iff (n = m) (by simp)
    | .named .. | .pointer _ | .struct _ | .interface _ | .verbatim _ | .missing => isFalse nofun
  | .pointer t, b =>
    match b with
    | .pointer u =>
      match TypeExpr.decEq t u with
      | isTrue h => isTrue (h ▸ rfl)
      | isFalse h => isFalse fun e => h (TypeExpr.pointer.inj e)
    | .named .. | .predeclared _ | .struct _ | .interface _ | .verbatim _ | .missing =>
      isFalse nofun
  | .struct fs, b =>
    match b with
    | .struct gs =>
      match FieldDecl.decEqList fs gs with
      | isTrue h => isTrue (h ▸ rfl)
      | isFalse h => isFalse fun e => h (TypeExpr.struct.inj e)
    | .named .. | .predeclared _ | .pointer _ | .interface _ | .verbatim _ | .missing =>
      isFalse nofun
  | .interface es, b =>
    match b with
    | .interface gs =>
      match Element.decEqList es gs with
      | isTrue h => isTrue (h ▸ rfl)
      | isFalse h => isFalse fun e => h (TypeExpr.interface.inj e)
    | .named .. | .predeclared _ | .pointer _ | .struct _ | .verbatim _ | .missing => isFalse nofun
  | .verbatim s, b =>
    match b with
    | .verbatim t => decidable_of_iff (s = t) (by simp)
    | .named .. | .predeclared _ | .pointer _ | .struct _ | .interface _ | .missing =>
      isFalse nofun
  | .missing, b =>
    match b with
    | .missing => isTrue rfl
    | .named .. | .predeclared _ | .pointer _ | .struct _ | .interface _ | .verbatim _ =>
      isFalse nofun

/-- The equality test on struct lines. -/
def FieldDecl.decEq : (a b : FieldDecl) → Decidable (a = b)
  | ⟨ns, t, g, p⟩, ⟨ms, u, h, q⟩ =>
    match TypeExpr.decEq t u with
    | isTrue e => decidable_of_iff (ns = ms ∧ g = h ∧ p = q) (by simp [e])
    | isFalse e => isFalse fun eq => e (FieldDecl.mk.inj eq).2.1

/-- The equality test on interface lines. -/
def Element.decEq : (a b : Element) → Decidable (a = b)
  | .method n ps rs p, b =>
    match b with
    | .method m qs ss q =>
      match Param.decEqList ps qs, Param.decEqList rs ss with
      | isTrue e, isTrue f => decidable_of_iff (n = m ∧ p = q) (by simp [e, f])
      | isFalse e, _ => isFalse fun eq => e (Element.method.inj eq).2.1
      | _, isFalse f => isFalse fun eq => f (Element.method.inj eq).2.2.1
    | .embed _ | .constraint _ => isFalse nofun
  | .embed t, b =>
    match b with
    | .embed u =>
      match TypeExpr.decEq t u with
      | isTrue h => isTrue (h ▸ rfl)
      | isFalse h => isFalse fun e => h (Element.embed.inj e)
    | .method .. | .constraint _ => isFalse nofun
  | .constraint s, b =>
    match b with
    | .constraint t => decidable_of_iff (s = t) (by simp)
    | .method .. | .embed _ => isFalse nofun

/-- The equality test on parameters. -/
def Param.decEq : (a b : Param) → Decidable (a = b)
  | ⟨ns, t, v⟩, ⟨ms, u, w⟩ =>
    match TypeExpr.decEq t u with
    | isTrue e => decidable_of_iff (ns = ms ∧ v = w) (by simp [e])
    | isFalse e => isFalse fun eq => e (Param.mk.inj eq).2.1

/-- The equality test on struct bodies. -/
def FieldDecl.decEqList : (a b : List FieldDecl) → Decidable (a = b)
  | [], [] => isTrue rfl
  | [], _ :: _ | _ :: _, [] => isFalse nofun
  | x :: xs, y :: ys =>
    match FieldDecl.decEq x y, FieldDecl.decEqList xs ys with
    | isTrue e, isTrue f => isTrue (by rw [e, f])
    | isFalse e, _ => isFalse fun eq => e (List.cons.inj eq).1
    | _, isFalse f => isFalse fun eq => f (List.cons.inj eq).2

/-- The equality test on interface bodies. -/
def Element.decEqList : (a b : List Element) → Decidable (a = b)
  | [], [] => isTrue rfl
  | [], _ :: _ | _ :: _, [] => isFalse nofun
  | x :: xs, y :: ys =>
    match Element.decEq x y, Element.decEqList xs ys with
    | isTrue e, isTrue f => isTrue (by rw [e, f])
    | isFalse e, _ => isFalse fun eq => e (List.cons.inj eq).1
    | _, isFalse f => isFalse fun eq => f (List.cons.inj eq).2

/-- The equality test on parameter lists. -/
def Param.decEqList : (a b : List Param) → Decidable (a = b)
  | [], [] => isTrue rfl
  | [], _ :: _ | _ :: _, [] => isFalse nofun
  | x :: xs, y :: ys =>
    match Param.decEq x y, Param.decEqList xs ys with
    | isTrue e, isTrue f => isTrue (by rw [e, f])
    | isFalse e, _ => isFalse fun eq => e (List.cons.inj eq).1
    | _, isFalse f => isFalse fun eq => f (List.cons.inj eq).2

end

instance : DecidableEq TypeExpr := TypeExpr.decEq
instance : DecidableEq FieldDecl := FieldDecl.decEq
instance : DecidableEq Element := Element.decEq
instance : DecidableEq Param := Param.decEq

end GoAtlas
