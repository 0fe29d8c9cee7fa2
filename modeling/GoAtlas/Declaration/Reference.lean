import GoAtlas.Source.TypeExpr

/-!
# References to types

A reference is what a declaration keeps of a type that it uses: enough to look the type up by name,
and its text otherwise.
-/

namespace GoAtlas

/-- A use of a type inside a declaration. -/
inductive Reference where
  /-- A declared name, with the package in front of it if there is one, or a pointer to it. -/
  | named (package : Option String) (name : String) (pointer : Bool)
  | predeclared (name : String)
  /-- A struct whose body is written in place. -/
  | inlineStruct
  /-- An interface whose body is written in place. -/
  | inlineInterface
  /-- Any other type, as its text. -/
  | verbatim (text : String)
  deriving DecidableEq, Repr, Inhabited

namespace Reference

/-- The reference that a type expression stands for. A pointer is kept as a pointer only when it
points to a declared name. -/
def ofExpr : TypeExpr → Reference
  | .named package name => named package name false
  | .predeclared name => predeclared name
  | .pointer (.named package name) => named package name true
  | .pointer target => verbatim ("*" ++ target.render)
  | .struct _ => inlineStruct
  | .interface _ => inlineInterface
  | .verbatim text => verbatim text
  | .missing => verbatim ""

/-- The name of the type referred to, without package and pointer. -/
def simpleName? : Reference → Option String
  | named _ name _ => some name
  | predeclared name => some name
  | _ => none

/-- Whether the reference names a type of another package. -/
def isQualified : Reference → Bool
  | named (some _) _ _ => true
  | _ => false

/-- The written form of a reference. -/
def display : Reference → String
  | named package name pointer =>
    (if pointer then "*" else "") ++
      (match package with
        | some p => p ++ "."
        | none => "") ++ name
  | predeclared name => name
  | inlineStruct => "struct\x7b...\x7d"
  | inlineInterface => "interface\x7b...\x7d"
  | verbatim text => text

end Reference

end GoAtlas
