import GoAtlas.Source.Position

/-!
# Diagnostics

A diagnostic reports a problem that does not stop the work: a declaration that cannot be used, a
name declared twice, a cycle of embeddings, a name that is not declared. A pass collects its
diagnostics in a list, in the order in which it meets the problems.
-/

namespace GoAtlas

/-- The kinds of problem that are reported. -/
inductive DiagnosticKind where
  | malformedDeclaration
  | duplicateTypeName
  | embeddingCycle
  | notFound
  deriving DecidableEq, Repr, Inhabited

namespace DiagnosticKind

/-- The name of a kind in messages. -/
def label : DiagnosticKind → String
  | malformedDeclaration => "MalformedDeclaration"
  | duplicateTypeName => "DuplicateTypeName"
  | embeddingCycle => "EmbeddingCycle"
  | notFound => "NotFound"

end DiagnosticKind

/-- A problem, the type it concerns, its place, and the other names involved. -/
structure Diagnostic where
  kind : DiagnosticKind
  message : String
  subject : Option String
  position : Option Position
  related : List String
  deriving DecidableEq, Inhabited

namespace Diagnostic

/-- A declaration, or a part of one, that cannot be used. -/
def malformed (position : Position) (message : String) (subject : Option String) : Diagnostic :=
  { kind := .malformedDeclaration, message, subject, position := some position, related := [] }

/-- A declaration of a name that is already declared at `first`. -/
def duplicate (name : String) (position first : Position) : Diagnostic :=
  { kind := .duplicateTypeName
    message := "type " ++ name ++ " already declared at " ++ first.display
    subject := some name
    position := some position
    related := [first.display] }

/-- A cycle of embeddings, as the closed path of its members. -/
def cycle (members : List String) (position : Option Position) : Diagnostic :=
  { kind := .embeddingCycle
    message := "embedding cycle: " ++ " -> ".intercalate members
    subject := members.head?
    position
    related := members }

/-- A name that is not declared. -/
def undeclared (name : String) : Diagnostic :=
  { kind := .notFound
    message := "no type named " ++ name
    subject := some name
    position := none
    related := [] }

/-- The written form of a diagnostic, with its place in front when it has one. -/
def display (d : Diagnostic) : String :=
  (match d.position with
    | some position => position.display ++ ": "
    | none => "") ++ d.kind.label ++ ": " ++ d.message

end Diagnostic

end GoAtlas
