import GoAtlas.Config
import GoAtlas.Declaration.Candidate
import GoAtlas.Declaration.Fields

/-!
# The shape of a declaration

The shape follows from the type alone: a struct body makes a struct, an interface body an interface,
and every other type an alias.
-/

namespace GoAtlas

namespace Param

/-- The references of some parameters: one for each name, and one for a type without a name. -/
def references (p : Param) : List Reference :=
  let reference :=
    if p.variadic then Reference.verbatim ("..." ++ p.type.render) else .ofExpr p.type
  List.replicate (max p.names.length 1) reference

end Param

namespace Element

/-- The method of an interface line that declares one. -/
def signature? : Element → Option Signature
  | method name params results position =>
    some
      { name
        params := params.flatMap Param.references
        results := results.flatMap Param.references
        position }
  | _ => none

/-- The reference of an interface line that embeds an interface. -/
def embed? : Element → Option Reference
  | embed type => some (.ofEmbedded type)
  | _ => none

/-- The text of an interface line that gives a set of types. -/
def constraint? : Element → Option String
  | constraint text => some text
  | _ => none

end Element

namespace Shape

/-- The shape of an interface body. -/
def ofElements (elements : List Element) : Shape :=
  interface (elements.filterMap Element.signature?) (elements.filterMap Element.embed?)
    (elements.filterMap Element.constraint?)

/-- The shape that a type gives to the declaration `owner`, with the reports of its fields. -/
def ofExpr (limit : Nat) (owner : String) : TypeExpr → Shape × List Diagnostic
  | .struct lines =>
    let (fields, reports) := Field.ofDecls limit owner lines
    (struct fields, reports)
  | .interface elements => (ofElements elements, [])
  | .named package name => (aliasType (.named package name false), [])
  | .predeclared name => (aliasType (.predeclared name), [])
  | type => (aliasType (.verbatim type.render), [])

end Shape

/-- The declaration that a candidate makes, with the reports of its fields. The doc comment is kept
on demand. -/
def Declaration.ofCandidate (config : Config) (c : Candidate) : Declaration × List Diagnostic :=
  let (shape, reports) := Shape.ofExpr config.maxInlineDepth c.name c.type
  ({ name := c.name
     doc := if config.keepDocComments then c.doc else none
     typeParams := c.typeParams
     isAlias := c.isAlias
     position := c.position
     shape },
    reports)

end GoAtlas
