import GoAtlas.Proofs.Source.Declarations

/-!
# Printing declarations

Declarations are printed in the usual layout: one to a line, a field or an element of a body to a
line and one tab deeper than the word that opens it, a doc as line comments directly above, and a
blank line between two items at top level. What is printed is a list of phrases; the text is these
phrases written out.

How a parser cuts a string literal into parts does not matter to declarations, so the printer is
told: it is given the phrase of each literal.

A declaration is printed at a place. `placed` gives it the places that its parts come to stand at,
and changes nothing else (`Item.unplaced_placed`).
-/

namespace GoAtlas

/-! ## Pieces of a line -/

namespace Phrase

/-- The indentation at some depth. -/
def tabs (depth : Nat) : String :=
  String.ofList (List.replicate depth '\t')

/-- A mark or a reserved word behind a gap. -/
def mark (gap text : String) : Phrase :=
  leaf (.symbol text) none gap text

/-- Names with commas between them, the first behind a gap. -/
def names (kind : NodeKind) (gap : String) : List String → List Phrase
  | [] => []
  | name :: more =>
    leaf kind (some .name) gap name ::
      more.flatMap fun text => [mark "" ",", leaf kind (some .name) " " text]

/-- The gap behind names: a blank, or the gap in front of them if there are none. -/
def gapBehind (names : List String) (gap : String) : String :=
  if names.isEmpty then gap else " "

/-- The gap in front of the first line of a body whose lines stand at some depth. -/
def firstGap (depth : Nat) : String :=
  "\n" ++ tabs depth

/-- The braces of a body around its lines. -/
def braces (depth : Nat) (lines : List Phrase) : List Phrase :=
  if lines.isEmpty then [mark "" "\x7b", mark "" "\x7d"]
  else mark " " "\x7b" :: (lines ++ [mark (tabs depth) "\x7d"])

/-- A list of parameters around its entries, behind a gap. -/
def parameters (field : NodeField) (gap : String) (entries : List Phrase) : Phrase :=
  node .parameterList (some field) (mark gap "(" :: (entries ++ [mark "" ")"]))

/-- A comma, if anything follows. -/
def commaBefore {α : Type} (rest : List α) : List Phrase :=
  if rest.isEmpty then [] else [mark "" ","]

end Phrase

open Phrase

/-- The name of a type behind a gap. -/
def TypeExpr.namePhrase (field : Option NodeField) (gap : String) : TypeExpr → Phrase
  | .named (some package) name =>
    .node .qualifiedType field
      [.leaf .packageIdentifier (some .package) gap package, mark "" ".",
        .leaf .typeIdentifier (some .name) "" name]
  | .named none name | .predeclared name => .leaf .typeIdentifier field gap name
  | _ => .absent .typeIdentifier field

/-- A type in a line of a struct without names: a name, perhaps behind a star. -/
def TypeExpr.embeddedPhrases (gap : String) : TypeExpr → List Phrase
  | .pointer target => [mark gap "*", target.namePhrase (some .type) ""]
  | type => [type.namePhrase (some .type) gap]

/-- Whether results stand without parentheses: there is none, or one that is only a type. -/
def Param.areBare : List Param → Bool
  | [] => true
  | [⟨names, _, variadic⟩] => names.isEmpty && !variadic
  | _ => false

/-! ## Types -/

section Types

variable (literal : String → Phrase)

/-- The tag of a field, if it has one. -/
def Phrase.tag (tag : Option String) : List Phrase :=
  tag.toList.map fun text => ((literal text).withGap " ").within .tag

mutual

/-- A type behind a gap, in a line at some depth. -/
def TypeExpr.phrase (field : Option NodeField) (depth : Nat) (gap : String) : TypeExpr → Phrase
  | .pointer target => .node .pointerType field [mark gap "*", target.namePhrase none ""]
  | .struct fields =>
    .node .structType field
      [mark gap "struct",
        .node .fieldDeclarationList none
          (braces depth (FieldDecl.phrases (depth + 1) (firstGap (depth + 1)) fields))]
  | .interface elements =>
    .node .interfaceType field
      (mark gap "interface" ::
        braces depth (Element.phrases (depth + 1) (firstGap (depth + 1)) elements))
  | type => type.namePhrase field gap

/-- A line of a struct behind a gap. -/
def FieldDecl.phrase (depth : Nat) (gap : String) : FieldDecl → Phrase
  | ⟨names, type, tag, _⟩ =>
    .node .fieldDeclaration none
      ((if names.isEmpty then type.embeddedPhrases gap
        else Phrase.names .fieldIdentifier gap names ++ [type.phrase (some .type) depth " "]) ++
        Phrase.tag literal tag)

/-- A line of an interface behind a gap. -/
def Element.phrase (depth : Nat) (gap : String) : Element → Phrase
  | .method name params results _ =>
    .node .methodElem none
      (.leaf .fieldIdentifier (some .name) gap name ::
        parameters .parameters "" (Param.phrases depth "" params) ::
          (if Param.areBare results then Param.barePhrases depth results
            else [parameters .result " " (Param.phrases depth "" results)]))
  | .embed type => .node .typeElem none [type.namePhrase none gap]
  | .constraint _ => .absent .typeElem none

/-- Parameters that share a type, behind a gap. -/
def Param.phrase (depth : Nat) (gap : String) : Param → Phrase
  | ⟨names, type, false⟩ =>
    .node .parameterDeclaration none
      (Phrase.names .identifier gap names ++ [type.phrase (some .type) depth (gapBehind names gap)])
  | ⟨names, type, true⟩ =>
    .node .variadicParameterDeclaration none
      (Phrase.names .identifier gap names ++
        [mark (gapBehind names gap) "...", type.phrase (some .type) depth ""])

/-- The lines of a struct, the first behind a gap. -/
def FieldDecl.phrases (depth : Nat) (gap : String) : List FieldDecl → List Phrase
  | [] => []
  | x :: rest => x.phrase depth gap :: newline :: FieldDecl.phrases depth (tabs depth) rest

/-- The lines of an interface, the first behind a gap. -/
def Element.phrases (depth : Nat) (gap : String) : List Element → List Phrase
  | [] => []
  | x :: rest => x.phrase depth gap :: newline :: Element.phrases depth (tabs depth) rest

/-- A list of parameters, the first behind a gap. -/
def Param.phrases (depth : Nat) (gap : String) : List Param → List Phrase
  | [] => []
  | x :: rest => x.phrase depth gap :: (commaBefore rest ++ Param.phrases depth " " rest)

/-- A result that is only a type. -/
def Param.barePhrases (depth : Nat) : List Param → List Phrase
  | [] => []
  | ⟨_, type, _⟩ :: _ => [type.phrase (some .result) depth " "]

end

/-! ### Types at their places -/

variable (unit : String)

mutual

/-- A type with the places that its parts have when it is printed at a place. -/
def TypeExpr.placed (depth : Nat) (s : Place) : TypeExpr → TypeExpr
  | .struct fields =>
    .struct (FieldDecl.placedList (depth + 1) (firstGap (depth + 1))
      (s.advance "struct \x7b".toList) fields)
  | .interface elements =>
    .interface (Element.placedList (depth + 1) (firstGap (depth + 1))
      (s.advance "interface \x7b".toList) elements)
  | type => type

/-- A line of a struct at its place. -/
def FieldDecl.placed (depth : Nat) (s : Place) : FieldDecl → FieldDecl
  | ⟨names, type, tag, _⟩ =>
    { names
      type := type.placed depth
        (s.advance (charsOfList (Phrase.names .fieldIdentifier "" names) ++ [' ']))
      tag
      position := s.position unit }

/-- A line of an interface at its place. -/
def Element.placed (depth : Nat) (s : Place) : Element → Element
  | .method name params results _ =>
    let behind := s.advance (name.toList ++
      (parameters .parameters "" (Param.phrases literal depth "" params)).chars)
    .method name
      (Param.placedList depth "" (s.advance (name.toList ++ ['('])) params)
      (if Param.areBare results then Param.placedBare depth (behind.advance [' ']) results
        else Param.placedList depth "" (behind.advance [' ', '(']) results)
      (s.position unit)
  | element => element

/-- Parameters that share a type, at their place. -/
def Param.placed (depth : Nat) (s : Place) : Param → Param
  | ⟨names, type, variadic⟩ =>
    { names
      type := type.placed depth
        (s.advance (charsOfList (Phrase.names .identifier "" names) ++
          ((gapBehind names "").toList ++ if variadic then ['.', '.', '.'] else [])))
      variadic }

/-- The lines of a struct at their places, the first behind a gap. -/
def FieldDecl.placedList (depth : Nat) (gap : String) (s : Place) :
    List FieldDecl → List FieldDecl
  | [] => []
  | x :: rest =>
    x.placed depth (s.advance gap.toList) ::
      FieldDecl.placedList depth (tabs depth)
        (s.advance (charsOfList [x.phrase literal depth gap, newline])) rest

/-- The lines of an interface at their places, the first behind a gap. -/
def Element.placedList (depth : Nat) (gap : String) (s : Place) : List Element → List Element
  | [] => []
  | x :: rest =>
    x.placed depth (s.advance gap.toList) ::
      Element.placedList depth (tabs depth)
        (s.advance (charsOfList [x.phrase literal depth gap, newline])) rest

/-- A list of parameters at their places, the first behind a gap. -/
def Param.placedList (depth : Nat) (gap : String) (s : Place) : List Param → List Param
  | [] => []
  | x :: rest =>
    x.placed depth (s.advance gap.toList) ::
      Param.placedList depth " "
        (s.advance (charsOfList (x.phrase literal depth gap :: commaBefore rest))) rest

/-- A result that is only a type, at its place. -/
def Param.placedBare (depth : Nat) (s : Place) : List Param → List Param
  | [] => []
  | ⟨names, type, variadic⟩ :: rest => ⟨names, type.placed depth s, variadic⟩ :: rest

end

end Types

/-! ## Declarations -/

section Declarations

variable (literal : String → Phrase) (unit : String)

/-- The comments of a doc: one for each of its lines. -/
def TypeSpec.comments (x : TypeSpec) : List String :=
  x.doc.elim [] fun doc =>
    (Text.pieces '\n' doc.toList).map fun line => "// " ++ String.ofList line

/-- What stands between the name of a declaration and its type. -/
def TypeSpec.aliasMark (x : TypeSpec) : List Phrase :=
  if x.isAlias then [mark " " "="] else []

/-- A declaration without the word `type` and without its doc, in a line at some depth. -/
def TypeSpec.phrase (depth : Nat) (x : TypeSpec) : Phrase :=
  .node (if x.isAlias then .typeAlias else .typeSpec) none
    (.leaf .typeIdentifier (some .name) "" (x.name.getD "") ::
      (x.aliasMark ++ x.type.elim [] fun type => [type.phrase literal (some .type) depth " "]))

/-- A declaration whose name stands at a place. -/
def TypeSpec.placed (depth : Nat) (s : Place) (x : TypeSpec) : TypeSpec :=
  { x with
    type := x.type.map (TypeExpr.placed literal unit depth
      (s.advance ((x.name.getD "").toList ++ (charsOfList x.aliasMark ++ [' ']))))
    position := s.position unit }

/-- An item on its own lines behind a gap. -/
def Item.phrases (gap : String) : Item → List Phrase
  | .single x =>
    entries TypeSpec.comments (fun y => lone (y.phrase literal 0)) "\n" "" gap [x]
  | .group _ members =>
    [Phrase.group TypeSpec.comments (TypeSpec.phrase literal 1) "\t" gap members, newline]

/-- An item with a gap in front of it that starts at a place. -/
def Item.placed (gap : String) (s : Place) : Item → Item
  | .single x =>
    let (t, other) := placeUnder "\n" gap s x.comments
    .single (x.placed literal unit 0 (t.advance (other.toList ++ "type ".toList)))
  | .group _ members =>
    .group ((s.advance gap.toList).position unit)
      ((placesInGroup TypeSpec.comments (TypeSpec.phrase literal 1) "\t" gap s members).map
        fun e => e.2.placed literal unit 1 (e.1.1.advance e.1.2.toList))

/-- Items with a blank line between any two, the first behind a gap. -/
def Item.phrasesOfList (gap : String) : List Item → List Phrase
  | [] => []
  | x :: rest => x.phrases literal gap ++ phrasesOfList "\n" rest

/-- Items at their places, the first behind a gap. -/
def Item.placedList (gap : String) (s : Place) : List Item → List Item
  | [] => []
  | x :: rest =>
    x.placed literal unit gap s ::
      placedList "\n" (s.advance (charsOfList (x.phrases literal gap))) rest

/-! ## Units -/

/-- A blank line, if anything stands in front. -/
def SourceUnit.gapAfter (preface : List Phrase) : String :=
  if preface.isEmpty then "" else "\n"

/-- The phrases of a unit: other lines, such as the clause of its package, and some items. -/
def SourceUnit.phrases (preface : List Phrase) (items : List Item) : List Phrase :=
  onLines preface ++ Item.phrasesOfList literal (gapAfter preface) items

/-- The text of a unit. -/
def SourceUnit.print (preface : List Phrase) (items : List Item) : String :=
  write (phrases literal preface items)

/-- The unit that has been printed: every item at its place. -/
def SourceUnit.printed (preface : List Phrase) (items : List Item) : SourceUnit :=
  { name := unit
    items := Item.placedList literal unit (gapAfter preface)
      (Place.start.advance (charsOfList (onLines preface))) items }

end Declarations

end GoAtlas
