import GoAtlas.Source.Grammar
import GoAtlas.Source.Lowering
import GoAtlas.Source.Reader

/-!
# Reading units

A parser for source texts. A unit is a list of statements, each ended by a line feed, a semicolon or
the end of the text. Type declarations are read part by part; of every other statement only its end
is looked for. When a statement cannot be read, the rest of the text becomes one error.

In the head of a declaration a bracket can hold type parameters or the length of an array. It holds
parameters when it reads as a list of names with constraints and does not read as an expression as
well.

What has been read is checked against the grammar before it becomes a tree: a tree that does not
follow the grammar, or does not give the text back, has an error at its end.
-/

namespace GoAtlas

namespace Lexemes

/-! ## Type parameters -/

/-- The lexemes behind the bracket that closes a list of type parameters. -/
def afterTypeParams? : Nat → List Lexeme → Option (List Lexeme)
  | 0, _ => none
  | fuel + 1, xs =>
    match afterBreaks xs with
    | [] => none
    | x :: rest =>
      if !x.isName then none
      else do
        let (_, xs) := moreNames .identifier rest.length rest
        let xs ← afterType? (afterBreaks xs)
        match afterBreaks (← afterUnion? xs) with
        | [] => none
        | mark :: rest =>
          if mark.isSymbol "]" then return rest
          else if mark.isSymbol "," then
            match afterSymbol? "]" rest with
            | some after => return after
            | none => afterTypeParams? fuel rest
          else none

/-- Whether a lexeme can belong to a product or a call that looks like a type parameter. -/
def isOperand (x : Lexeme) : Bool :=
  x.isName || x.isSymbol "." || x.isSymbol "*" || x.isSymbol "|" || x.isSymbol "(" ||
    x.isSymbol ")"

/-- Whether the content of a bracket that reads as type parameters reads as an expression too. -/
def readsAsExpression (content : List Lexeme) : Bool :=
  match content.filter fun x => !(x.isComment || x.isNewline) with
  | _ :: x :: rest => !x.isName && (x :: rest).all isOperand
  | _ => true

/-- The type parameters at the start of some lexemes, with the comments before them. -/
def typeParams? (xs : List Lexeme) : Option PhrasesReading :=
  match breaks xs with
  | (_, []) => none
  | (remarks, x :: inner) =>
    if x.isSymbol "[" then do
      let after ← afterTypeParams? inner.length inner
      if readsAsExpression (taken inner after).dropLast then none
      else
        let params := flat .typeParameterList (taken (x :: inner) after)
        return (remarks ++ [params.within .typeParameters], after)
    else none

/-! ## Type declarations -/

/-- The right side of a declaration behind its name and perhaps its type parameters: the mark of an
alias if there is one, and a type. -/
def definition? (name : Phrase) (params : List Phrase) (xs : List Lexeme) :
    Option PhraseReading := do
  let (kind, mark, ys) :=
    match symbol? "=" xs with
    | some (mark, ys) => (NodeKind.typeAlias, mark, ys)
    | none => (NodeKind.typeSpec, [], xs)
  let (remarks, ys) := breaks ys
  let (type, zs) ← type? ys
  return (.node kind none
    (name :: (params ++ (mark ++ (remarks ++ [type.within .type])))), zs)

/-- A declaration without the word `type`. -/
def spec? : List Lexeme → Option PhraseReading
  | [] => none
  | x :: rest =>
    let name := (x.name .typeIdentifier).within .name
    if !x.isName then none
    else
      (do
        let (params, ys) ← typeParams? rest
        definition? name params ys) <|>
      definition? name [] rest

/-- The type declaration behind its word. -/
def declaration? (word : Lexeme) (xs : List Lexeme) : Option PhraseReading :=
  match breaks xs with
  | (_, []) => none
  | (remarks, x :: rest) =>
    if x.isSymbol "(" then
      (linesUpTo ")" false spec? xs.length rest).map fun (lines, ys) =>
        (.node .typeDeclaration none (word.leaf :: (remarks ++ x.leaf :: lines)), ys)
    else
      (spec? (x :: rest)).map fun (spec, ys) =>
        (.node .typeDeclaration none (word.leaf :: (remarks ++ [spec])), ys)

/-! ## Other statements -/

/-- Whether a line feed behind a lexeme ends a statement. -/
def canClose (x : Lexeme) : Bool :=
  x.isName || Vocabulary.closingKeywords.any x.isKeyword || x.isLiteral || x.closes ||
    x.isSymbol "++" || x.isSymbol "--"

/-- Whether a statement ends before some lexemes, when a line feed would end it or would not. -/
def endsBefore (closed : Bool) (xs : List Lexeme) : Bool :=
  match afterComments xs with
  | [] => true
  | x :: _ => x.isSymbol ";" || (x.isNewline && closed)

/-- The lexemes behind a statement, when `depth` brackets are open in it and a line feed would end
it or would not. -/
def statementEnd : Bool → Nat → List Lexeme → Option (List Lexeme)
  | _, depth, [] => if depth = 0 then some [] else none
  | closed, depth, x :: rest =>
    if depth = 0 ∧ endsBefore closed (x :: rest) then some (x :: rest)
    else if x.isComment || x.isNewline then statementEnd closed depth rest
    else if x.opens then statementEnd false (depth + 1) rest
    else if x.closes then
      match depth with
      | 0 => none
      | depth + 1 => statementEnd true depth rest
    else statementEnd (canClose x) depth rest

/-- The lexemes behind a statement that is passed over. A name is not followed by another name or a
literal. -/
def afterStatement? : List Lexeme → Option (List Lexeme)
  | [] => none
  | x :: rest =>
    if x.isName && (afterComments rest).head?.any (fun y => y.isName || y.isLiteral) then none
    else statementEnd false 0 (x :: rest)

/-! ## Units -/

/-- The statement at the start of some lexemes. -/
def statement? : List Lexeme → Option PhraseReading
  | [] => none
  | x :: rest =>
    if x.isKeyword "type" then declaration? x rest
    else if x.isSymbol ";" then some (x.name (.other "empty_statement"), rest)
    else
      (afterStatement? (x :: rest)).map fun after =>
        (flat (.other "statement") (taken (x :: rest) after), after)

/-- The statement at the start of some lexemes with the comments behind it and what ends it, which
may be the end of the text. -/
def endedStatement? (xs : List Lexeme) : Option PhrasesReading := do
  let (statement, ys) ← statement? xs
  match comments ys with
  | (remarks, []) => return (statement :: remarks, [])
  | (remarks, mark :: rest) =>
    if mark.isNewline || mark.isSymbol ";" then
      return (statement :: (remarks ++ [mark.leaf]), rest)
    else none

/-- The phrases of a unit from some statement on. -/
def statements : Nat → List Lexeme → List Phrase
  | 0, _ => []
  | fuel + 1, xs =>
    match breaks xs with
    | (remarks, []) => remarks
    | (remarks, x :: rest) =>
      match endedStatement? (x :: rest) with
      | some (phrases, ys) => remarks ++ (phrases ++ statements fuel ys)
      | none => remarks ++ [flat .error (x :: rest)]

end Lexemes

/-! ## Texts -/

namespace SourceText

/-- The phrases of a source text. -/
def phrases (source : String) : List Phrase :=
  let xs := Lexeme.scan source
  Lexemes.statements xs.length xs

/-- Some phrases follow the grammar and give a text back. -/
def Certifies (source : String) (ps : List Phrase) : Prop :=
  Phrase.IsFile ps ∧ (Phrase.charsOfList ps).isPrefixOf source.toList = true ∧
    (source.toList.drop (Phrase.charsOfList ps).length).all isGapChar = true

instance (source : String) (ps : List Phrase) : Decidable (Certifies source ps) :=
  inferInstanceAs (Decidable (_ ∧ _))

/-- An error without text at the end of a source text. -/
def errorAtEnd (source : String) : Node :=
  let stop := Place.start.advance source.toList
  { kind := .error, field := none, isMissing := false, start := stop, stop, children := [] }

/-- The tree of a source text. -/
def tree (source : String) : Node :=
  let ps := phrases source
  let errors := if Certifies source ps then [] else [errorAtEnd source]
  { kind := .sourceFile, field := none, isMissing := false, start := .start
    stop := Place.start.advance source.toList, children := Phrase.placeAll .start ps ++ errors }

end SourceText

/-- The unit that a source text is, under a name. -/
def SourceUnit.ofText (name text : String) : SourceUnit :=
  ofTree name text (SourceText.tree text)

end GoAtlas
