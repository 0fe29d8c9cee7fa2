import GoAtlas.Source.Lexeme

/-!
# Where a type ends

A reader of a construct takes the lexemes from its first one on and gives back those behind its last
one; what it has taken is the difference. Comments may stand between any two lexemes, and so may
line feeds where the construct cannot end.

Of most types all that matters is where they end. A type name ends behind its arguments if it has
any; a bracketed part ends with its bracket; the rest is a chain of openings such as `*` or
`map[..]` before such an end. Behind a name, a bracket belongs to it when it stands on the same
line. The type that an opening asks for may stand on a later line.
-/

namespace GoAtlas.Lexemes

/-! ## Moving along lexemes -/

/-- Lexemes without the comments in front. -/
def afterComments (xs : List Lexeme) : List Lexeme :=
  xs.dropWhile Lexeme.isComment

/-- Lexemes without the comments and line feeds in front. -/
def afterBreaks (xs : List Lexeme) : List Lexeme :=
  xs.dropWhile fun x => x.isComment || x.isNewline

/-- Whether the first lexeme is a given symbol. -/
def startsWith (symbol : String) : List Lexeme → Bool
  | [] => false
  | x :: _ => x.isSymbol symbol

/-- The lexemes behind a symbol that must come next, comments and line feeds apart. -/
def afterSymbol? (symbol : String) (xs : List Lexeme) : Option (List Lexeme) :=
  match afterBreaks xs with
  | [] => none
  | x :: rest => if x.isSymbol symbol then some rest else none

/-- The lexemes behind the bracket that closes the innermost open one, when `depth` further brackets
are open. -/
def closingFrom : Nat → List Lexeme → Option (List Lexeme)
  | _, [] => none
  | depth, x :: rest =>
    if x.opens then closingFrom (depth + 1) rest
    else if x.closes then
      match depth with
      | 0 => some rest
      | depth + 1 => closingFrom depth rest
    else closingFrom depth rest

/-- The lexemes behind the bracket that closes the one just passed. -/
def afterClosing? (xs : List Lexeme) : Option (List Lexeme) :=
  closingFrom 0 xs

/-- The lexemes that were taken from `xs` when `rest` is left. -/
def taken (xs rest : List Lexeme) : List Lexeme :=
  xs.take (xs.length - rest.length)

/-! ## Types -/

/-- Whether a type can start with the first lexeme. -/
def startsType : List Lexeme → Bool
  | [] => false
  | x :: _ =>
    x.isName || Vocabulary.typeKeywords.any x.isKeyword || x.isSymbol "*" || x.isSymbol "(" ||
      x.isSymbol "[" || x.isSymbol "<-" || x.isSymbol "~"

/-- The lexemes behind a type name, perhaps with a package. -/
def nameEnd : List Lexeme → Option (List Lexeme)
  | [] => none
  | x :: rest =>
    if x.isName then
      match afterComments rest with
      | [] => some rest
      | dot :: more =>
        if dot.isSymbol "." then
          match afterBreaks more with
          | [] => none
          | name :: rest => if name.isName then some rest else none
        else some rest
    else none

/-- The lexemes behind the further types of a union, when `xs` follow its first type and `typeEnd?`
passes one type. -/
def unionEnd (typeEnd? : List Lexeme → Option (List Lexeme)) :
    Nat → List Lexeme → Option (List Lexeme)
  | 0, _ => none
  | fuel + 1, xs =>
    match afterComments xs with
    | [] => some xs
    | x :: rest =>
      if x.isSymbol "|" then do
        unionEnd typeEnd? fuel (← typeEnd? (afterBreaks rest))
      else some xs

/-- The lexemes behind the bracket that closes a list of type arguments, when `typeEnd?` passes one
type. -/
def argumentsEnd (typeEnd? : List Lexeme → Option (List Lexeme)) :
    Nat → List Lexeme → Option (List Lexeme)
  | 0, _ => none
  | fuel + 1, xs => do
    let xs ← typeEnd? (afterBreaks xs)
    match afterBreaks (← unionEnd typeEnd? (xs.length + 1) xs) with
    | [] => none
    | mark :: rest =>
      if mark.isSymbol "]" then return rest
      else if mark.isSymbol "," then
        match afterSymbol? "]" rest with
        | some after => return after
        | none => argumentsEnd typeEnd? fuel rest
      else none

/-- The lexemes behind the type at the start of some lexemes, when it opens with at most `fuel`
lexemes. -/
def typeEnd : Nat → List Lexeme → Option (List Lexeme)
  | 0, _ => none
  | _, [] => none
  | fuel + 1, x :: rest =>
    if x.isSymbol "*" || x.isSymbol "~" then typeEnd fuel (afterBreaks rest)
    else if x.isSymbol "(" then do
      afterSymbol? ")" (← typeEnd fuel (afterBreaks rest))
    else if x.isSymbol "[" then do
      typeEnd fuel (afterBreaks (← afterClosing? rest))
    else if x.isSymbol "<-" then
      match afterBreaks rest with
      | [] => none
      | y :: more => if y.isKeyword "chan" then typeEnd fuel (afterBreaks more) else none
    else if x.isKeyword "chan" then
      match afterSymbol? "<-" rest with
      | some more => typeEnd fuel (afterBreaks more)
      | none => typeEnd fuel (afterBreaks rest)
    else if x.isKeyword "map" then do
      let key ← afterSymbol? "[" rest
      typeEnd fuel (afterBreaks (← afterClosing? key))
    else if x.isKeyword "struct" || x.isKeyword "interface" then do
      afterClosing? (← afterSymbol? "\x7b" rest)
    else if x.isKeyword "func" then do
      let after ← afterClosing? (← afterSymbol? "(" rest)
      match afterComments after with
      | [] => return after
      | y :: more =>
        if y.isSymbol "(" then afterClosing? more
        else if startsType (y :: more) then return (typeEnd fuel (y :: more)).getD after
        else return after
    else do
      let after ← nameEnd (x :: rest)
      match afterComments after with
      | [] => return after
      | y :: inner =>
        if y.isSymbol "[" then argumentsEnd (typeEnd fuel) inner.length inner else return after

/-- The lexemes behind the type at the start of some lexemes. -/
def afterType? (xs : List Lexeme) : Option (List Lexeme) :=
  typeEnd xs.length xs

/-- The lexemes behind the further types of a union, when `xs` follow its first type. -/
def afterUnion? (xs : List Lexeme) : Option (List Lexeme) :=
  unionEnd afterType? (xs.length + 1) xs

end GoAtlas.Lexemes
