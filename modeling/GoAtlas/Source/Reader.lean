import GoAtlas.Source.Extent
import GoAtlas.Source.Phrase

/-!
# Reading types

The phrases of types are read off the front of the lexemes. Structs, interfaces, pointers and
parenthesised types are read part by part; of every other type only its end is looked for, and its
leaves stand side by side in one phrase. Comments that are passed become leaves of the phrase around
them, and line feeds that end nothing become part of the gap behind them.

The parts of a body are separated by line feeds or semicolons, so a part ends with its line unless a
comma or an opening is still waiting for more.

The readers refer to the reader of types through their argument `type?`; `typeWithin` puts them in a
chain that is as long as the nesting of bodies can be.
-/

namespace GoAtlas

/-- Phrases, and the lexemes behind them. -/
abbrev PhrasesReading := List Phrase × List Lexeme

/-- A phrase, and the lexemes behind it. -/
abbrev PhraseReading := Phrase × List Lexeme

namespace Lexeme

/-! ## Leaves -/

/-- The kind of leaf that a lexeme becomes where no part of a declaration is expected. -/
def leafKind (x : Lexeme) : NodeKind :=
  match x.kind with
  | .word => if Vocabulary.isKeyword x.text then .symbol x.text else .identifier
  | .number => .other "number_literal"
  | .rune => .other "rune_literal"
  | .quoted => .other "interpreted_string_literal"
  | .raw => .other "raw_string_literal"
  | .symbol | .newline => .symbol x.text
  | .comment => .comment

/-- The leaf that a lexeme becomes. -/
def leaf (x : Lexeme) : Phrase :=
  .leaf x.leafKind none x.gap x.text

/-- The leaf that a name becomes. -/
def name (kind : NodeKind) (x : Lexeme) : Phrase :=
  .leaf kind none x.gap x.text

/-- A lexeme with more blanks in front of it. -/
def widen (gap : String) (x : Lexeme) : Lexeme :=
  { x with gap := gap ++ x.gap }

end Lexeme

namespace Lexemes

/-- Passes the comments in front. -/
def comments : List Lexeme → PhrasesReading
  | [] => ([], [])
  | x :: rest =>
    if x.isComment then
      let (remarks, after) := comments rest
      (x.leaf :: remarks, after)
    else ([], x :: rest)

/-- Passes the comments and line feeds in front, behind a gap. -/
def breaksBehind (gap : String) : List Lexeme → PhrasesReading
  | [] => ([], [])
  | x :: rest =>
    if x.isNewline then breaksBehind (gap ++ x.gap ++ x.text) rest
    else if x.isComment then
      let (remarks, after) := breaksBehind "" rest
      ((x.widen gap).leaf :: remarks, after)
    else ([], x.widen gap :: rest)

/-- Passes the comments and line feeds in front. -/
def breaks (xs : List Lexeme) : PhrasesReading :=
  breaksBehind "" xs

/-- The leaves that some lexemes become behind a gap, where no line feed ends anything. -/
def leavesBehind (gap : String) : List Lexeme → List Phrase
  | [] => []
  | x :: rest =>
    if x.isNewline then leavesBehind (gap ++ x.gap ++ x.text) rest
    else (x.widen gap).leaf :: leavesBehind "" rest

/-- A construct whose leaves stand side by side. -/
def flat (kind : NodeKind) (xs : List Lexeme) : Phrase :=
  .node kind none (leavesBehind "" xs)

/-- A symbol that must come next, comments and line feeds apart, with the comments before it. -/
def symbol? (symbol : String) (xs : List Lexeme) : Option PhrasesReading :=
  match breaks xs with
  | (remarks, x :: rest) => if x.isSymbol symbol then some (remarks ++ [x.leaf], rest) else none
  | (_, []) => none

/-- The lines of a body up to its closing bracket. The last line may go without an end of its own if
`mayEnd` allows it. -/
def linesUpTo (close : String) (mayEnd : Bool) (line? : List Lexeme → Option PhraseReading) :
    Nat → List Lexeme → Option PhrasesReading
  | 0, _ => none
  | fuel + 1, xs =>
    match breaks xs with
    | (_, []) => none
    | (remarks, x :: rest) =>
      if x.isSymbol close then some (remarks ++ [x.leaf], rest)
      else do
        let (line, ys) ← line? (x :: rest)
        match comments ys with
        | (_, []) => none
        | (trailing, mark :: ys) =>
          if mark.isNewline || mark.isSymbol ";" then
            let (more, zs) ← linesUpTo close mayEnd line? fuel ys
            return (remarks ++ line :: (trailing ++ mark.leaf :: more), zs)
          else if mayEnd && mark.isSymbol close then
            return (remarks ++ line :: (trailing ++ [mark.leaf]), ys)
          else none

/-! ## Names -/

/-- The type name at the start of some lexemes, perhaps with a package. -/
def typeName? : List Lexeme → Option PhraseReading
  | [] => none
  | x :: rest =>
    if !x.isName then none
    else
      match comments rest with
      | (remarks, dot :: more) =>
        if dot.isSymbol "." then
          match breaks more with
          | (others, name :: rest) =>
            if name.isName then
              some (.node .qualifiedType none
                ((x.name .packageIdentifier).within .package :: (remarks ++ dot.leaf ::
                  (others ++ [(name.name .typeIdentifier).within .name]))), rest)
            else none
          | (_, []) => none
        else some (x.name .typeIdentifier, rest)
      | (_, []) => some (x.name .typeIdentifier, rest)

/-- The type name at the start of some lexemes, with its arguments if it has any. -/
def namedType? (xs : List Lexeme) : Option PhraseReading := do
  let (name, rest) ← typeName? xs
  if startsWith "[" (afterComments rest) then
    let after ← afterType? xs
    return (flat .genericType (taken xs after), after)
  else return (name, rest)

/-- A type of which only the end is looked for. -/
def plainType? (xs : List Lexeme) : Option PhraseReading := do
  let after ← afterType? xs
  return (flat (.other "type") (taken xs after), after)

/-- The names that follow a first name behind commas. -/
def moreNames (kind : NodeKind) : Nat → List Lexeme → PhrasesReading
  | 0, xs => ([], xs)
  | fuel + 1, xs =>
    match symbol? "," xs with
    | none => ([], xs)
    | some (comma, more) =>
      match breaks more with
      | (remarks, x :: rest) =>
        if x.isName then
          let (names, ys) := moreNames kind fuel rest
          (comma ++ (remarks ++ (x.name kind).within .name :: names), ys)
        else ([], xs)
      | (_, []) => ([], xs)

/-! ## Structs -/

/-- The tag on the rest of a line. -/
def tag? (xs : List Lexeme) : PhrasesReading :=
  match comments xs with
  | (remarks, x :: rest) =>
    if x.isString then (remarks ++ [x.leaf.within .tag], rest) else ([], xs)
  | (_, []) => ([], xs)

/-- The tag behind names that lack their type: only a raw literal that stands right behind them can
be told to be one. -/
def closeTag? : List Lexeme → PhrasesReading
  | [] => ([], [])
  | x :: rest =>
    if x.kind == .raw && x.gap.isEmpty then ([x.leaf.within .tag], rest) else ([], x :: rest)

/-- Whether a bracket that has just been passed holds type arguments: then no type follows it. -/
def holdsArguments (xs : List Lexeme) : Bool :=
  match afterClosing? xs with
  | some after => !startsType (afterComments after)
  | none => true

/-- Whether a name at the start of a struct line is embedded, judged by what follows it. -/
def isEmbedded (xs : List Lexeme) : Bool :=
  match afterComments xs with
  | [] => true
  | x :: rest =>
    x.isNewline || x.isString || x.isSymbol ";" || x.isSymbol "\x7d" || x.isSymbol "." ||
      (x.isSymbol "[" && holdsArguments rest)

/-- A line of a struct body. Two or more names may lack their type. -/
def field? (type? : List Lexeme → Option PhraseReading) : List Lexeme → Option PhraseReading
  | [] => none
  | x :: rest =>
    if x.isSymbol "*" then do
      let (remarks, ys) := breaks rest
      let (target, ys) ← namedType? ys
      let (tag, ys) := tag? ys
      return (.node .fieldDeclaration none
        (x.leaf :: (remarks ++ target.within .type :: tag)), ys)
    else if !x.isName then none
    else if isEmbedded rest then do
      let (type, ys) ← namedType? (x :: rest)
      let (tag, ys) := tag? ys
      return (.node .fieldDeclaration none (type.within .type :: tag), ys)
    else
      let (more, ys) := moreNames .fieldIdentifier rest.length rest
      let names := (x.name .fieldIdentifier).within .name :: more
      let (remarks, zs) := breaks ys
      match type? zs with
      | some (type, zs) =>
        let (tag, zs) := tag? zs
        some (.node .fieldDeclaration none (names ++ (remarks ++ type.within .type :: tag)), zs)
      | none =>
        if more.isEmpty then none
        else
          let (tag, ys) := closeTag? ys
          some (.node .fieldDeclaration none
            (names ++ .absent .typeIdentifier (some .type) :: tag), ys)

/-! ## Parameters -/

/-- An entry of a parameter list before it is known whether a lone word is a name or a type. -/
inductive ParamEntry where
  | word (x : Lexeme)
  /-- A type, perhaps behind a name and behind the mark of a variadic parameter. -/
  | typed (name : Option Lexeme) (variadic : Bool) (rest : List Phrase)
  deriving Inhabited

/-- A lone word as a parameter without name. -/
def wordParam (x : Lexeme) : Phrase :=
  .node .parameterDeclaration none [(x.name .typeIdentifier).within .type]

/-- The parameters that some entries give, each with what separates it from the next one, when the
words `waiting` have been passed. Words right before a named parameter share its type; all other
words are types. -/
def paramsOf (waiting : List (Lexeme × List Phrase)) :
    List (ParamEntry × List Phrase) → List Phrase
  | [] => waiting.flatMap fun (x, behind) => wordParam x :: behind
  | (.word x, behind) :: rest => paramsOf (waiting ++ [(x, behind)]) rest
  | (.typed (some name) false type, behind) :: rest =>
    let names := waiting.flatMap fun (x, behind) => (x.name .identifier).within .name :: behind
    .node .parameterDeclaration none (names ++ (name.name .identifier).within .name :: type) ::
      (behind ++ paramsOf [] rest)
  | (.typed name variadic type, behind) :: rest =>
    let kind := if variadic then .variadicParameterDeclaration else .parameterDeclaration
    let names := name.toList.map fun x => (x.name .identifier).within .name
    waiting.flatMap (fun (x, behind) => wordParam x :: behind) ++
      .node kind none (names ++ type) :: (behind ++ paramsOf [] rest)

/-- The type at the start of some lexemes, as an entry behind a name and other phrases. -/
def typedItem? (type? : List Lexeme → Option PhraseReading) (name : Option Lexeme)
    (variadic : Bool) (before : List Phrase) (xs : List Lexeme) :
    Option (ParamEntry × List Lexeme) :=
  let (remarks, ys) := breaks xs
  (type? ys).map fun (type, rest) =>
    (.typed name variadic (before ++ (remarks ++ [type.within .type])), rest)

/-- One entry of a parameter list. -/
def listItem? (type? : List Lexeme → Option PhraseReading) :
    List Lexeme → Option (ParamEntry × List Lexeme)
  | [] => none
  | x :: rest =>
    if x.isSymbol "..." then typedItem? type? none true [x.leaf] rest
    else if !x.isName then typedItem? type? none false [] (x :: rest)
    else
      match breaks rest with
      | (_, []) => none
      | (remarks, y :: more) =>
        if y.isSymbol "," || y.isSymbol ")" then some (.word x, rest)
        else if y.isSymbol "..." then
          typedItem? type? (some x) true (remarks ++ [y.leaf]) more
        else if y.isSymbol "." || (y.isSymbol "[" && holdsArguments more) then
          typedItem? type? none false [] (x :: rest)
        else typedItem? type? (some x) false remarks (y :: more)

/-- The entries of a parameter list, each with what separates it from the next one, and what stands
behind them up to the closing parenthesis. -/
def entries? (type? : List Lexeme → Option PhraseReading) :
    Nat → List Lexeme → Option (List (ParamEntry × List Phrase) × PhrasesReading)
  | 0, _ => none
  | fuel + 1, xs => do
    let (entry, ys) ← listItem? type? xs
    match breaks ys with
    | (_, []) => none
    | (remarks, mark :: ys) =>
      if mark.isSymbol ")" then return ([(entry, [])], remarks ++ [mark.leaf], ys)
      else if mark.isSymbol "," then
        match breaks ys with
        | (_, []) => none
        | (others, z :: zs) =>
          if z.isSymbol ")" then
            return ([(entry, [])], remarks ++ mark.leaf :: (others ++ [z.leaf]), zs)
          else
            let (entries, reading) ← entries? type? fuel (z :: zs)
            return ((entry, remarks ++ mark.leaf :: others) :: entries, reading)
      else none

/-- A parameter list behind its opening parenthesis. -/
def params? (type? : List Lexeme → Option PhraseReading) (opening : Lexeme)
    (xs : List Lexeme) : Option PhraseReading :=
  match breaks xs with
  | (_, []) => none
  | (remarks, x :: rest) =>
    if x.isSymbol ")" then
      some (.node .parameterList none (opening.leaf :: (remarks ++ [x.leaf])), rest)
    else
      (entries? type? (x :: rest).length (x :: rest)).map fun (entries, closing, ys) =>
        (.node .parameterList none
          (opening.leaf :: (remarks ++ (paramsOf [] entries ++ closing))), ys)

/-- The results of a method: a list in parentheses, one type, or none. -/
def results? (type? : List Lexeme → Option PhraseReading) (xs : List Lexeme) :
    Option PhrasesReading :=
  match comments xs with
  | (_, []) => some ([], xs)
  | (remarks, x :: rest) =>
    if x.isSymbol "(" then
      (params? type? x rest).map fun (list, ys) => (remarks ++ [list.within .result], ys)
    else if startsType (x :: rest) then
      match type? (x :: rest) with
      | some (type, ys) => some (remarks ++ [type.within .result], ys)
      | none => some ([], xs)
    else some ([], xs)

/-! ## Interfaces -/

/-- The further types of a union. -/
def moreTypes : Nat → List Lexeme → Option PhrasesReading
  | 0, _ => none
  | fuel + 1, xs =>
    match comments xs with
    | (_, []) => some ([], xs)
    | (remarks, x :: rest) =>
      if x.isSymbol "|" then do
        let (others, ys) := breaks rest
        let (type, ys) ← plainType? ys
        let (more, ys) ← moreTypes fuel ys
        return (remarks ++ x.leaf :: (others ++ type :: more), ys)
      else some ([], xs)

/-- A line of an interface body that is not a method: one type or a union. -/
def typeSet? (type? : List Lexeme → Option PhraseReading) (xs : List Lexeme) :
    Option PhraseReading := do
  let (type, ys) ← type? xs
  let (more, ys) ← moreTypes (ys.length + 1) ys
  return (.node .typeElem none (type :: more), ys)

/-- A line of an interface body. -/
def element? (type? : List Lexeme → Option PhraseReading) : List Lexeme → Option PhraseReading
  | [] => none
  | x :: rest =>
    match comments rest with
    | (remarks, y :: ys) =>
      if x.isName && y.isSymbol "(" then do
        let (params, ys) ← params? type? y ys
        let (results, ys) ← results? type? ys
        return (.node .methodElem none
          ((x.name .fieldIdentifier).within .name ::
            (remarks ++ params.within .parameters :: results)), ys)
      else typeSet? type? (x :: rest)
    | (_, []) => typeSet? type? (x :: rest)

/-! ## Types -/

/-- A struct behind its word. -/
def struct? (type? : List Lexeme → Option PhraseReading) (word : Lexeme) (xs : List Lexeme) :
    Option PhraseReading :=
  match breaks xs with
  | (_, []) => none
  | (remarks, brace :: rest) =>
    if brace.isSymbol "\x7b" then
      (linesUpTo "\x7d" true (field? type?) xs.length rest).map fun (lines, ys) =>
        (.node .structType none
          (word.leaf :: (remarks ++ [.node .fieldDeclarationList none (brace.leaf :: lines)])), ys)
    else none

/-- An interface behind its word. -/
def interface? (type? : List Lexeme → Option PhraseReading) (word : Lexeme)
    (xs : List Lexeme) : Option PhraseReading := do
  let (brace, rest) ← symbol? "\x7b" xs
  let (lines, ys) ← linesUpTo "\x7d" true (element? type?) xs.length rest
  return (.node .interfaceType none (word.leaf :: (brace ++ lines)), ys)

/-- The type at the start of some lexemes, when `type?` reads the types inside it. -/
def typeWith (type? : List Lexeme → Option PhraseReading) : List Lexeme → Option PhraseReading
  | [] => none
  | x :: rest =>
    if x.isName then namedType? (x :: rest)
    else if x.isKeyword "struct" then struct? type? x rest
    else if x.isKeyword "interface" then interface? type? x rest
    else if x.isSymbol "(" then do
      let (remarks, ys) := breaks rest
      let (inner, ys) ← type? ys
      let (closing, ys) ← symbol? ")" ys
      return (.node .parenthesizedType none (x.leaf :: (remarks ++ inner :: closing)), ys)
    else if x.isSymbol "*" then do
      let (remarks, ys) := breaks rest
      let (target, ys) ←
        if ys.head?.any Lexeme.isName then namedType? ys else plainType? ys
      return (.node .pointerType none (x.leaf :: (remarks ++ [target])), ys)
    else plainType? (x :: rest)

/-- The type at the start of some lexemes, with at most `depth` types around the innermost. -/
def typeWithin : Nat → List Lexeme → Option PhraseReading
  | 0 => fun _ => none
  | depth + 1 => typeWith (typeWithin depth)

/-- The type at the start of some lexemes. -/
def type? (xs : List Lexeme) : Option PhraseReading :=
  typeWithin xs.length xs

end Lexemes

end GoAtlas
