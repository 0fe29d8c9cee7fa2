import GoAtlas.Source.Vocabulary
import GoAtlas.Text.Identifier

/-!
# Lexemes

A source text is cut into lexemes: words, literals, symbols, comments and line feeds. Blanks between
two lexemes are kept with the second as its gap, so the lexemes in order give the text back, less
the blanks at its very end. A character that opens nothing else is a symbol by itself; therefore
every text can be cut.
-/

namespace GoAtlas

/-- The kinds of lexeme. -/
inductive LexemeKind where
  /-- An identifier or a reserved word. -/
  | word
  | number
  | rune
  /-- A string literal between double quotes. -/
  | quoted
  /-- A string literal between back quotes. -/
  | raw
  | symbol
  | comment
  /-- A line feed outside literals and comments. -/
  | newline
  deriving DecidableEq, Repr, Inhabited

/-- A piece of source text and the blanks in front of it. -/
structure Lexeme where
  kind : LexemeKind
  gap : String
  text : String
  deriving DecidableEq, Repr, Inhabited

namespace Lexeme

/-! ## Kinds -/

/-- Whether a lexeme is a comment. -/
def isComment (x : Lexeme) : Bool := x.kind == .comment

/-- Whether a lexeme is a line feed. -/
def isNewline (x : Lexeme) : Bool := x.kind == .newline

/-- Whether a lexeme is a string literal. -/
def isString (x : Lexeme) : Bool := x.kind == .quoted || x.kind == .raw

/-- Whether a lexeme is a literal. -/
def isLiteral (x : Lexeme) : Bool := x.isString || x.kind == .number || x.kind == .rune

/-- Whether a lexeme is a given symbol. -/
def isSymbol (x : Lexeme) (symbol : String) : Bool := x.kind == .symbol && x.text == symbol

/-- Whether a lexeme is a given reserved word. -/
def isKeyword (x : Lexeme) (word : String) : Bool := x.kind == .word && x.text == word

/-- Whether a lexeme can be a name: a word that is not reserved. -/
def isName (x : Lexeme) : Bool := x.kind == .word && !Vocabulary.isKeyword x.text

/-- Whether a lexeme opens a bracket. -/
def opens (x : Lexeme) : Bool := x.isSymbol "(" || x.isSymbol "[" || x.isSymbol "\x7b"

/-- Whether a lexeme closes a bracket. -/
def closes (x : Lexeme) : Bool := x.isSymbol ")" || x.isSymbol "]" || x.isSymbol "\x7d"

/-! ## Cutting a text -/

/-- The characters that only separate lexemes. -/
def isGap (c : Char) : Bool :=
  c == ' ' || c == '\t' || c == '\r' || c == '\x0b' || c == '\x0c'

/-- The characters that go on a number literal after its first digit. -/
def isNumberInner (c : Char) : Bool :=
  c.isAlphanum || c == '_' || c == '.'

/-- The rest of a literal up to its closing quote, with what follows. A backslash takes the next
character with it, and a literal does not go beyond its line. -/
def quotedTail (quote : Char) : List Char → Option (List Char × List Char)
  | [] => none
  | '\\' :: c :: rest =>
    if c = '\n' then none
    else (quotedTail quote rest).map fun (tail, after) => ('\\' :: c :: tail, after)
  | c :: rest =>
    if c = quote then some ([c], rest)
    else if c = '\n' then none
    else (quotedTail quote rest).map fun (tail, after) => (c :: tail, after)

/-- The rest of a literal between back quotes, with what follows. -/
def rawTail : List Char → Option (List Char × List Char)
  | [] => none
  | c :: rest =>
    if c = '\x60' then some ([c], rest)
    else (rawTail rest).map fun (tail, after) => (c :: tail, after)

/-- The rest of a comment up to its closing mark, with what follows. -/
def commentTail : List Char → Option (List Char × List Char)
  | [] => none
  | '*' :: '/' :: rest => some (['*', '/'], rest)
  | c :: rest => (commentTail rest).map fun (tail, after) => (c :: tail, after)

/-- The symbols of more than one character that are kept together. -/
def longSymbols : List (List Char) :=
  [['.', '.', '.'], ['<', '-'], ['+', '+'], ['-', '-']]

/-- The symbol at the start of a text, with what follows. -/
def symbolAt (c : Char) (rest : List Char) : LexemeKind × List Char × List Char :=
  match longSymbols.find? (List.isPrefixOf · (c :: rest)) with
  | some long => (.symbol, long, (c :: rest).drop long.length)
  | none => (.symbol, [c], rest)

/-- A literal or comment that starts with `opening`, if its tail is found, and else a symbol. -/
def orSymbol (kind : LexemeKind) (opening : List Char) (c : Char) (rest : List Char)
    (tail : Option (List Char × List Char)) : LexemeKind × List Char × List Char :=
  match tail with
  | some (tail, after) => (kind, opening ++ tail, after)
  | none => symbolAt c rest

/-- Cuts the lexeme off a text that starts with `c`. -/
def cut (c : Char) (rest : List Char) : LexemeKind × List Char × List Char :=
  if c = '\n' then (.newline, [c], rest)
  else if Text.isIdentifierStart c then
    (.word, c :: rest.takeWhile Text.isIdentifierInner, rest.dropWhile Text.isIdentifierInner)
  else if c.isDigit then
    (.number, c :: rest.takeWhile isNumberInner, rest.dropWhile isNumberInner)
  else if c = '"' then orSymbol .quoted [c] c rest (quotedTail c rest)
  else if c = '\'' then orSymbol .rune [c] c rest (quotedTail c rest)
  else if c = '\x60' then orSymbol .raw [c] c rest (rawTail rest)
  else if c = '/' then
    match rest with
    | '/' :: _ => (.comment, c :: rest.takeWhile (· ≠ '\n'), rest.dropWhile (· ≠ '\n'))
    | '*' :: inner => orSymbol .comment [c, '*'] c rest (commentTail inner)
    | _ => (.symbol, [c], rest)
  else symbolAt c rest

/-- The lexemes of a text of at most `fuel` characters. -/
def scanChars : Nat → List Char → List Lexeme
  | 0, _ => []
  | fuel + 1, cs =>
    match cs.dropWhile isGap with
    | [] => []
    | c :: rest =>
      let (kind, text, after) := cut c rest
      { kind, gap := String.ofList (cs.takeWhile isGap), text := String.ofList text } ::
        scanChars fuel after

/-- Lexemes with more blanks in front of the first. -/
def widenFirst (gap : String) : List Lexeme → List Lexeme
  | [] => []
  | x :: rest => { x with gap := gap ++ x.gap } :: rest

/-- The lexemes of a text. A byte order mark at its start counts as a blank. -/
def scan (text : String) : List Lexeme :=
  match text.toList with
  | '\uFEFF' :: cs => widenFirst "\uFEFF" (scanChars cs.length cs)
  | cs => scanChars cs.length cs

end Lexeme

end GoAtlas
