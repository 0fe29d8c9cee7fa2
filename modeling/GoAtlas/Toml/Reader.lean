import GoAtlas.Toml.Scalar

/-!
# Reading TOML

A document is read expression by expression: headers, keys with values, and comments, each on a line
of its own. Strings come in four forms: between one or three double quotes, where a backslash
escapes, and between one or three single quotes, where it does not.

The reader of values refers to itself through its argument, as it does for JSON.
-/

namespace GoAtlas.Toml

/-! ## Blanks and comments -/

/-- The blanks inside a line. -/
def isLineBlank (c : Char) : Bool :=
  c == ' ' || c == '\t'

/-- A text without the blanks at its start. -/
def skipLineBlanks (cs : List Char) : List Char :=
  cs.dropWhile isLineBlank

/-- The characters of comments and literal strings: all but controls, the tab apart. -/
def isPlain (c : Char) : Bool :=
  c == '\t' || (0x20 ≤ c.toNat && c.toNat ≠ 0x7F)

/-- A text without the comment at its start, if there is one. -/
def skipComment : List Char → List Char
  | '#' :: rest => rest.dropWhile isPlain
  | cs => cs

/-- What follows a line break at the start of a text. -/
def afterBreak? : List Char → Option (List Char)
  | '\n' :: rest => some rest
  | '\r' :: '\n' :: rest => some rest
  | _ => none

/-- What follows the end of a line, behind blanks and a comment. -/
def afterLine? (cs : List Char) : Option (List Char) :=
  match skipComment (skipLineBlanks cs) with
  | [] => some []
  | cs => afterBreak? cs

/-- A text without the blanks, comments and line breaks at its start, at most `fuel` lines of
them. -/
def skipLines : Nat → List Char → List Char
  | 0, cs => cs
  | fuel + 1, cs =>
    match afterBreak? (skipComment (skipLineBlanks cs)) with
    | some rest => skipLines fuel rest
    | none => skipLineBlanks cs

/-! ## Strings -/

/-- The character with a code, if there is one. -/
def ofCode? (n : Nat) : Option Char :=
  if n.isValidChar then some (Char.ofNat n) else none

/-- The character that exactly `width` hexadecimal digits at the start of a text name. -/
def codePoint? (width : Nat) (cs : List Char) : Option Char := do
  let ds := cs.take width
  if ds.length = width ∧ ds.all (isDigitOf 16) then ofCode? (number 16 ds) else none

/-- The character that a letter after a backslash stands for. -/
def escaped? (c : Char) : Option Char :=
  match c with
  | '"' => some '"'
  | '\\' => some '\\'
  | 'b' => some '\x08'
  | 'f' => some '\x0c'
  | 'n' => some '\n'
  | 'r' => some '\r'
  | 't' => some '\t'
  | _ => none

/-- Adds a character in front of what has been read of a string. -/
def consChar (c : Char) : Option (List Char × List Char) → Option (List Char × List Char)
  | some (s, rest) => some (c :: s, rest)
  | none => none

/-- The rest of a string with escapes up to its closing quote. -/
def basicBody : Nat → List Char → Option (List Char × List Char)
  | 0, _ => none
  | _, [] => none
  | _, '"' :: rest => some ([], rest)
  | fuel + 1, '\\' :: 'u' :: rest => do
    consChar (← codePoint? 4 rest) (basicBody fuel (rest.drop 4))
  | fuel + 1, '\\' :: 'U' :: rest => do
    consChar (← codePoint? 8 rest) (basicBody fuel (rest.drop 8))
  | fuel + 1, '\\' :: c :: rest => do
    consChar (← escaped? c) (basicBody fuel rest)
  | fuel + 1, c :: rest => if isPlain c && c ≠ '\\' then consChar c (basicBody fuel rest) else none

/-- The rest of a string without escapes up to its closing quote. -/
def literalBody : List Char → Option (List Char × List Char)
  | [] => none
  | '\'' :: rest => some ([], rest)
  | c :: rest => if isPlain c then consChar c (literalBody rest) else none

/-- What closes a string of several lines at the start of a text: three quotes, after up to two that
belong to the string. -/
def closing? (quote : Char) (cs : List Char) : Option (List Char × List Char) :=
  let count := min 5 (cs.takeWhile (· == quote)).length
  if count < 3 then none else some (List.replicate (count - 3) quote, cs.drop count)

/-- A text without the blanks and line breaks at its start. -/
def skipFold (cs : List Char) : List Char :=
  cs.dropWhile fun c => isLineBlank c || c == '\n' || c == '\r'

/-- The rest of a string of several lines with escapes. A backslash at the end of a line takes the
blanks and line breaks behind it away. -/
def longBasicBody : Nat → List Char → Option (List Char × List Char)
  | 0, _ => none
  | _, [] => none
  | fuel + 1, c :: rest =>
    if c = '"' then
      match closing? '"' (c :: rest) with
      | some closed => some closed
      | none => consChar c (longBasicBody fuel rest)
    else if c = '\\' then
      match rest with
      | 'u' :: more => do consChar (← codePoint? 4 more) (longBasicBody fuel (more.drop 4))
      | 'U' :: more => do consChar (← codePoint? 8 more) (longBasicBody fuel (more.drop 8))
      | _ =>
        match afterBreak? (skipLineBlanks rest) with
        | some more => longBasicBody fuel (skipFold more)
        | none =>
          match rest with
          | [] => none
          | d :: more => do consChar (← escaped? d) (longBasicBody fuel more)
    else
      match afterBreak? (c :: rest) with
      | some more => consChar '\n' (longBasicBody fuel more)
      | none => if isPlain c then consChar c (longBasicBody fuel rest) else none

/-- The rest of a string of several lines without escapes. -/
def longLiteralBody : Nat → List Char → Option (List Char × List Char)
  | 0, _ => none
  | _, [] => none
  | fuel + 1, c :: rest =>
    if c = '\'' then
      match closing? '\'' (c :: rest) with
      | some closed => some closed
      | none => consChar c (longLiteralBody fuel rest)
    else
      match afterBreak? (c :: rest) with
      | some more => consChar '\n' (longLiteralBody fuel more)
      | none => if isPlain c then consChar c (longLiteralBody fuel rest) else none

/-- A text without the line break at its start, if there is one. -/
def skipBreak (cs : List Char) : List Char :=
  (afterBreak? cs).getD cs

/-- The string at the start of a text. -/
def string? : List Char → Option (String × List Char)
  | '"' :: '"' :: '"' :: rest =>
    (longBasicBody rest.length (skipBreak rest)).map fun (s, rest) => (String.ofList s, rest)
  | '\'' :: '\'' :: '\'' :: rest =>
    (longLiteralBody rest.length (skipBreak rest)).map fun (s, rest) => (String.ofList s, rest)
  | '"' :: rest => (basicBody rest.length rest).map fun (s, rest) => (String.ofList s, rest)
  | '\'' :: rest => (literalBody rest).map fun (s, rest) => (String.ofList s, rest)
  | _ => none

/-! ## Keys -/

/-- The characters of bare keys. -/
def isBareChar (c : Char) : Bool :=
  c.isAlphanum || c == '_' || c == '-'

/-- A simple key: bare, or a string on one line. -/
def simpleKey? : List Char → Option (String × List Char)
  | '"' :: rest => (basicBody rest.length rest).map fun (s, rest) => (String.ofList s, rest)
  | '\'' :: rest => (literalBody rest).map fun (s, rest) => (String.ofList s, rest)
  | cs =>
    let bare := cs.takeWhile isBareChar
    if bare.isEmpty then none else some (String.ofList bare, cs.dropWhile isBareChar)

/-- A key: simple keys joined by dots. The path comes first, then the last simple key. -/
def key? : Nat → List Char → Option ((List String × String) × List Char)
  | 0, _ => none
  | fuel + 1, cs => do
    let (first, rest) ← simpleKey? (skipLineBlanks cs)
    match skipLineBlanks rest with
    | '.' :: more =>
      let ((path, last), rest) ← key? fuel more
      return ((first :: path, last), rest)
    | rest => return (([], first), rest)

/-- A key, an equals sign and the value behind it, when `inner` reads the value. -/
def keyValue? (inner : List Char → Option (Value × List Char)) (cs : List Char) :
    Option ((List String × String) × Value × List Char) := do
  let (key, '=' :: rest) ← key? cs.length cs | none
  let (v, rest) ← inner (skipLineBlanks rest)
  return (key, v, rest)

/-! ## Values -/

/-- The items of an array up to its closing bracket. A comma may stand behind the last. -/
def items? (inner : List Char → Option (Value × List Char)) :
    Nat → List Char → Option (List Value × List Char)
  | 0, _ => none
  | fuel + 1, cs =>
    match skipLines cs.length cs with
    | ']' :: rest => some ([], rest)
    | cs => do
      let (v, rest) ← inner cs
      match skipLines rest.length rest with
      | ']' :: rest => return ([v], rest)
      | ',' :: rest =>
        let (vs, rest) ← items? inner fuel rest
        return (v :: vs, rest)
      | _ => none

/-- The members of a table written in place, added to those read before. -/
def members? (inner : List Char → Option (Value × List Char)) :
    Nat → Members → List Char → Option (Members × List Char)
  | 0, _, _ => none
  | fuel + 1, members, cs => do
    let ((path, key), v, rest) ← keyValue? inner cs
    let members ← members.addKey path key v
    match skipLineBlanks rest with
    | '\x7d' :: rest => return (members, rest)
    | ',' :: rest => members? inner fuel members rest
    | _ => none

/-- The value at the start of a text, when `inner` reads the values inside it. -/
def valueWith (limit : Nat) (inner : List Char → Option (Value × List Char)) (cs : List Char) :
    Option (Value × List Char) :=
  match cs with
  | '[' :: rest => (items? inner limit rest).map fun (vs, rest) => (.array vs, rest)
  | '\x7b' :: rest =>
    match skipLineBlanks rest with
    | '\x7d' :: rest => some (.table .literal [], rest)
    | _ => (members? inner limit [] rest).map fun (ms, rest) => (.table .literal ms, rest)
  | '"' :: _ | '\'' :: _ => (string? cs).map fun (s, rest) => (.str s, rest)
  | _ => scalar? cs

/-- The value at the start of a text, with at most `fuel` values around the innermost. -/
def value? (limit : Nat) : Nat → List Char → Option (Value × List Char)
  | 0 => fun _ => none
  | fuel + 1 => valueWith limit (value? limit fuel)

/-! ## Documents -/

/-- A document so far: its members, and the path of the table that is open. -/
structure Document where
  members : Members
  path : List String
  deriving Inhabited

/-- A header, behind its opening bracket. -/
def header? (document : Document) (cs : List Char) : Option (Document × List Char) :=
  match cs with
  | '[' :: inner => do
    let ((path, key), ']' :: ']' :: rest) ← key? inner.length inner | none
    let members ← document.members.openListed path key
    return ({ members, path := path ++ [key] }, rest)
  | _ => do
    let ((path, key), ']' :: rest) ← key? cs.length cs | none
    let members ← document.members.openTable path key
    return ({ members, path := path ++ [key] }, rest)

/-- The rest of a document, of at most `fuel` lines. -/
def expressions? : Nat → Document → List Char → Option Members
  | 0, document, cs => if cs.isEmpty then some document.members else none
  | fuel + 1, document, cs =>
    match skipLineBlanks cs with
    | [] => some document.members
    | '[' :: rest => do
      let (document, rest) ← header? document rest
      expressions? fuel document (← afterLine? rest)
    | c :: rest =>
      match afterLine? (c :: rest) with
      | some rest => expressions? fuel document rest
      | none => do
        let ((path, key), v, rest) ← keyValue? (value? cs.length cs.length) (c :: rest)
        let members ← document.members.addUnder document.path path key v
        expressions? fuel { document with members } (← afterLine? rest)

/-- A text without the byte order mark at its start, if there is one. -/
def skipMark : List Char → List Char
  | '\uFEFF' :: cs => cs
  | cs => cs

/-- The members of the document that a text is. -/
def parse? (text : String) : Option Members :=
  let cs := skipMark text.toList
  expressions? (cs.length + 1) { members := [], path := [] } cs

end GoAtlas.Toml
