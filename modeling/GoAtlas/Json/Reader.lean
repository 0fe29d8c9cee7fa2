import GoAtlas.Json.Basic

/-!
# Reading JSON

A text is read as one JSON value with blanks around. A number is a whole number when it is written
without sign, fraction and exponent and fits in 64 bits. A reader may have a limit to the lists and
objects around each other; what stands deeper must still be JSON, and is kept as its text.

The reader of values refers to itself through its argument: `valueWith inner` reads one value whose
parts are read by `inner`. `value` puts this in a chain that is as long as the text, and
`valueWithin` ends the chain at the limit.

A text can be read in two ways: as it is written (`read?`), or with one member for each name
(`parse?`), of which the last one counts.
-/

namespace GoAtlas.Json

/-- The blanks of JSON. -/
def isJsonBlank (c : Char) : Bool :=
  c == ' ' || c == '\t' || c == '\n' || c == '\r'

/-- A text without the blanks at its start. -/
def skipBlanks (cs : List Char) : List Char :=
  cs.dropWhile isJsonBlank

/-- What follows a word at the start of a text. -/
def afterWord : List Char → List Char → Option (List Char)
  | [], cs => some cs
  | _ :: _, [] => none
  | w :: word, c :: cs => if w = c then afterWord word cs else none

/-- The value of a hexadecimal digit. -/
def hexValue? (c : Char) : Option Nat :=
  if '0' ≤ c ∧ c ≤ '9' then some (c.toNat - 0x30)
  else if 'a' ≤ c ∧ c ≤ 'f' then some (c.toNat - 0x57)
  else if 'A' ≤ c ∧ c ≤ 'F' then some (c.toNat - 0x37)
  else none

/-- The value of four hexadecimal digits. -/
def hexUnit? (a b c d : Char) : Option Nat := do
  let a ← hexValue? a
  let b ← hexValue? b
  let c ← hexValue? c
  let d ← hexValue? d
  return ((a * 16 + b) * 16 + c) * 16 + d

/-- The character that a letter after a backslash stands for. -/
def escaped? (c : Char) : Option Char :=
  match c with
  | '"' => some '"'
  | '\\' => some '\\'
  | '/' => some '/'
  | 'b' => some '\x08'
  | 'f' => some '\x0c'
  | 'n' => some '\n'
  | 'r' => some '\r'
  | 't' => some '\t'
  | _ => none

/-- The characters of a string up to its closing quote, and what follows. Two escaped halves of a
surrogate pair make one character; a half alone is refused, and so is a control character. -/
def stringBody : List Char → Option (List Char × List Char)
  | [] => none
  | '"' :: rest => some ([], rest)
  | '\\' :: 'u' :: a :: b :: c :: d :: rest =>
    match hexUnit? a b c d with
    | none => none
    | some n =>
      if 0xD800 ≤ n ∧ n < 0xDC00 then
        match rest with
        | '\\' :: 'u' :: e :: f :: g :: h :: rest =>
          match hexUnit? e f g h with
          | none => none
          | some m =>
            if 0xDC00 ≤ m ∧ m < 0xE000 then
              (stringBody rest).map fun (s, after) =>
                (Char.ofNat (0x10000 + (n - 0xD800) * 0x400 + (m - 0xDC00)) :: s, after)
            else none
        | _ => none
      else if 0xDC00 ≤ n ∧ n < 0xE000 then none
      else (stringBody rest).map fun (s, after) => (Char.ofNat n :: s, after)
  | '\\' :: c :: rest =>
    match escaped? c with
    | none => none
    | some c => (stringBody rest).map fun (s, after) => (c :: s, after)
  | c :: rest =>
    if c.toNat < 0x20 ∨ c = '\\' then none
    else (stringBody rest).map fun (s, after) => (c :: s, after)

/-- The digits at the start of a text, if there are any, and what follows. -/
def digits? (cs : List Char) : Option (List Char × List Char) :=
  let ds := cs.takeWhile Char.isDigit
  if ds.isEmpty then none else some (ds, cs.dropWhile Char.isDigit)

/-- The digits of a whole number: they start with zero only if zero stands alone. -/
def wholeDigits? : List Char → Option (List Char × List Char)
  | '0' :: rest => if (rest.takeWhile Char.isDigit).isEmpty then some (['0'], rest) else none
  | cs => digits? cs

/-- The value of some decimal digits. -/
def ofDigits (ds : List Char) : Nat :=
  ds.foldl (fun n d => 10 * n + (d.toNat - 0x30)) 0

/-- The fraction at the start of a text, which may be empty. -/
def fraction? : List Char → Option (List Char × List Char)
  | '.' :: rest => (digits? rest).map fun (ds, after) => ('.' :: ds, after)
  | cs => some ([], cs)

/-- The exponent at the start of a text, which may be empty. -/
def exponent? : List Char → Option (List Char × List Char)
  | e :: sign :: rest =>
    if e = 'e' ∨ e = 'E' then
      if sign = '+' ∨ sign = '-' then
        (digits? rest).map fun (ds, after) => (e :: sign :: ds, after)
      else (digits? (sign :: rest)).map fun (ds, after) => (e :: ds, after)
    else some ([], e :: sign :: rest)
  | cs => if cs = ['e'] ∨ cs = ['E'] then none else some ([], cs)

/-- The number at the start of a text. -/
def number? (cs : List Char) : Option (Json × List Char) := do
  let (sign, cs) :=
    match cs with
    | '-' :: rest => (['-'], rest)
    | cs => ([], cs)
  let (whole, cs) ← wholeDigits? cs
  let (fraction, cs) ← fraction? cs
  let (exponent, cs) ← exponent? cs
  if sign.isEmpty && fraction.isEmpty && exponent.isEmpty && ofDigits whole < UInt64.size then
    return (nat (ofDigits whole), cs)
  else
    return (verbatim (String.ofList (sign ++ whole ++ fraction ++ exponent)), cs)

/-- The items of a list up to its closing bracket, behind those already read. -/
def itemsWith (inner : List Char → Option (Json × List Char)) :
    Nat → List Json → List Char → Option (List Json × List Char)
  | 0, _, _ => none
  | fuel + 1, items, cs => do
    let (v, cs) ← inner (skipBlanks cs)
    match skipBlanks cs with
    | ',' :: rest => itemsWith inner fuel (v :: items) rest
    | ']' :: rest => return ((v :: items).reverse, rest)
    | _ => none

/-- The members of an object up to its closing brace, behind those already read. -/
def membersWith (inner : List Char → Option (Json × List Char)) :
    Nat → List (String × Json) → List Char → Option (List (String × Json) × List Char)
  | 0, _, _ => none
  | fuel + 1, members, cs => do
    let '"' :: cs := skipBlanks cs | none
    let (name, cs) ← stringBody cs
    let ':' :: cs := skipBlanks cs | none
    let (v, cs) ← inner (skipBlanks cs)
    let members := (String.ofList name, v) :: members
    match skipBlanks cs with
    | ',' :: rest => membersWith inner fuel members rest
    | '\x7d' :: rest => return (members.reverse, rest)
    | _ => none

/-- The value at the start of a text, when `inner` reads the values inside it and no list or object
has more than `size` parts. -/
def valueWith (size : Nat) (inner : List Char → Option (Json × List Char)) (cs : List Char) :
    Option (Json × List Char) :=
  match cs with
  | '"' :: rest => (stringBody rest).map fun (s, after) => (str (String.ofList s), after)
  | '[' :: rest =>
    match skipBlanks rest with
    | ']' :: after => some (arr [], after)
    | _ => (itemsWith inner size [] rest).map fun (items, after) => (arr items, after)
  | '\x7b' :: rest =>
    match skipBlanks rest with
    | '\x7d' :: after => some (obj [], after)
    | _ => (membersWith inner size [] rest).map fun (members, after) => (obj members, after)
  | 'n' :: rest => (afterWord ['u', 'l', 'l'] rest).map fun after => (null, after)
  | 't' :: rest => (afterWord ['r', 'u', 'e'] rest).map fun after => (bool true, after)
  | 'f' :: rest => (afterWord ['a', 'l', 's', 'e'] rest).map fun after => (bool false, after)
  | cs => number? cs

/-- The value at the start of a text, with at most `fuel` values around the innermost. -/
def value (size : Nat) : Nat → List Char → Option (Json × List Char)
  | 0 => fun _ => none
  | fuel + 1 => valueWith size (value size fuel)

/-- The value at the start of a text, which is kept as its text when it is a list or an object. -/
def closed (inner : List Char → Option (Json × List Char)) (cs : List Char) :
    Option (Json × List Char) :=
  match inner cs with
  | some (arr _, rest) | some (obj _, rest) =>
    some (verbatim (String.ofList (cs.take (cs.length - rest.length))), rest)
  | result => result

/-- The value at the start of a text, whose lists and objects are read up to `limit` around each
other. -/
def valueWithin (size : Nat) : Nat → List Char → Option (Json × List Char)
  | 0 => closed (value size (size + 1))
  | limit + 1 => valueWith size (valueWithin size limit)

/-- The value that a text is, with its lists and objects read up to a limit if there is one. -/
def read? (limit : Option Nat) (text : String) : Option Json :=
  let cs := text.toList
  match valueWithin cs.length (limit.getD cs.length) (skipBlanks cs) with
  | some (v, rest) => if (skipBlanks rest).isEmpty then some v else none
  | none => none

/-! ## One member for each name -/

/-- Some members with one more; it takes the place of a member of the same name. -/
def setMember (name : String) (v : Json) : List (String × Json) → List (String × Json)
  | [] => [(name, v)]
  | (other, w) :: rest =>
    if other = name then (name, v) :: rest else (other, w) :: setMember name v rest

mutual

/-- A value with one member for each name in its objects, which is the last one. -/
def keepLast : Json → Json
  | arr items => arr (keepLastItems items)
  | obj members => obj (keepLastMembers [] members)
  | v => v

/-- Some values with one member for each name in their objects. -/
def keepLastItems : List Json → List Json
  | [] => []
  | v :: rest => v.keepLast :: keepLastItems rest

/-- Some members on top of others, with one for each name in them and in the objects inside. -/
def keepLastMembers (found : List (String × Json)) : List (String × Json) → List (String × Json)
  | [] => found
  | (name, v) :: rest => keepLastMembers (setMember name v.keepLast found) rest

end

/-- The value that a text is, when the last of several members of one name counts. -/
def parse? (text : String) : Option Json :=
  (read? none text).map keepLast

end GoAtlas.Json
