import GoAtlas.Toml.Basic

/-!
# Numbers, dates and truth values of TOML

A scalar other than a string is written without blanks inside, except that a blank may stand between
a date and a time; so it is cut out whole first and then told by its form.

Digits may be set apart by underscores, each between two digits. A decimal number does not start
with a zero that more digits follow. A whole number must fit in 64 bits with its sign.
-/

namespace GoAtlas.Toml

/-! ## Digits -/

/-- The value of a digit, hexadecimal ones included. -/
def digitValue? (c : Char) : Option Nat :=
  if c.isDigit then some (c.toNat - 0x30)
  else if 'a' ≤ c ∧ c ≤ 'f' then some (c.toNat - 0x57)
  else if 'A' ≤ c ∧ c ≤ 'F' then some (c.toNat - 0x37)
  else none

/-- Whether digits are set apart by underscores that each stand between two digits; `after` tells
whether a digit has just been passed. -/
def wellSpaced (isDigit : Char → Bool) (after : Bool) : List Char → Bool
  | [] => after
  | '_' :: rest => after && !rest.isEmpty && wellSpaced isDigit false rest
  | c :: rest => isDigit c && wellSpaced isDigit true rest

/-- Whether a character is a digit of a base. -/
def isDigitOf (base : Nat) (c : Char) : Bool :=
  (digitValue? c).any (· < base)

/-- The number that some digits of a base write, underscores apart. -/
def number (base : Nat) (cs : List Char) : Nat :=
  (cs.filterMap digitValue?).foldl (fun n d => n * base + d) 0

/-- The sign at the start of a number, and the rest: `true` for a minus. -/
def splitSign : List Char → Bool × List Char
  | '-' :: rest => (true, rest)
  | '+' :: rest => (false, rest)
  | cs => (false, cs)

/-- Whether some characters are the digits of a decimal number. -/
def isDecimal (cs : List Char) : Bool :=
  wellSpaced Char.isDigit false cs && (cs.head? != some '0' || cs.length == 1)

/-- A whole number, if it is in the range of 64 bits with sign. -/
def inRange? (n : Int) : Option Int :=
  if Int64.minValue.toInt ≤ n ∧ n ≤ Int64.maxValue.toInt then some n else none

/-- A whole number in a base, without sign. -/
def basedInteger? (base : Nat) (cs : List Char) : Option Int :=
  if wellSpaced (isDigitOf base) false cs then inRange? (number base cs) else none

/-- The whole number that a text is. -/
def integer? : List Char → Option Int
  | '0' :: 'x' :: cs => basedInteger? 16 cs
  | '0' :: 'o' :: cs => basedInteger? 8 cs
  | '0' :: 'b' :: cs => basedInteger? 2 cs
  | cs =>
    let (negative, digits) := splitSign cs
    if isDecimal digits then
      inRange? (if negative then -(number 10 digits : Int) else number 10 digits)
    else none

/-- Whether a text is the exponent of a number, behind its letter. -/
def isExponent (cs : List Char) : Bool :=
  wellSpaced Char.isDigit false (splitSign cs).2

/-- Whether a text is a number with a fraction, an exponent or both, or one of the special ones. -/
def isFloat (cs : List Char) : Bool :=
  let body := (splitSign cs).2
  let isLetter := fun c : Char => c == 'e' || c == 'E'
  let mantissa := body.takeWhile (!isLetter ·)
  let exponent := body.dropWhile (!isLetter ·)
  let whole := mantissa.takeWhile (· ≠ '.')
  let fraction := mantissa.dropWhile (· ≠ '.')
  body == "inf".toList || body == "nan".toList ||
    (isDecimal whole && !(fraction.isEmpty && exponent.isEmpty) &&
      (fraction.isEmpty || wellSpaced Char.isDigit false (fraction.drop 1)) &&
      (exponent.isEmpty || isExponent (exponent.drop 1)))

/-! ## Dates and times -/

/-- The number that exactly `width` digits at the start of a text write, and the rest. -/
def fixedDigits? (width : Nat) (cs : List Char) : Option (Nat × List Char) :=
  let ds := cs.take width
  if ds.length = width ∧ ds.all Char.isDigit then some (number 10 ds, cs.drop width) else none

/-- The number of days of a month. -/
def daysIn (year month : Nat) : Nat :=
  if month = 2 then
    if (year % 4 = 0 ∧ year % 100 ≠ 0) ∨ year % 400 = 0 then 29 else 28
  else if month = 4 ∨ month = 6 ∨ month = 9 ∨ month = 11 then 30
  else 31

/-- What follows a date at the start of a text. -/
def afterDate? (cs : List Char) : Option (List Char) := do
  let (year, '-' :: cs) ← fixedDigits? 4 cs | none
  let (month, '-' :: cs) ← fixedDigits? 2 cs | none
  let (day, cs) ← fixedDigits? 2 cs
  if 1 ≤ month ∧ month ≤ 12 ∧ 1 ≤ day ∧ day ≤ daysIn year month then some cs else none

/-- What follows an hour and a minute at the start of a text. -/
def afterMinutes? (cs : List Char) : Option (List Char) := do
  let (hour, ':' :: cs) ← fixedDigits? 2 cs | none
  let (minute, cs) ← fixedDigits? 2 cs
  if hour ≤ 23 ∧ minute ≤ 59 then some cs else none

/-- What follows a time of day at the start of a text. -/
def afterTime? (cs : List Char) : Option (List Char) := do
  let ':' :: cs ← afterMinutes? cs | none
  let (second, cs) ← fixedDigits? 2 cs
  if 60 < second then none
  else
    match cs with
    | '.' :: d :: rest => if d.isDigit then some (rest.dropWhile Char.isDigit) else none
    | '.' :: _ => none
    | cs => some cs

/-- Whether a text is the offset of a time from the standard one, or nothing. -/
def isOffset : List Char → Bool
  | [] => true
  | [c] => c == 'Z' || c == 'z'
  | c :: rest => (c == '+' || c == '-') && afterMinutes? rest == some []

/-- Whether a text is a time of day with or without an offset. -/
def isTimeWithOffset (cs : List Char) : Bool :=
  (afterTime? cs).any isOffset

/-- Whether a text is a date, alone or with a time behind a letter. -/
def isDate (cs : List Char) : Bool :=
  match afterDate? cs with
  | none => false
  | some [] => true
  | some (c :: rest) => (c == 'T' || c == 't') && isTimeWithOffset rest

/-- Whether a text is a time of day. -/
def isTime (cs : List Char) : Bool :=
  afterTime? cs == some []

/-! ## Scalars -/

/-- The characters of scalars. -/
def isScalarChar (c : Char) : Bool :=
  c.isAlphanum || c == '+' || c == '-' || c == '_' || c == '.' || c == ':'

/-- The scalar that a text is. -/
def scalarOf? (cs : List Char) : Option Value :=
  if cs == "true".toList then some (.boolean true)
  else if cs == "false".toList then some (.boolean false)
  else if isFloat cs || isDate cs || isTime cs then some (.other (String.ofList cs))
  else (integer? cs).map .integer

/-- The scalar at the start of a text, and what follows it. -/
def scalar? (cs : List Char) : Option (Value × List Char) :=
  let word := cs.takeWhile isScalarChar
  let rest := cs.dropWhile isScalarChar
  let more := (rest.drop 1).takeWhile isScalarChar
  if afterDate? word == some [] && rest.head? == some ' ' && isTimeWithOffset more then
    some (.other (String.ofList (word ++ ' ' :: more)), (rest.drop 1).dropWhile isScalarChar)
  else (scalarOf? word).map fun v => (v, rest)

end GoAtlas.Toml
