/-!
# Glob patterns

A pattern matches whole paths, byte by byte. `?` matches one byte and `*` any number of bytes, in
both cases other than a slash; a bracket matches one byte out of a set; braces give alternatives;
and a backslash takes the next character literally. Two stars that fill a whole component match any
number of components.

A bracket that is not closed is an ordinary character. A pattern with unbalanced braces, with a
backslash at its end or with a range that runs backwards is refused.
-/

namespace GoAtlas

/-- A part of a pattern. -/
inductive GlobPart where
  | byte (b : UInt8)
  /-- Any byte but a slash. -/
  | anyByte
  /-- Any number of bytes but slashes. -/
  | anyRun
  /-- A byte inside one of some ranges, or outside of all of them. -/
  | oneOf (negated : Bool) (ranges : List (UInt8 × UInt8))
  /-- The two stars at the start of a pattern and the slash behind them: any number of leading
  components. -/
  | leading
  /-- Two stars between slashes, and the slashes. -/
  | between
  /-- A slash and the two stars at the end of a pattern behind it. -/
  | trailing
  | alternatives (patterns : List (List GlobPart))
  deriving Inhabited

namespace Glob

/-! ## Matching -/

/-- The byte of a slash. -/
def slash : UInt8 := 0x2F

/-- Whether some rest of the bytes satisfies `accept`, when only bytes that satisfy `skip` may be
left out in front of it. -/
def someRest (skip : UInt8 → Bool) (accept : List UInt8 → Bool) : List UInt8 → Bool
  | [] => accept []
  | b :: rest => accept (b :: rest) || (skip b && someRest skip accept rest)

/-- Whether the rest behind some slash satisfies `accept`. -/
def afterSomeSlash (accept : List UInt8 → Bool) : List UInt8 → Bool
  | [] => false
  | b :: rest => (b == slash && accept rest) || afterSomeSlash accept rest

/-- Whether a byte belongs to a set of bytes. -/
def inSet (negated : Bool) (ranges : List (UInt8 × UInt8)) (b : UInt8) : Bool :=
  ranges.any (fun r => r.1 ≤ b && b ≤ r.2) != negated

mutual

/-- Whether a part matches the front of some bytes and `accept` holds for the rest. -/
def matchesPart (accept : List UInt8 → Bool) : GlobPart → List UInt8 → Bool
  | .byte b, c :: rest => b == c && accept rest
  | .anyByte, c :: rest => c != slash && accept rest
  | .oneOf negated ranges, c :: rest => inSet negated ranges c && accept rest
  | .anyRun, bytes => someRest (· != slash) accept bytes
  | .leading, bytes => accept bytes || afterSomeSlash accept bytes
  | .between, c :: rest => c == slash && (accept rest || afterSomeSlash accept rest)
  | .trailing, c :: rest => c == slash && someRest (fun _ => true) accept rest
  | .alternatives patterns, bytes => matchesSome accept patterns bytes
  | _, [] => false

/-- Whether some parts match the front of some bytes one after the other and `accept` holds for the
rest. -/
def matchesParts (accept : List UInt8 → Bool) : List GlobPart → List UInt8 → Bool
  | [], bytes => accept bytes
  | part :: rest, bytes => matchesPart (matchesParts accept rest) part bytes

/-- Whether one of some patterns matches the front of some bytes and `accept` holds for the rest. -/
def matchesSome (accept : List UInt8 → Bool) : List (List GlobPart) → List UInt8 → Bool
  | [], _ => false
  | pattern :: rest, bytes => matchesParts accept pattern bytes || matchesSome accept rest bytes

end

/-- Whether a pattern matches a path. -/
def isMatch (pattern : List GlobPart) (path : String) : Bool :=
  matchesParts List.isEmpty pattern path.toUTF8.toList

/-! ## Reading patterns -/

/-- The bytes of a character. -/
def bytesOf (c : Char) : List UInt8 :=
  (String.singleton c).toUTF8.toList

/-- The parts that match a character. -/
def literal (c : Char) : List GlobPart :=
  (bytesOf c).map .byte

/-- The ranges of bytes that stand for the characters from one to another. -/
def rangesOf (low high : Char) : List (UInt8 × UInt8) :=
  let single := fun b : UInt8 => (b, b)
  if low = high then (bytesOf low).map single
  else
    (bytesOf low).dropLast.map single ++
      [((bytesOf low).getLast?.getD 0, (bytesOf high).headD 0)] ++ ((bytesOf high).drop 1).map single

/-- What the inside of a bracket gives. -/
inductive Bracket where
  | closed (ranges : List (Char × Char)) (rest : List Char)
  | unclosed
  /-- A range runs backwards. -/
  | refused
  deriving Inhabited

/-- Reads the inside of a bracket. The bounds read so far come last first; `first` tells that none
has been read, and `inRange` that a dash waits for the upper bound. -/
def bracket (first inRange : Bool) (ranges : List (Char × Char)) : List Char → Bracket
  | [] => .unclosed
  | c :: rest =>
    if c = ']' ∧ !first then
      .closed (if inRange then ('-', '-') :: ranges else ranges).reverse rest
    else if c = '-' ∧ !first ∧ !inRange then bracket false true ranges rest
    else
      match inRange, ranges with
      | true, (low, _) :: more =>
        if c < low then .refused else bracket false false ((low, c) :: more) rest
      | _, _ => bracket false false ((c, c) :: ranges) rest

/-- A pattern that is being read: the alternatives of every open brace, the innermost first, each
with its parts in reverse. The last entry is the pattern itself. -/
abbrev Frames := List (List GlobPart)

/-- Adds parts at the end of the innermost alternative. -/
def push (parts : List GlobPart) : List Frames → List Frames
  | (frame :: frames) :: rest => ((parts.reverse ++ frame) :: frames) :: rest
  | stack => stack

/-- The innermost alternative, in reverse. -/
def top : List Frames → List GlobPart
  | (frame :: _) :: _ => frame
  | _ => []

/-- Takes the last part of the innermost alternative away. -/
def pop : List Frames → List Frames
  | (frame :: frames) :: rest => (frame.drop 1 :: frames) :: rest
  | stack => stack

/-- What two stars add behind a slash: they take the slash with them. -/
def pushStars (atEnd : Bool) (stack : List Frames) : List Frames :=
  match top stack with
  | .leading :: _ => stack
  | .trailing :: _ => stack
  | _ => push [if atEnd then .trailing else .between] (pop stack)

/-- Reads a pattern, when `previous` is the character that has just been read. -/
def read : Nat → Option Char → List Frames → List Char → Option (List GlobPart)
  | 0, _, _, _ => none
  | _, _, stack, [] =>
    match stack with
    | [[frame]] => some frame.reverse
    | _ => none
  | fuel + 1, previous, stack, c :: rest =>
    let nested := decide (1 < stack.length)
    if c = '?' then read fuel (some c) (push [.anyByte] stack) rest
    else if c = '*' then
      match rest with
      | '*' :: more =>
        let two := fun () => read fuel (some '*') (push [.anyRun, .anyRun] stack) more
        if (top stack).isEmpty then
          match more with
          | [] => read fuel (some '*') (push [.leading] stack) []
          | '/' :: behind => read fuel (some '/') (push [.leading] stack) behind
          | _ => two ()
        else if previous ≠ some '/' then two ()
        else
          match more with
          | [] => read fuel (some '*') (pushStars true stack) []
          | '/' :: behind => read fuel (some '/') (pushStars false stack) behind
          | d :: _ =>
            if nested ∧ (d = ',' ∨ d = '\x7d') then read fuel (some '*') (pushStars true stack) more
            else two ()
      | _ => read fuel (some c) (push [.anyRun] stack) rest
    else if c = '[' then
      let (negated, inside) :=
        match rest with
        | '!' :: more => (true, more)
        | '^' :: more => (true, more)
        | _ => (false, rest)
      match bracket true false [] inside with
      | .closed ranges behind =>
        let bytes := ranges.flatMap fun (low, high) => rangesOf low high
        read fuel (some ']') (push [.oneOf negated bytes] stack) behind
      | .unclosed => read fuel (some c) (push (literal c) stack) rest
      | .refused => none
    else if c = '\x7b' then read fuel (some c) ([[]] :: stack) rest
    else if c = '\x7d' then
      match stack with
      | frames :: outer :: more =>
        let patterns := frames.reverse.map List.reverse |>.filter (!·.isEmpty)
        let parts := if patterns.isEmpty then [] else [GlobPart.alternatives patterns]
        read fuel (some c) (push parts (outer :: more)) rest
      | _ => none
    else if c = ',' then
      match stack with
      | frames :: outer :: more => read fuel (some c) (([] :: frames) :: outer :: more) rest
      | _ => read fuel (some c) (push (literal c) stack) rest
    else if c = '\\' then
      match rest with
      | [] => none
      | d :: more => read fuel (some d) (push (literal d) stack) more
    else read fuel (some c) (push (literal c) stack) rest

/-- The pattern that a text is. Two stars alone match everything, names in the last component
included. -/
def ofChars? (cs : List Char) : Option (List GlobPart) :=
  match read (cs.length + 1) none [[[]]] cs with
  | some [.leading] => some [.leading, .anyRun]
  | pattern => pattern

end Glob

end GoAtlas
