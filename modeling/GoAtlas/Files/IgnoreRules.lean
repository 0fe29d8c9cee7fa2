import GoAtlas.Files.Glob
import GoAtlas.Files.Path
import GoAtlas.Text.Blank
import GoAtlas.Text.Lines

/-!
# Rules that leave files out

A file of rules holds a pattern a line. A line that starts with `#` is a comment, and blanks at the
end of a line do not count. An exclamation mark in front keeps what matches instead of leaving it
out; a slash behind makes the rule one for directories. A pattern with a slash inside or in front is
matched from the directory of the file on, any other at every depth below it. Of the rules of a file
that match, the last decides.
-/

namespace GoAtlas

/-- What rules say about an entry. -/
inductive Verdict where
  | leaveOut
  | keep
  deriving DecidableEq, Repr, Inhabited

/-- A rule that leaves entries out or keeps them. -/
structure IgnoreRule where
  verdict : Verdict
  onlyDirectories : Bool
  pattern : List GlobPart
  deriving Inhabited

namespace IgnoreRule

/-- A line without the blanks at its end, which stay when the last of them is escaped. -/
def withoutBlanks (line : List Char) : List Char :=
  if ['\\', ' '].isSuffixOf line then line else Text.dropTrailing Text.isBlank line

/-- A pattern without the slash at its end, and whether there was one. -/
def splitFinalSlash (pattern : List Char) : Bool × List Char :=
  match pattern.reverse with
  | '/' :: '\\' :: rest => (true, rest.reverse)
  | '/' :: rest => (true, rest.reverse)
  | _ => (false, pattern)

/-- Whether a pattern matches at every depth by itself. -/
def startsWithStars (pattern : List Char) : Bool :=
  pattern == ['*', '*'] || ['*', '*', '/'].isPrefixOf pattern

/-- A pattern with what its place in a file of rules means: any depth where it is not anchored, and
the content of a directory where it ends with two stars. -/
def complete (anchored : Bool) (pattern : List Char) : List Char :=
  let pattern :=
    if anchored || pattern.contains '/' || startsWithStars pattern then pattern
    else ['*', '*', '/'] ++ pattern
  if ['/', '*', '*'].isSuffixOf pattern then pattern ++ ['/', '*'] else pattern

/-- The rule of a line, when its verdict has been read and `anchored` tells whether a slash stood in
front. -/
def ofPattern? (verdict : Verdict) (anchored : Bool) (line : List Char) : Option IgnoreRule :=
  let (onlyDirectories, pattern) := splitFinalSlash line
  (Glob.ofChars? (complete anchored pattern)).map fun pattern =>
    { verdict, onlyDirectories, pattern }

/-- The rule of a line without its mark for what is kept. -/
def ofBody? (verdict : Verdict) : List Char → Option IgnoreRule
  | '/' :: rest => ofPattern? verdict true rest
  | line => ofPattern? verdict false line

/-- The rule that a line is. -/
def ofLine? (line : List Char) : Option IgnoreRule :=
  match withoutBlanks line with
  | [] => none
  | '#' :: _ => none
  | '\\' :: '!' :: rest => ofPattern? .leaveOut false ('!' :: rest)
  | '\\' :: '#' :: rest => ofPattern? .leaveOut false ('#' :: rest)
  | '!' :: rest => ofBody? .keep rest
  | line => ofBody? .leaveOut line

/-- A line without the carriage return at its end. -/
def withoutReturn (line : List UInt8) : List UInt8 :=
  if line.getLast? = some 0x0D then line.dropLast else line

/-- The lines of a file of rules, up to the first that is no text. A byte order mark at the start
does not count. -/
def linesOf (content : ByteArray) : List (List Char) :=
  let decoded := (Text.lines 0x0A content.toList).map fun line =>
    String.fromUTF8? ⟨(withoutReturn line).toArray⟩
  match (decoded.takeWhile Option.isSome).filterMap (Option.map String.toList) with
  | [] => []
  | first :: rest => first.dropWhile (· == '\uFEFF') :: rest

/-- The rules of a file. -/
def ofContent (content : ByteArray) : List IgnoreRule :=
  (linesOf content).filterMap ofLine?

/-- Whether a rule applies to an entry at a path below the directory of the rules. -/
def applies (path : String) (isDirectory : Bool) (rule : IgnoreRule) : Bool :=
  (isDirectory || !rule.onlyDirectories) && Glob.isMatch rule.pattern path

/-- What some rules say about an entry: the last that applies decides. -/
def decide? (rules : List IgnoreRule) (path : String) (isDirectory : Bool) : Option Verdict :=
  (rules.reverse.find? (applies path isDirectory)).map IgnoreRule.verdict

end IgnoreRule

end GoAtlas
