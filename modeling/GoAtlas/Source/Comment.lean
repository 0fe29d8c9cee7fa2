import GoAtlas.Text.Blank
import GoAtlas.Text.Lines

/-!
# What a comment says

The content of a comment is its text without the marks of the comment. A line comment gives one
line, without one blank behind its mark; a block comment gives those of its lines that are not
empty, without the stars that may stand in front of them. A text without the marks is read as the
inside of a block.
-/

namespace GoAtlas.Comment

/-- A line of a comment without the stars at its start and the blanks around them. -/
def lineContent (line : List Char) : List Char :=
  Text.trimChars ((Text.trimChars line).dropWhile (· == '*'))

/-- The lines of a comment that are not empty. -/
def contentLines (body : List Char) : List String :=
  ((Text.pieces '\n' body).map lineContent |>.filter (!·.isEmpty)).map String.ofList

/-- The inside of a block comment, or the whole text where one of the marks is not there. -/
def blockBody (cs : List Char) : List Char :=
  match cs with
  | '/' :: '*' :: body =>
    if ['*', '/'].isSuffixOf body then body.take (body.length - 2) else cs
  | cs => cs

/-- What a comment says, without its marks. -/
def content (text : String) : String :=
  match text.toList with
  | '/' :: '/' :: ' ' :: body => String.ofList (Text.dropTrailing Text.isBlank body)
  | '/' :: '/' :: body => String.ofList (Text.dropTrailing Text.isBlank body)
  | cs => "\n".intercalate (contentLines (blockBody cs))

end GoAtlas.Comment
