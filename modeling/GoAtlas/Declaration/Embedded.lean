import GoAtlas.Text.Alphanumeric
import GoAtlas.Declaration.Reference

/-!
# References of embedded types

An embedded type is looked up by its name. The instances of a generic type are kept as text, so
their text is read far enough to find the name: what stands before the first bracket, less a star
in front and blanks around.
-/

namespace GoAtlas.Reference

/-- The characters of a type name. -/
def isNameChar (c : Char) : Bool :=
  Text.isAlphanumeric c || c == '_'

/-- A text cut at its last dot: what stands before it, if there is one, and what stands after. -/
def cutAtLastDot (cs : List Char) : Option (List Char) × List Char :=
  let name := (cs.reverse.takeWhile (· != '.')).reverse
  if name.length < cs.length then (some (cs.take (cs.length - name.length - 1)), name)
  else (none, name)

/-- The reference that the text of an embedded type stands for, when the text names a type. -/
def ofEmbeddedText? (text : String) : Option Reference :=
  let body := Text.trimChars text.toList
  let (pointer, rest) :=
    match body with
    | '*' :: rest => (true, rest.dropWhile Text.isBlank)
    | _ => (false, body)
  let base := Text.trimChars (rest.takeWhile (· != '['))
  let (package, name) := cutAtLastDot base
  if name.isEmpty || !name.all isNameChar then none
  else some (named (package.map String.ofList) (String.ofList name) pointer)

/-- The reference of an embedded type. Text that does not name a type is kept as it is. -/
def ofEmbedded : TypeExpr → Reference
  | .verbatim text => (ofEmbeddedText? text).getD (verbatim text)
  | .pointer (.verbatim text) =>
    (ofEmbeddedText? ("*" ++ text)).getD (ofExpr (.pointer (.verbatim text)))
  | type => ofExpr type

end GoAtlas.Reference
