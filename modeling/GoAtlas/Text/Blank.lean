/-!
# Blank characters

The characters that carry the Unicode property `White_Space`, and how they are trimmed off a text.
Trimming is defined on lists of characters; the version on `String` only converts.
-/

namespace GoAtlas.Text

/-- The characters with the Unicode property `White_Space`: the ASCII blanks, the next-line
control, the no-break space and the typographic spaces. The zero-width space, the byte order mark
and the information separators are not among them. -/
def isBlank (c : Char) : Bool :=
  let n := c.toNat
  (9 ≤ n && n ≤ 13) || n == 0x20 || n == 0x85 || n == 0xA0 || n == 0x1680 ||
    (0x2000 ≤ n && n ≤ 0x200A) || n == 0x2028 || n == 0x2029 || n == 0x202F || n == 0x205F ||
    n == 0x3000

/-- A list without the longest run of characters at its end that satisfy `p`. -/
def dropTrailing (p : Char → Bool) (cs : List Char) : List Char :=
  (cs.reverse.dropWhile p).reverse

/-- A list without the blanks at both ends. -/
def trimChars (cs : List Char) : List Char :=
  dropTrailing isBlank (cs.dropWhile isBlank)

/-- A text without the blanks at both ends. -/
def trim (s : String) : String :=
  String.ofList (trimChars s.toList)

end GoAtlas.Text
