/-!
# Words of the language

The reserved words, which cannot name anything, and the type names that the language declares
itself.
-/

namespace GoAtlas.Vocabulary

/-- The reserved words. -/
def keywords : List String :=
  ["break", "case", "chan", "const", "continue", "default", "defer", "else", "fallthrough", "for",
   "func", "go", "goto", "if", "import", "interface", "map", "package", "range", "return", "select",
   "struct", "switch", "type", "var"]

/-- The reserved words that can be the last word of a statement. -/
def closingKeywords : List String :=
  ["break", "continue", "fallthrough", "return"]

/-- The reserved words that open a type. -/
def typeKeywords : List String :=
  ["struct", "interface", "map", "chan", "func"]

/-- The type names that the language declares itself. -/
def predeclaredTypes : List String :=
  ["any", "bool", "byte", "comparable", "complex64", "complex128", "error", "float32", "float64",
   "int", "int8", "int16", "int32", "int64", "rune", "string", "uint", "uint8", "uint16", "uint32",
   "uint64", "uintptr"]

/-- Whether a word is reserved. -/
def isKeyword (word : String) : Bool :=
  keywords.contains word

/-- Whether a word is a type name that the language declares itself. -/
def isPredeclared (word : String) : Bool :=
  predeclaredTypes.contains word

end GoAtlas.Vocabulary
