/-!
# Positions in source text

A position names the unit it lies in, the line and the column of its first byte. Lines and columns
count from one; columns count bytes.
-/

namespace GoAtlas

/-- A place in a unit of source text. -/
structure Position where
  unit : String
  line : Nat
  column : Nat
  deriving DecidableEq, Repr, Inhabited

namespace Position

/-- The written form of a position: unit, line and column, with colons between them. -/
def display (p : Position) : String :=
  p.unit ++ ":" ++ toString p.line ++ ":" ++ toString p.column

end Position

end GoAtlas
