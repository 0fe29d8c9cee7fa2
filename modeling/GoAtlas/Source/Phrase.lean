import GoAtlas.Source.Tree

/-!
# Phrases

A phrase is a syntax tree that does not say where it stands. Its leaves are pieces of text, each
with the blanks in front of it, so that a phrase can be written out; put at a place of a text, it
becomes a node. Two texts that hold the same phrase at different places have the same tree there but
for the places.
-/

namespace GoAtlas

/-- A syntax tree without places. -/
inductive Phrase where
  /-- A piece of text, with the blanks in front of it. -/
  | leaf (kind : NodeKind) (field : Option NodeField) (gap text : String)
  /-- A part that the text leaves out. -/
  | absent (kind : NodeKind) (field : Option NodeField)
  | node (kind : NodeKind) (field : Option NodeField) (children : List Phrase)
  deriving Inhabited

namespace Phrase

/-- The kind of node that a phrase becomes. -/
def kind : Phrase → NodeKind
  | leaf kind .. | absent kind _ | node kind .. => kind

/-- The part that a phrase plays in the phrase around it. -/
def field : Phrase → Option NodeField
  | leaf _ field .. | absent _ field | node _ field _ => field

/-- The parts of a phrase. -/
def children : Phrase → List Phrase
  | node _ _ children => children
  | _ => []

/-- A phrase that plays a part. -/
def within (field : NodeField) : Phrase → Phrase
  | leaf kind _ gap text => leaf kind field gap text
  | absent kind _ => absent kind field
  | node kind _ children => node kind field children

mutual

/-- A phrase with other blanks in front of it. -/
def withGap (gap : String) : Phrase → Phrase
  | leaf kind field _ text => leaf kind field gap text
  | absent kind field => absent kind field
  | node kind field children => node kind field (withGapOfList gap children)

/-- Some phrases with other blanks in front of the first. -/
def withGapOfList (gap : String) : List Phrase → List Phrase
  | [] => []
  | p :: rest => p.withGap gap :: rest

end

/-- Whether a phrase is a comment. -/
def isComment (p : Phrase) : Bool :=
  p.kind == .comment

/-! ## Texts -/

mutual

/-- The blanks in front of a phrase. -/
def gap : Phrase → String
  | leaf _ _ gap _ => gap
  | absent .. => ""
  | node _ _ children => gapOfList children

/-- The blanks in front of some phrases. -/
def gapOfList : List Phrase → String
  | [] => ""
  | p :: _ => p.gap

end

mutual

/-- A phrase written out, with the blanks in front of it. -/
def chars : Phrase → List Char
  | leaf _ _ gap text => gap.toList ++ text.toList
  | absent .. => []
  | node _ _ children => charsOfList children

/-- Some phrases written out one after the other. -/
def charsOfList : List Phrase → List Char
  | [] => []
  | p :: rest => p.chars ++ charsOfList rest

end

mutual

/-- What a phrase writes behind the blanks in front of it. -/
def body : Phrase → List Char
  | leaf _ _ _ text => text.toList
  | absent .. => []
  | node _ _ children => bodyOfList children

/-- What some phrases write behind the blanks in front of the first. -/
def bodyOfList : List Phrase → List Char
  | [] => []
  | p :: rest => p.body ++ charsOfList rest

end

/-- The text of a phrase. -/
def text (p : Phrase) : String :=
  String.ofList p.body

/-- Some phrases written out one after the other. -/
def write (ps : List Phrase) : String :=
  String.ofList (charsOfList ps)

/-! ## Places -/

mutual

/-- The node that a phrase becomes when the blanks in front of it start at a place. -/
def place (s : Place) : Phrase → Node
  | leaf kind field gap text =>
    ⟨kind, field, false, s.advance gap.toList, s.advance (gap.toList ++ text.toList), []⟩
  | absent kind field => ⟨kind, field, true, s, s, []⟩
  | node kind field children =>
    ⟨kind, field, false, s.advance (gapOfList children).toList, s.advance (charsOfList children),
      placeAll s children⟩

/-- The nodes that some phrases become one after the other, from a place on. -/
def placeAll (s : Place) : List Phrase → List Node
  | [] => []
  | p :: rest => p.place s :: placeAll (s.advance p.chars) rest

end

/-! ## Equality tests -/

mutual

/-- The equality test on phrases. -/
def decEq : (p q : Phrase) → Decidable (p = q)
  | leaf k f g t, q =>
    match q with
    | leaf k' f' g' t' => decidable_of_iff (k = k' ∧ f = f' ∧ g = g' ∧ t = t') (by simp)
    | absent .. | node .. => isFalse nofun
  | absent k f, q =>
    match q with
    | absent k' f' => decidable_of_iff (k = k' ∧ f = f') (by simp)
    | leaf .. | node .. => isFalse nofun
  | node k f ps, q =>
    match q with
    | node k' f' qs =>
      match decEqList ps qs with
      | isTrue h => decidable_of_iff (k = k' ∧ f = f') (by simp [h])
      | isFalse h => isFalse fun e => h (node.inj e).2.2
    | leaf .. | absent .. => isFalse nofun

/-- The equality test on lists of phrases. -/
def decEqList : (ps qs : List Phrase) → Decidable (ps = qs)
  | [], [] => isTrue rfl
  | [], _ :: _ | _ :: _, [] => isFalse nofun
  | p :: ps, q :: qs =>
    match decEq p q, decEqList ps qs with
    | isTrue h, isTrue h' => isTrue (by rw [h, h'])
    | isFalse h, _ => isFalse fun e => h (List.cons.inj e).1
    | _, isFalse h => isFalse fun e => h (List.cons.inj e).2

end

instance : DecidableEq Phrase := decEq

end Phrase

end GoAtlas
