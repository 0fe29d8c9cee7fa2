import GoAtlas.Source.Phrase
import GoAtlas.Text.Blank
import GoAtlas.Text.Identifier

/-!
# Grammar

What is known of the tree of a text that has no errors. A construct that declarations are read off
has a rule for its parts (`NodeKind.rule?`); comments may stand between any two of them, but not in
front of the first or behind the last. Every other construct may be made of any parts. The pieces of
text at the leaves give the text back, and only blanks stand between them (`IsTree`).

In a list of lines each line is ended by a line feed or a semicolon. A line feed that can end a line
does so: up to what ends a line, nothing behind it stands on a line of its own (`KeepsLines`).
-/

namespace GoAtlas

/-! ## Rules -/

/-- How the parts of a construct may follow each other. -/
inductive Rule where
  | empty
  /-- One part of some kinds, in a field or in none. -/
  | part (field : Option NodeField) (isKind : NodeKind → Bool)
  | both (first second : Rule)
  | either (one other : Rule)
  | many (rule : Rule)

namespace Rule

/-- A mark or a reserved word. -/
def mark (text : String) : Rule :=
  part none (· == .symbol text)

/-- What may be left out. -/
def perhaps (rule : Rule) : Rule :=
  either rule empty

/-- Rules one after the other. -/
def inOrder : List Rule → Rule
  | [] => empty
  | rule :: rest => both rule (inOrder rest)

/-- One or more parts with a mark between any two. -/
def separated (text : String) (rule : Rule) : Rule :=
  both rule (many (both (mark text) rule))

/-- Some parts follow a rule. -/
def Derives : Rule → List Phrase → Prop
  | empty, ps => ps = []
  | part field isKind, ps => ∃ p, ps = [p] ∧ p.field = field ∧ isKind p.kind = true
  | both first second, ps => ∃ front back, ps = front ++ back ∧ first.Derives front ∧
      second.Derives back
  | either one other, ps => one.Derives ps ∨ other.Derives ps
  | many rule, ps =>
    ∃ pieces : List (List Phrase), ps = pieces.flatten ∧ ∀ piece ∈ pieces, rule.Derives piece

/-- What can be left of some parts behind pieces that `rests` finds at their start. -/
def restsOfMany (rests : List Phrase → List (List Phrase)) :
    Nat → List Phrase → List (List Phrase)
  | 0, ps => [ps]
  | fuel + 1, ps =>
    ps :: ((rests ps).filter (·.length < ps.length)).flatMap (restsOfMany rests fuel)

/-- What can be left of some parts behind those that follow a rule. -/
def rests : Rule → List Phrase → List (List Phrase)
  | empty, ps => [ps]
  | part _ _, [] => []
  | part field isKind, p :: rest => if p.field = field ∧ isKind p.kind then [rest] else []
  | both first second, ps => (first.rests ps).flatMap second.rests
  | either one other, ps => one.rests ps ++ other.rests ps
  | many rule, ps => restsOfMany rule.rests ps.length ps

/-! ### Deciding whether parts follow a rule -/

theorem mem_restsOfMany_iff {f : List Phrase → List (List Phrase)} {P : List Phrase → Prop}
    (hf : ∀ ps rest, rest ∈ f ps ↔ ∃ front, ps = front ++ rest ∧ P front) {fuel : Nat}
    {ps rest : List Phrase} (hfuel : ps.length ≤ fuel) :
    rest ∈ restsOfMany f fuel ps ↔
      ∃ pieces : List (List Phrase), ps = pieces.flatten ++ rest ∧ ∀ piece ∈ pieces, P piece := by
  induction fuel generalizing ps with
  | zero =>
    obtain rfl := List.eq_nil_of_length_eq_zero (Nat.le_zero.mp hfuel)
    rw [restsOfMany, List.mem_singleton]
    constructor
    · rintro rfl
      exact ⟨[], rfl, List.forall_mem_nil _⟩
    · rintro ⟨pieces, h, -⟩
      exact (List.append_eq_nil_iff.mp h.symm).2
  | succ fuel ih =>
    rw [restsOfMany, List.mem_cons, List.mem_flatMap]
    constructor
    · rintro (rfl | ⟨mid, hmid, hrest⟩)
      · exact ⟨[], rfl, List.forall_mem_nil _⟩
      · obtain ⟨hmid, hlength⟩ := List.mem_filter.mp hmid
        obtain ⟨front, rfl, hfront⟩ := (hf ps mid).mp hmid
        have hlength : mid.length ≤ fuel := by
          have := of_decide_eq_true hlength
          omega
        obtain ⟨pieces, rfl, hpieces⟩ := (ih hlength).mp hrest
        exact ⟨front :: pieces, by simp, List.forall_mem_cons.mpr ⟨hfront, hpieces⟩⟩
    · rintro ⟨pieces, h, hpieces⟩
      -- an empty piece leaves everything as it is, so the first piece may be taken not to be empty
      induction pieces with
      | nil => exact Or.inl h.symm
      | cons piece pieces ihPieces =>
        rw [List.forall_mem_cons] at hpieces
        obtain ⟨hpiece, hpieces⟩ := hpieces
        cases hne : piece with
        | nil => exact ihPieces (by rw [h, hne]; rfl) hpieces
        | cons p others =>
          rw [List.flatten_cons, List.append_assoc] at h
          have hlength : (pieces.flatten ++ rest).length < ps.length := by
            rw [h, hne]
            simp only [List.length_append, List.length_cons]
            omega
          refine Or.inr ⟨pieces.flatten ++ rest, List.mem_filter.mpr ⟨?_, ?_⟩, ?_⟩
          · exact (hf ps _).mpr ⟨piece, h, hpiece⟩
          · exact decide_eq_true hlength
          · exact (ih (by omega)).mpr ⟨pieces, rfl, hpieces⟩

/-- What `rests` finds is what is left behind parts that follow the rule. -/
theorem mem_rests_iff (rule : Rule) (ps rest : List Phrase) :
    rest ∈ rule.rests ps ↔ ∃ front, ps = front ++ rest ∧ rule.Derives front := by
  induction rule generalizing ps rest with
  | empty =>
    rw [rests, List.mem_singleton]
    exact ⟨fun h => ⟨[], h.symm, rfl⟩, fun ⟨_, h, hfront⟩ => by rw [h, hfront]; rfl⟩
  | part field isKind =>
    cases ps with
    | nil =>
      refine iff_of_false (List.not_mem_nil) ?_
      rintro ⟨_, h, p, rfl, -⟩
      cases h
    | cons p ps =>
      rw [rests]
      split <;> rename_i h
      · rw [List.mem_singleton]
        constructor
        · rintro rfl
          exact ⟨[p], rfl, p, rfl, h⟩
        · rintro ⟨_, hps, q, rfl, -⟩
          exact (List.cons.inj hps).2.symm
      · refine iff_of_false List.not_mem_nil ?_
        rintro ⟨_, hps, q, rfl, hq⟩
        obtain ⟨rfl, -⟩ := List.cons.inj hps
        exact h hq
  | both first second ihFirst ihSecond =>
    rw [rests, List.mem_flatMap]
    constructor
    · rintro ⟨mid, hmid, hrest⟩
      obtain ⟨front, rfl, hfront⟩ := (ihFirst ps mid).mp hmid
      obtain ⟨back, rfl, hback⟩ := (ihSecond mid rest).mp hrest
      exact ⟨front ++ back, by simp, front, back, rfl, hfront, hback⟩
    · rintro ⟨_, rfl, front, back, rfl, hfront, hback⟩
      exact ⟨back ++ rest, (ihFirst _ _).mpr ⟨front, by simp, hfront⟩,
        (ihSecond _ _).mpr ⟨back, rfl, hback⟩⟩
  | either one other ihOne ihOther =>
    rw [rests, List.mem_append, ihOne, ihOther]
    constructor
    · rintro (⟨front, h, hfront⟩ | ⟨front, h, hfront⟩)
      · exact ⟨front, h, Or.inl hfront⟩
      · exact ⟨front, h, Or.inr hfront⟩
    · rintro ⟨front, h, hfront | hfront⟩
      · exact Or.inl ⟨front, h, hfront⟩
      · exact Or.inr ⟨front, h, hfront⟩
  | many rule ih =>
    rw [rests, mem_restsOfMany_iff ih (Nat.le_refl _)]
    constructor
    · rintro ⟨pieces, h, hpieces⟩
      exact ⟨pieces.flatten, h, pieces, rfl, hpieces⟩
    · rintro ⟨_, h, pieces, rfl, hpieces⟩
      exact ⟨pieces, h, hpieces⟩

/-- Some parts follow a rule when it can leave nothing of them. -/
theorem any_isEmpty_rests_iff (rule : Rule) (ps : List Phrase) :
    (rule.rests ps).any List.isEmpty = true ↔ rule.Derives ps := by
  rw [List.any_eq_true]
  constructor
  · rintro ⟨rest, hrest, hempty⟩
    obtain rfl := List.isEmpty_iff.mp hempty
    obtain ⟨front, rfl, hfront⟩ := (mem_rests_iff rule ps []).mp hrest
    rwa [List.append_nil]
  · intro h
    exact ⟨[], (mem_rests_iff rule ps []).mpr ⟨ps, (List.append_nil ps).symm, h⟩, rfl⟩

instance (rule : Rule) (ps : List Phrase) : Decidable (rule.Derives ps) :=
  decidable_of_iff _ (any_isEmpty_rests_iff rule ps)

end Rule

/-! ## The rules of the language -/

namespace NodeKind

/-- Whether nodes of a kind can stand where a type is asked for. -/
def isType : NodeKind → Bool
  | typeIdentifier | qualifiedType | genericType | pointerType | parenthesizedType | structType
  | interfaceType | other _ => true
  | _ => false

/-- Whether nodes of a kind are words. -/
def isWord : NodeKind → Bool
  | identifier | typeIdentifier | fieldIdentifier | packageIdentifier => true
  | _ => false

/-- Whether nodes of a kind are lines of a source file. -/
def isStatement : NodeKind → Bool
  | typeDeclaration | other _ => true
  | _ => false

/-- Whether nodes of a kind end a line. -/
def isTerminator (kind : NodeKind) : Bool :=
  kind == symbol "\n" || kind == symbol ";" || kind == symbol "\x00"

open Rule

/-- Lines, the last of which need not be ended. -/
def lines (line : Rule) : Rule :=
  both (many (both line (part none isTerminator))) (perhaps line)

/-- The lines of a source file. -/
def fileRule : Rule :=
  lines (part none isStatement)

/-- The front of a declaration: its name, perhaps with type parameters. -/
def headRule : Rule :=
  both (part (some .name) (· == typeIdentifier))
    (perhaps (part (some .typeParameters) (· == typeParameterList)))

/-- A type in its field. -/
def typeRule : Rule :=
  part (some .type) isType

/-- The rule of a construct that has no parts: there is none in a tree. -/
def noRule : Rule :=
  part none fun _ => false

/-- The rule for the parts of a construct, if it is looked into. -/
def rule? : NodeKind → Option Rule
  | sourceFile => some fileRule
  | typeDeclaration =>
    some (both (mark "type") (either (part none isSpec)
      (inOrder [mark "(", many (both (part none isSpec) (part none isTerminator)), mark ")"])))
  | typeSpec => some (both headRule typeRule)
  | typeAlias => some (inOrder [headRule, mark "=", typeRule])
  | qualifiedType =>
    some (inOrder [part (some .package) (· == packageIdentifier), mark ".",
      part (some .name) (· == typeIdentifier)])
  | pointerType => some (both (mark "*") (part none isType))
  | parenthesizedType => some (inOrder [mark "(", part none isType, mark ")"])
  | structType => some (both (mark "struct") (part none (· == fieldDeclarationList)))
  | fieldDeclarationList =>
    some (inOrder [mark "\x7b", lines (part none (· == fieldDeclaration)), mark "\x7d"])
  | fieldDeclaration =>
    some (both
      (either (both (separated "," (part (some .name) (· == fieldIdentifier))) typeRule)
        (both (perhaps (mark "*")) (part (some .type) isTypeName)))
      (perhaps (part (some .tag) isNamed)))
  | interfaceType =>
    some (inOrder [mark "interface", mark "\x7b",
      lines (part none fun kind => kind == methodElem || kind == typeElem), mark "\x7d"])
  | methodElem =>
    some (inOrder [part (some .name) (· == fieldIdentifier),
      part (some .parameters) (· == parameterList),
      perhaps (part (some .result) fun kind => kind == parameterList || kind.isType)])
  | typeElem => some (separated "|" (part none isType))
  | parameterList =>
    some (inOrder [mark "(",
      perhaps (separated "," (part none fun kind =>
        kind == parameterDeclaration || kind == variadicParameterDeclaration)),
      perhaps (mark ","), mark ")"])
  | parameterDeclaration =>
    some (both (perhaps (separated "," (part (some .name) (· == identifier)))) typeRule)
  | variadicParameterDeclaration =>
    some (inOrder [perhaps (part (some .name) (· == identifier)), mark "...", typeRule])
  | methodSpec | constraintElem | interfaceTypeName => some noRule
  | _ => none

/-- Whether the parts of a construct include lines. -/
def hasLines : NodeKind → Bool
  | sourceFile | typeDeclaration | fieldDeclarationList | interfaceType => true
  | _ => false

end NodeKind

/-! ## Phrases that follow the rules -/

/-- Whether a character may stand between two leaves: a blank, or a byte order mark. -/
def isGapChar (c : Char) : Bool :=
  Text.isBlank c || c == '\uFEFF'

namespace Phrase

/-- Whether a text is a word: it starts as an identifier and goes on as one. -/
def isWordText (text : String) : Bool :=
  text.toList.head?.any Text.isIdentifierStart && text.toList.tail.all Text.isIdentifierInner

/-- Whether a leaf of a kind can have a text. A mark is its own text, but the end of a source that
ends a line has none; a word is one, and a comment starts with two slashes or with a slash and a
star. -/
def spells (kind : NodeKind) (text : String) : Bool :=
  match kind with
  | .symbol mark => text == mark || (mark == "\x00" && text == "")
  | .comment => ['/', '/'].isPrefixOf text.toList || ['/', '*'].isPrefixOf text.toList
  | .error => false
  | _ => kind.rule?.isNone && (!kind.isWord || isWordText text)

/-- Whether some phrases keep to their lines. Behind a line, up to what ends it, nothing starts on a
new line, and no line has a line feed for its last character. The first phrase is `behind` a line or
not. -/
def keepsLines (behind : Bool) : List Phrase → Bool
  | [] => true
  | p :: rest =>
    !(behind && p.gap.toList.contains '\n') &&
      if p.isComment then keepsLines behind rest
      else !(p.kind.isNamed && p.chars.getLast? == some '\n') && keepsLines p.kind.isNamed rest

/-- Whether some phrases have no comment at either end. -/
def isEnclosed (ps : List Phrase) : Bool :=
  ps.head?.any (!·.isComment) && ps.getLast?.any (!·.isComment)

/-- Some phrases without the comments among them. -/
def parts (ps : List Phrase) : List Phrase :=
  ps.filter (!·.isComment)

mutual

/-- A phrase follows the grammar at every node. -/
def Follows : Phrase → Prop
  | leaf kind field gap text =>
    gap.toList.all isGapChar = true ∧ spells kind text = true ∧
      (kind != .comment || field.isNone) = true
  | absent .. => False
  | node kind _ children =>
    (kind.isNamed && kind != .comment && kind != .error && !kind.isWord &&
        isEnclosed children) = true ∧
      (∀ rule ∈ kind.rule?, rule.Derives (parts children)) ∧
      (!kind.hasLines || keepsLines false children) = true ∧ FollowAll children

/-- Some phrases follow the grammar. -/
def FollowAll : List Phrase → Prop
  | [] => True
  | p :: rest => p.Follows ∧ FollowAll rest

end

mutual

/-- Whether a phrase follows the grammar. -/
def decideFollows : (p : Phrase) → Decidable p.Follows
  | leaf kind field gap text =>
    inferInstanceAs (Decidable (gap.toList.all isGapChar = true ∧ spells kind text = true ∧
      (kind != .comment || field.isNone) = true))
  | absent .. => inferInstanceAs (Decidable False)
  | node kind _ children =>
    have := decideFollowAll children
    inferInstanceAs (Decidable (_ ∧ (∀ rule ∈ kind.rule?, rule.Derives (parts children)) ∧ _ ∧
      FollowAll children))

/-- Whether some phrases follow the grammar. -/
def decideFollowAll : (ps : List Phrase) → Decidable (FollowAll ps)
  | [] => inferInstanceAs (Decidable True)
  | p :: rest =>
    have := decideFollows p
    have := decideFollowAll rest
    inferInstanceAs (Decidable (p.Follows ∧ FollowAll rest))

end

instance : DecidablePred Follows := decideFollows

instance : DecidablePred FollowAll := decideFollowAll

/-- Some phrases are what the root of a source file is made of. -/
structure IsFile (ps : List Phrase) : Prop where
  derives : NodeKind.fileRule.Derives (parts ps)
  keepsLines : keepsLines false ps = true
  follow : FollowAll ps

theorem isFile_iff (ps : List Phrase) :
    IsFile ps ↔ NodeKind.fileRule.Derives (parts ps) ∧ keepsLines false ps = true ∧ FollowAll ps :=
  ⟨fun h => ⟨h.derives, h.keepsLines, h.follow⟩, fun h => ⟨h.1, h.2.1, h.2.2⟩⟩

instance (ps : List Phrase) : Decidable (IsFile ps) :=
  decidable_of_iff _ (isFile_iff ps).symm

end Phrase

/-! ## Trees of texts -/

/-- A tree is what a parser makes of a source text without errors: the nodes below its root follow
the grammar, and their leaves with the blanks between them are the text. -/
structure IsTree (source : String) (root : Node) : Prop where
  exists_phrases : ∃ ps tail, Phrase.IsFile ps ∧ root.children = Phrase.placeAll .start ps ∧
    source.toList = Phrase.charsOfList ps ++ tail ∧ tail.all isGapChar = true

/-- A parser reads the text of some phrases as these phrases. -/
def ReadsAs (parse : String → Node) (ps : List Phrase) : Prop :=
  (parse (Phrase.write ps)).children = Phrase.placeAll .start ps

end GoAtlas
