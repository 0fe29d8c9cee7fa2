import GoAtlas.Declaration.Shaping
import GoAtlas.Proofs.Text.Blank
import Mathlib.Data.List.Infix

/-!
# Instances of embedded types

The instances of a generic type are kept as text. Wherever such a text is embedded, it stands for
the same reference as the name that it starts with, with its star and its package, whatever type
arguments follow and wherever there are blanks (`Reference.ofEmbedded_of_isInstance`). Any other
text gives a name that stands in it, or is kept as it is (`Reference.ofEmbedded_readFrom`). So an
embedded instance and the embedded name make the same declaration
(`Reference.ofEmbedded_instances`).
-/

namespace GoAtlas

namespace Reference

variable {c : Char} {package : Option String} {name text : String} {pointer : Bool}
  {cs rest : List Char}

/-! ## Names -/

theorem isNameChar_of_isBlank (h : Text.isBlank c = true) : isNameChar c = false := by
  have hblanks : ∀ n ∈ Text.blankNumbers, isNameChar (Char.ofNat n) = false := by decide +kernel
  exact Text.eq_false_of_isBlank hblanks h

/-- A text that can name a type: it has characters, and all of them are characters of names. -/
structure IsName (s : String) : Prop where
  nonempty : s.toList ≠ []
  chars : ∀ c ∈ s.toList, isNameChar c = true

instance (s : String) : Decidable (IsName s) :=
  decidable_of_iff (s.toList ≠ [] ∧ s.toList.all isNameChar = true)
    ⟨fun h => ⟨h.1, List.all_eq_true.mp h.2⟩, fun h => ⟨h.1, List.all_eq_true.mpr h.2⟩⟩

/-- The characters of a name with its package are those of names, and dots. -/
theorem isNameChar_or_dot_of_mem_render (hname : IsName name) (hpackage : ∀ p ∈ package, IsName p)
    (hc : c ∈ (TypeExpr.named package name).render.toList) : isNameChar c = true ∨ c = '.' := by
  cases package with
  | none => exact .inl (hname.chars c hc)
  | some p =>
    simp only [TypeExpr.render, String.toList_append, List.mem_append] at hc
    rcases hc with (hc | hc) | hc
    · exact .inl ((hpackage p rfl).chars c hc)
    · exact .inr (List.mem_singleton.mp hc)
    · exact .inl (hname.chars c hc)

/-- A name with its package has no blanks, no brackets and no stars. -/
theorem not_mem_render (hname : IsName name) (hpackage : ∀ p ∈ package, IsName p)
    (hc : c ∈ (TypeExpr.named package name).render.toList) :
    Text.isBlank c = false ∧ c ≠ '[' ∧ c ≠ '*' := by
  rcases isNameChar_or_dot_of_mem_render hname hpackage hc with hchar | rfl
  · refine ⟨Bool.eq_false_iff.mpr fun hblank => ?_, ?_, ?_⟩
    · rw [isNameChar_of_isBlank hblank] at hchar
      cases hchar
    · rintro rfl
      revert hchar
      decide
    · rintro rfl
      revert hchar
      decide
  · decide

theorem render_ne_nil (hname : IsName name) :
    (TypeExpr.named package name).render.toList ≠ [] := by
  intro hnil
  apply hname.nonempty
  cases package with
  | none => exact hnil
  | some p =>
    rw [TypeExpr.render, String.toList_append] at hnil
    exact (List.append_eq_nil_iff.mp hnil).2

/-- **A name is cut off its package** at the last dot, since it has no dot itself. -/
theorem cutAtLastDot_render (hname : IsName name) :
    cutAtLastDot (TypeExpr.named package name).render.toList =
      (package.map String.toList, name.toList) := by
  have hdots : ∀ c ∈ name.toList.reverse, (c != '.') = true := by
    intro c hc
    refine bne_iff_ne.mpr ?_
    rintro rfl
    have hdot := hname.chars '.' (List.mem_reverse.mp hc)
    revert hdot
    decide
  cases package with
  | none =>
    have htake : name.toList.reverse.takeWhile (· != '.') = name.toList.reverse :=
      List.takeWhile_eq_self_iff.mpr hdots
    simp [cutAtLastDot, TypeExpr.render, htake]
  | some p =>
    have hspelled : (TypeExpr.named (some p) name).render.toList =
        p.toList ++ '.' :: name.toList := by
      simp [TypeExpr.render, String.toList_append]
    have htake : ((p.toList ++ '.' :: name.toList).reverse.takeWhile (· != '.')) =
        name.toList.reverse := by
      rw [List.reverse_append, List.reverse_cons, List.append_assoc,
        List.takeWhile_append_of_pos hdots]
      simp
    have hlength : name.toList.length < (p.toList ++ '.' :: name.toList).length := by
      simp; omega
    have hbefore : (p.toList ++ '.' :: name.toList).length - name.toList.length - 1 =
        p.toList.length := by simp; omega
    -- the last dot stands right in front of the name
    rw [hspelled, cutAtLastDot, htake, List.reverse_reverse, if_pos hlength, hbefore,
      List.take_left]
    rfl

/-! ## Reading a text -/

theorem ofEmbedded_verbatim (text : String) :
    ofEmbedded (.verbatim text) = (ofEmbeddedText? text).getD (verbatim text) := by
  rw [ofEmbedded]

theorem ofEmbedded_pointer_verbatim (text : String) :
    ofEmbedded (.pointer (.verbatim text)) =
      (ofEmbeddedText? ("*" ++ text)).getD (verbatim ("*" ++ text)) := by
  simp only [ofEmbedded, ofExpr, TypeExpr.render]

/-- The reference of a text from its name on, with what is known about a star in front. -/
def ofNameText? (pointer : Bool) (cs : List Char) : Option Reference :=
  let (package, name) := cutAtLastDot (Text.trimChars (cs.takeWhile (· != '[')))
  if name.isEmpty || !name.all isNameChar then none
  else some (named (package.map String.ofList) (String.ofList name) pointer)

theorem ofEmbeddedText?_of_star (h : Text.trimChars text.toList = '*' :: rest) :
    ofEmbeddedText? text = ofNameText? true (rest.dropWhile Text.isBlank) := by
  rw [ofEmbeddedText?, h]
  rfl

theorem ofEmbeddedText?_of_ne_star (h : (Text.trimChars text.toList).head? ≠ some '*') :
    ofEmbeddedText? text = ofNameText? false (Text.trimChars text.toList) := by
  rw [ofEmbeddedText?]
  cases hbody : Text.trimChars text.toList with
  | nil => rfl
  | cons first rest =>
    dsimp only
    split
    · rename_i behind hstar
      rw [hbody, hstar] at h
      exact absurd rfl h
    · rfl

/-- What is read from a name on, up to the bracket, may have blanks behind it. -/
theorem ofNameText?_render (hname : IsName name) (hpackage : ∀ p ∈ package, IsName p)
    (hrest : ∀ c ∈ rest.takeWhile (· != '['), Text.isBlank c = true) (pointer : Bool) :
    ofNameText? pointer ((TypeExpr.named package name).render.toList ++ rest) =
      some (named package name pointer) := by
  have hcut : (((TypeExpr.named package name).render.toList ++ rest).takeWhile (· != '[')) =
      (TypeExpr.named package name).render.toList ++ rest.takeWhile (· != '[') :=
    List.takeWhile_append_of_pos fun c hc =>
      bne_iff_ne.mpr (not_mem_render hname hpackage hc).2.1
  -- what is left of the text up to the bracket is the name, when the blanks behind it are dropped
  have htrim := Text.trimChars_append (List.forall_mem_nil _)
    (fun c hc => (not_mem_render hname hpackage hc).1) (render_ne_nil hname)
    (rest.takeWhile (· != '['))
  rw [List.nil_append, Text.dropTrailing_of_forall hrest, List.append_nil] at htrim
  have hcheck : (name.toList.isEmpty || !name.toList.all isNameChar) = false := by
    rw [Bool.or_eq_false_iff, Bool.not_eq_false', List.all_eq_true, List.isEmpty_eq_false_iff]
    exact ⟨hname.nonempty, hname.chars⟩
  rw [ofNameText?, hcut, htrim, cutAtLastDot_render hname]
  simp only [hcheck, Bool.false_eq_true, if_false, String.ofList_toList]
  cases package with
  | none => rfl
  | some p => simp

/-! ## Texts of instances -/

/-- A text of blanks. -/
def IsBlanks (s : String) : Prop :=
  ∀ c ∈ s.toList, Text.isBlank c = true

instance (s : String) : Decidable (IsBlanks s) :=
  decidable_of_iff (s.toList.all Text.isBlank = true) List.all_eq_true

/-- Type arguments: nothing, or a bracket with whatever follows it. -/
def IsArguments (s : String) : Prop :=
  ∀ c ∈ s.toList.head?, c = '['

instance (s : String) : Decidable (IsArguments s) :=
  decidable_of_iff (s.toList.head?.all (· == '[') = true) (by simp [IsArguments, Option.all_eq_true])

/-- A text that spells a name with its package, and type arguments behind it, with blanks in front,
between them and at the end. -/
def IsSpelled (package : Option String) (name text : String) : Prop :=
  ∃ before gap arguments after, IsBlanks before ∧ IsBlanks gap ∧ IsArguments arguments ∧
    IsBlanks after ∧
    text = before ++ (TypeExpr.named package name).render ++ gap ++ arguments ++ after

/-- A type that is kept as text, as it may be read from an instance of a named type or of a pointer
to one, and the type without its arguments. -/
inductive IsInstance (package : Option String) (name : String) : TypeExpr → TypeExpr → Prop
  | plain {text : String} : IsSpelled package name text →
      IsInstance package name (.verbatim text) (.named package name)
  | starred {before text : String} : IsBlanks before → IsSpelled package name text →
      IsInstance package name (.verbatim (before ++ "*" ++ text)) (.pointer (.named package name))
  | pointed {text : String} : IsSpelled package name text →
      IsInstance package name (.pointer (.verbatim text)) (.pointer (.named package name))

/-- What stands behind a name is blank up to the bracket, also when the blanks at the end are
dropped. -/
theorem isBlank_of_mem_behind {gap arguments after : String} (hgap : IsBlanks gap)
    (harguments : IsArguments arguments) (hafter : IsBlanks after) :
    ∀ c ∈ (Text.dropTrailing Text.isBlank (gap.toList ++ (arguments.toList ++ after.toList))).takeWhile
      (· != '['), Text.isBlank c = true := by
  have hbracket : Text.isBlank '[' = false := by decide
  have hplain : ∀ c ∈ gap.toList, (c != '[') = true := by
    intro c hc
    refine bne_iff_ne.mpr ?_
    rintro rfl
    exact absurd (hgap _ hc) (by decide)
  cases hopen : arguments.toList with
  | nil =>
    rw [List.nil_append, Text.dropTrailing_of_forall (List.forall_mem_append.mpr ⟨hgap, hafter⟩)]
    exact nofun
  | cons first inner =>
    obtain rfl : first = '[' := harguments first (by rw [hopen]; rfl)
    rw [List.cons_append, Text.dropTrailing_append_cons hbracket,
      List.takeWhile_append_of_pos hplain, List.takeWhile_cons_of_neg (by simp), List.append_nil]
    exact hgap

/-- A text of an instance starts with blanks and the name, and what stands behind is blank up to the
bracket. -/
theorem IsSpelled.exists_behind (h : IsSpelled package name text) : ∃ before behind,
    text.toList = before ++ ((TypeExpr.named package name).render.toList ++ behind) ∧
      (∀ c ∈ before, Text.isBlank c = true) ∧
      ∀ c ∈ (Text.dropTrailing Text.isBlank behind).takeWhile (· != '['),
        Text.isBlank c = true := by
  obtain ⟨before, gap, arguments, after, hbefore, hgap, harguments, hafter, rfl⟩ := h
  refine ⟨before.toList, gap.toList ++ (arguments.toList ++ after.toList), ?_, hbefore,
    isBlank_of_mem_behind hgap harguments hafter⟩
  simp only [String.toList_append, List.append_assoc]

theorem ofEmbeddedText?_of_isSpelled (hname : IsName name) (hpackage : ∀ p ∈ package, IsName p)
    (h : IsSpelled package name text) :
    ofEmbeddedText? text = some (named package name false) := by
  obtain ⟨before, behind, htext, hbefore, hbehind⟩ := h.exists_behind
  have htrim : Text.trimChars text.toList = (TypeExpr.named package name).render.toList ++
      Text.dropTrailing Text.isBlank behind := by
    rw [htext]
    exact Text.trimChars_append hbefore (fun c hc => (not_mem_render hname hpackage hc).1)
      (render_ne_nil hname) behind
  rw [ofEmbeddedText?_of_ne_star, htrim, ofNameText?_render hname hpackage hbehind]
  -- the first character is one of the name or its package
  rw [htrim, List.head?_append_of_ne_nil _ (render_ne_nil hname)]
  intro hstar
  exact (not_mem_render hname hpackage (List.mem_of_mem_head? hstar)).2.2 rfl

theorem ofEmbeddedText?_star_append (hname : IsName name) (hpackage : ∀ p ∈ package, IsName p)
    {front : String} (hfront : IsBlanks front) (h : IsSpelled package name text) :
    ofEmbeddedText? (front ++ "*" ++ text) = some (named package name true) := by
  obtain ⟨before, behind, htext, hbefore, hbehind⟩ := h.exists_behind
  have hplain : ∀ c ∈ (TypeExpr.named package name).render.toList, Text.isBlank c = false :=
    fun c hc => (not_mem_render hname hpackage hc).1
  have hstar : ∀ c ∈ "*".toList, Text.isBlank c = false := by
    intro c hc
    obtain rfl := List.mem_singleton.mp hc
    decide
  have hne : "*".toList ≠ [] := List.cons_ne_nil _ _
  have htrim : Text.trimChars (front ++ "*" ++ text).toList = '*' :: (before ++
      ((TypeExpr.named package name).render.toList ++ Text.dropTrailing Text.isBlank behind)) := by
    rw [String.toList_append, String.toList_append, htext, List.append_assoc,
      Text.trimChars_append hfront hstar hne,
      Text.dropTrailing_append hplain (render_ne_nil hname)]
    rfl
  -- the blanks between the star and the name go before the name is read
  rw [ofEmbeddedText?_of_star htrim, Text.dropWhile_append hbefore hplain (render_ne_nil hname),
    ofNameText?_render hname hpackage hbehind]

/-- **An instance that is embedded** stands for the same reference as the type without arguments. -/
theorem ofEmbedded_of_isInstance {raw type : TypeExpr} (hname : IsName name)
    (hpackage : ∀ p ∈ package, IsName p) (h : IsInstance package name raw type) :
    ofEmbedded raw = ofEmbedded type := by
  cases h with
  | plain h =>
    rw [ofEmbedded_verbatim, ofEmbeddedText?_of_isSpelled hname hpackage h]
    rfl
  | starred hfront h =>
    rw [ofEmbedded_verbatim, ofEmbeddedText?_star_append hname hpackage hfront h]
    rfl
  | pointed h =>
    have hnone : IsBlanks "" := List.forall_mem_nil _
    -- a pointer is read as the text with a star in front
    have hstar := ofEmbeddedText?_star_append hname hpackage hnone h
    rw [String.empty_append] at hstar
    rw [ofEmbedded_pointer_verbatim, hstar]
    rfl

/-! ## Any text -/

/-- A reference that is read from a text: a name in the text, or all of what stands there. -/
def IsReadFrom (text whole : String) (r : Reference) : Prop :=
  (∃ package name pointer, r = named package name pointer ∧ IsName name ∧
    name.toList <:+: text.toList) ∨ r = verbatim whole

theorem cutAtLastDot_suffix (cs : List Char) : (cutAtLastDot cs).2 <:+ cs := by
  have hname : (cs.reverse.takeWhile (· != '.')).reverse <:+ cs := by
    rw [← List.reverse_prefix, List.reverse_reverse]
    exact List.takeWhile_prefix _
  unfold cutAtLastDot
  dsimp only
  split
  · exact hname
  · exact hname

theorem ofNameText?_eq_some {r : Reference} (h : ofNameText? pointer cs = some r) :
    ∃ package name, r = named package name pointer ∧ IsName name ∧ name.toList <:+: cs := by
  have hinfix : (cutAtLastDot (Text.trimChars (cs.takeWhile (· != '[')))).2 <:+: cs :=
    ((cutAtLastDot_suffix _).isInfix.trans (Text.trimChars_infix _)).trans
      (List.takeWhile_prefix _).isInfix
  unfold ofNameText? at h
  dsimp only at h
  split at h
  · cases h
  · rename_i hcheck
    rw [Bool.not_eq_true, Bool.or_eq_false_iff, Bool.not_eq_false', List.all_eq_true,
      List.isEmpty_eq_false_iff] at hcheck
    refine ⟨_, _, (Option.some.inj h).symm, ⟨?_, ?_⟩, ?_⟩
    all_goals rw [String.toList_ofList]
    · exact hcheck.1
    · exact hcheck.2
    · exact hinfix

/-- **A name that is read** from a text stands in the text. -/
theorem ofEmbeddedText?_eq_some {r : Reference} (h : ofEmbeddedText? text = some r) :
    ∃ package name pointer, r = named package name pointer ∧ IsName name ∧
      name.toList <:+: text.toList := by
  have htrim := Text.trimChars_infix text.toList
  by_cases hstar : (Text.trimChars text.toList).head? = some '*'
  · obtain ⟨rest, hrest⟩ := List.head?_eq_some_iff.mp hstar
    rw [ofEmbeddedText?_of_star hrest] at h
    obtain ⟨package, name, hr, hname, hinfix⟩ := ofNameText?_eq_some h
    have hbehind : rest.dropWhile Text.isBlank <:+: text.toList :=
      ((List.dropWhile_suffix _).trans (List.suffix_cons '*' rest)).isInfix.trans (hrest ▸ htrim)
    exact ⟨package, name, true, hr, hname, hinfix.trans hbehind⟩
  · rw [ofEmbeddedText?_of_ne_star hstar] at h
    obtain ⟨package, name, hr, hname, hinfix⟩ := ofNameText?_eq_some h
    exact ⟨package, name, false, hr, hname, hinfix.trans htrim⟩

/-- Text that does not name a type is kept as it is. -/
theorem isReadFrom_getD (text : String) {whole : String} {rest : String}
    (h : ∀ name, IsName name → name.toList <:+: whole.toList → name.toList <:+: rest.toList) :
    IsReadFrom rest text ((ofEmbeddedText? whole).getD (verbatim text)) := by
  cases hread : ofEmbeddedText? whole with
  | none => exact .inr rfl
  | some r =>
    obtain ⟨package, name, pointer, hr, hname, hinfix⟩ := ofEmbeddedText?_eq_some hread
    exact .inl ⟨package, name, pointer, hr, hname, h name hname hinfix⟩

/-- A name has no star, so it stands behind a star in front of the text. -/
theorem IsName.infix_of_star (hname : IsName name) (h : name.toList <:+: ("*" ++ text).toList) :
    name.toList <:+: text.toList := by
  rw [String.toList_append] at h
  rcases List.infix_cons_iff.mp h with hfront | hrest
  · obtain ⟨first, rest, hchars⟩ := List.exists_cons_of_ne_nil hname.nonempty
    rw [hchars] at hfront
    obtain rfl : first = '*' := (List.cons_prefix_cons.mp hfront).1
    have hstar := hname.chars '*' (by rw [hchars]; exact List.mem_cons_self)
    exact absurd hstar (by decide)
  · exact hrest

/-- **Whatever text is embedded**, it stands for a name in it or for itself, with the star in front
if there is one. -/
theorem ofEmbedded_readFrom (text : String) :
    IsReadFrom text text (ofEmbedded (.verbatim text)) ∧
      IsReadFrom text ("*" ++ text) (ofEmbedded (.pointer (.verbatim text))) := by
  rw [ofEmbedded_verbatim, ofEmbedded_pointer_verbatim]
  constructor
  · exact isReadFrom_getD text fun _ _ h => h
  · exact isReadFrom_getD ("*" ++ text) fun _ hname h => hname.infix_of_star h

/-! ## Declarations -/

variable {raw type : TypeExpr}

theorem IsInstance.ofEmbedded_eq_named (h : IsInstance package name raw type) :
    ∃ pointer, ofEmbedded type = named package name pointer := by
  cases h with
  | plain _ => exact ⟨false, rfl⟩
  | starred _ _ => exact ⟨true, rfl⟩
  | pointed _ => exact ⟨true, rfl⟩

theorem IsInstance.ne_missing (h : IsInstance package name raw type) :
    raw ≠ .missing ∧ type ≠ .missing := by
  constructor
  · rintro rfl
    cases h
  · rintro rfl
    cases h

/-- The field is named after the reference, so the arguments do not show in its name either. -/
theorem embeddedField_of_isInstance (hname : IsName name) (hpackage : ∀ p ∈ package, IsName p)
    (h : IsInstance package name raw type) (tag : Option String) (position : Position)
    (depth : Nat) : FieldDecl.embeddedField raw tag position depth =
      FieldDecl.embeddedField type tag position depth := by
  obtain ⟨pointer, htype⟩ := h.ofEmbedded_eq_named
  have hraw := (ofEmbedded_of_isInstance hname hpackage h).trans htype
  simp only [FieldDecl.embeddedField, hraw, htype, simpleName?, Option.getD_some]

theorem fields_of_isInstance (hname : IsName name) (hpackage : ∀ p ∈ package, IsName p)
    (h : IsInstance package name raw type) (limit : Nat) (owner : String) (depth : Nat)
    (tag : Option String) (position : Position) :
    FieldDecl.fields limit owner depth ⟨[], raw, tag, position⟩ =
      FieldDecl.fields limit owner depth ⟨[], type, tag, position⟩ := by
  rw [FieldDecl.fields.eq_2 _ _ _ _ _ _ h.ne_missing.1,
    FieldDecl.fields.eq_2 _ _ _ _ _ _ h.ne_missing.2,
    embeddedField_of_isInstance hname hpackage h]

/-- A line of a struct body may be replaced by one with the same fields. -/
theorem fieldsOfList_congr {limit depth : Nat} {owner : String} {line line' : FieldDecl}
    (h : FieldDecl.fields limit owner depth line = FieldDecl.fields limit owner depth line')
    (before after : List FieldDecl) :
    FieldDecl.fieldsOfList limit owner depth (before ++ line :: after) =
      FieldDecl.fieldsOfList limit owner depth (before ++ line' :: after) := by
  induction before with
  | nil => simp only [List.nil_append, FieldDecl.fieldsOfList, h]
  | cons first before ih => simp only [List.cons_append, FieldDecl.fieldsOfList, ih]

/-- **Embedded instances and embedded names are alike.** With blanks around the text, behind the
star and in front of the bracket, and with any text behind the bracket, an embedded instance stands
for the reference of the name it starts with, makes the same field, and stands for the same embedded
interface. A declaration with it is the declaration with the name, so it embeds the same types.
Whatever other text is embedded stands for a name in it, or for itself. -/
theorem ofEmbedded_instances :
    (∀ package name raw type, IsName name → (∀ p ∈ package, IsName p) →
      IsInstance package name raw type →
        ofEmbedded raw = ofEmbedded type ∧
        (∀ limit owner depth tag position,
          FieldDecl.fields limit owner depth ⟨[], raw, tag, position⟩ =
            FieldDecl.fields limit owner depth ⟨[], type, tag, position⟩) ∧
        (Element.embed raw).embed? = (Element.embed type).embed? ∧
        (∀ config (c : Candidate) before after tag position,
          Declaration.ofCandidate config
              { c with type := .struct (before ++ ⟨[], raw, tag, position⟩ :: after) } =
            Declaration.ofCandidate config
              { c with type := .struct (before ++ ⟨[], type, tag, position⟩ :: after) }) ∧
        ∀ config (c : Candidate) before after,
          Declaration.ofCandidate config
              { c with type := .interface (before ++ .embed raw :: after) } =
            Declaration.ofCandidate config
              { c with type := .interface (before ++ .embed type :: after) }) ∧
    ∀ text, IsReadFrom text text (ofEmbedded (.verbatim text)) ∧
      IsReadFrom text ("*" ++ text) (ofEmbedded (.pointer (.verbatim text))) := by
  refine ⟨fun package name raw type hname hpackage h => ?_, ofEmbedded_readFrom⟩
  have href := ofEmbedded_of_isInstance hname hpackage h
  have hfields := fields_of_isInstance hname hpackage h
  have hembed : (Element.embed raw).embed? = (Element.embed type).embed? := by
    rw [Element.embed?, Element.embed?, href]
  refine ⟨href, hfields, hembed, fun config c before after tag position => ?_,
    fun config c before after => ?_⟩
  · have hlines := fieldsOfList_congr (hfields config.maxInlineDepth c.name 0 tag position) before
      after
    simp only [Declaration.ofCandidate, Shape.ofExpr, Field.ofDecls, hlines]
  · -- an embedded interface is no method and no set of types
    have helements : Shape.ofElements (before ++ .embed raw :: after) =
        Shape.ofElements (before ++ .embed type :: after) := by
      simp only [Shape.ofElements, List.filterMap_append, List.filterMap_cons, hembed,
        Element.signature?, Element.constraint?]
    simp only [Declaration.ofCandidate, Shape.ofExpr, helements]

/-- Blanks in all places, and a star, a dot and brackets among the arguments. -/
theorem ofEmbedded_instances_spaced : IsName "List" ∧ (∀ p ∈ some "pkg", IsName p) ∧
    IsInstance (some "pkg") "List" (.verbatim " * pkg.List [map[string]*a.B]\n")
      (.pointer (.named (some "pkg") "List")) ∧
    ofEmbedded (.verbatim " * pkg.List [map[string]*a.B]\n") = named (some "pkg") "List" true := by
  have hname : IsName "List" := by decide
  have hpackage : ∀ p ∈ some "pkg", IsName p := by
    intro p hp
    obtain rfl := Option.some.inj hp
    decide
  have hspelled : IsSpelled (some "pkg") "List" (" pkg.List [map[string]*a.B]\n") :=
    ⟨" ", " ", "[map[string]*a.B]", "\n", by decide, by decide, by decide, by decide, by decide⟩
  have hstarred : IsInstance (some "pkg") "List" (.verbatim " * pkg.List [map[string]*a.B]\n")
      (.pointer (.named (some "pkg") "List")) :=
    .starred (by decide : IsBlanks " ") hspelled
  exact ⟨hname, hpackage, hstarred,
    (ofEmbedded_instances.1 _ _ _ _ hname hpackage hstarred).1.trans rfl⟩

end Reference

end GoAtlas
