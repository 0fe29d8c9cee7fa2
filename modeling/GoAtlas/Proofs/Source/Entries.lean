import GoAtlas.Proofs.Source.Meanings

/-!
# Declarations under comment lines

A list of entries is a list of phrases, each under comment lines of its own and each with a line
feed behind it. The lines above an entry are its doc: when the nodes of the entries are gone through
in order, each phrase is met with elders whose comments are the lines above it and nothing else
(`Phrase.forall₂_entries`).

What carries the induction is that nothing which is named ends on the row on which an entry starts,
and that what stands right before it is not a comment (`Node.Fresh`). Both hold behind the line feed
that ends an entry, and so they hold for the next one.
-/

namespace GoAtlas

namespace Node

/-- Behind these nodes, the nearest first, a row starts on which nothing named ends, and the nearest
of them is not a comment. -/
def Fresh (before : List Node) (row : Nat) : Prop :=
  (∀ n ∈ before.head?, n.kind ≠ .comment) ∧
    ∀ m, before.find? isNamed = some m → m.stop.row < row

theorem fresh_nil (row : Nat) : Fresh [] row :=
  ⟨nofun, nofun⟩

variable {before : List Node} {row : Nat}

/-- A row that is fresh stays so further down. -/
theorem Fresh.mono (h : Fresh before row) {row' : Nat} (hrow : row ≤ row') : Fresh before row' :=
  ⟨h.1, fun m hm => Nat.lt_of_lt_of_le (h.2 m hm) hrow⟩

/-- A mark or a word changes nothing of what is named. -/
theorem Fresh.cons {n : Node} (h : Fresh before row) (hnamed : n.isNamed = false) :
    Fresh (n :: before) row := by
  refine ⟨fun m hm => ?_, fun m hm => h.2 m ?_⟩
  · obtain rfl : n = m := Option.some_inj.mp hm
    intro hcomment
    rw [isNamed, hcomment] at hnamed
    cases hnamed
  · rwa [List.find?_cons_of_neg (by rw [hnamed]; exact Bool.false_ne_true)] at hm

end Node

namespace Phrase

/-! ## Lines -/

/-- The line feed that ends a line. -/
def newline : Phrase :=
  leaf (.symbol "\n") none "" "\n"

/-- Some phrases, each with a line feed behind it. -/
def onLines (ps : List Phrase) : List Phrase :=
  ps.flatMap fun p => [p, newline]

/-- Phrases that stand for no items: neither type declarations nor errors. -/
def NoItems (ps : List Phrase) : Prop :=
  ∀ p ∈ ps, p.kind ≠ .typeDeclaration ∧ p.kind ≠ .error

instance (ps : List Phrase) : Decidable (NoItems ps) :=
  inferInstanceAs (Decidable (∀ p ∈ ps, _))

theorem NoItems.onLines {ps : List Phrase} (h : NoItems ps) : NoItems (onLines ps) := by
  intro p hp
  obtain ⟨line, hline, hp⟩ := List.mem_flatMap.mp hp
  rcases List.mem_cons.mp hp with rfl | hp
  · exact h p hline
  · rw [List.mem_singleton.mp hp]
    exact ⟨nofun, nofun⟩

/-- Such lines give no items wherever they stand. -/
theorem NoItems.placeAll {ps : List Phrase} (h : NoItems ps) (s : Place) :
    ∀ n ∈ Phrase.placeAll s ps, n.kind ≠ .typeDeclaration ∧ n.kind ≠ .error := by
  induction ps generalizing s with
  | nil => exact List.forall_mem_nil _
  | cons p ps ih =>
    rw [NoItems, List.forall_mem_cons] at h
    rw [Phrase.placeAll, List.forall_mem_cons, kind_place]
    exact ⟨h.1, ih h.2 _⟩

/-- A text holds the phrases that it is written from. -/
theorem holdsAt_write (ps : List Phrase) : HoldsAt (write ps) .start (charsOfList ps) :=
  ⟨[], [], by rw [write, String.toList_ofList, List.nil_append, List.append_nil], rfl⟩

theorem row_stop_place (s : Place) (p : Phrase) :
    (p.place s).stop.row = (s.advance p.chars).row := by
  rw [stop_place]

/-- Behind a line feed that follows a named phrase a fresh row starts. -/
theorem fresh_behind {p : Phrase} (hp : p.kind.isNamed = true) (s : Place) (before : List Node) :
    Node.Fresh (newline.place (s.advance p.chars) :: p.place s :: before)
      (s.advance (p.chars ++ newline.chars)).row := by
  refine ⟨fun m hm => ?_, fun m hm => ?_⟩
  · obtain rfl : _ = m := Option.some_inj.mp hm
    rw [kind_place]
    nofun
  · rw [List.find?_cons_of_neg (by rw [Node.isNamed, kind_place]; exact Bool.false_ne_true),
      List.find?_cons_of_pos (by rw [Node.isNamed, kind_place, hp])] at hm
    obtain rfl : p.place s = m := Option.some_inj.mp hm
    rw [row_stop_place, Place.row_advance, Place.row_advance, List.count_append]
    exact Nat.lt_succ_self _

/-- Behind lines a fresh row starts. -/
theorem fresh_onLines (ps : List Phrase) (s : Place) {before : List Node}
    (h : Node.Fresh before s.row) :
    Node.Fresh ((Phrase.placeAll s (onLines ps)).reverse ++ before)
      (s.advance (charsOfList (onLines ps))).row := by
  induction ps generalizing s before with
  | nil => exact h
  | cons p ps ih =>
    have hsplit : onLines (p :: ps) = [p, newline] ++ onLines ps := rfl
    have hnext : s.advance (charsOfList [p, newline]) = s.advance (p.chars ++ newline.chars) := by
      rw [charsOfList, charsOfList, charsOfList, List.append_nil]
    have hrow : s.row ≤ (s.advance (p.chars ++ newline.chars)).row := by
      rw [Place.row_advance]
      exact Nat.le_add_right ..
    rw [hsplit, placeAll_append, List.reverse_append, List.append_assoc, charsOfList_append,
      Place.advance_append, hnext]
    refine ih _ ?_
    change Node.Fresh (newline.place (s.advance p.chars) :: p.place s :: before) _
    by_cases hnamed : p.kind.isNamed = true
    · exact fresh_behind hnamed s before
    · refine ((h.mono hrow).cons ?_).cons ?_
      · rw [Node.isNamed, kind_place]
        exact Bool.eq_false_iff.mpr hnamed
      · rw [Node.isNamed, kind_place]
        rfl

/-! ## Entries -/

/-- A phrase under comment lines: blanks stand in front of the first, and others in front of all
that follows it. -/
def under (between : String) (p : Phrase) : String → List String → List Phrase
  | gap, [] => [p.withGap gap]
  | gap, line :: rest => leaf .comment none gap line :: under between p between rest

/-- Where the phrase under comment lines stands that start at a place, and the blanks in front of
it. -/
def placeUnder (between : String) : String → Place → List String → Place × String
  | gap, s, [] => (s, gap)
  | gap, s, line :: rest =>
    placeUnder between between (s.advance (gap.toList ++ line.toList)) rest

section Entries

variable {α : Type} (remarks : α → List String) (phrase : α → Phrase) (between rest : String)

/-- Phrases under comment lines, each with a line feed behind it. Some blanks stand in front of the
first entry and others in front of each further one. -/
def entries : String → List α → List Phrase
  | _, [] => []
  | gap, x :: more =>
    under between (phrase x) gap (remarks x) ++ newline :: entries rest more

/-- The entries from a place on, each with the place of its phrase and the blanks in front of it. -/
def placesOf : String → Place → List α → List ((Place × String) × α)
  | _, _, [] => []
  | gap, s, x :: more =>
    (placeUnder between gap s (remarks x), x) ::
      placesOf rest (s.advance (charsOfList (under between (phrase x) gap (remarks x) ++ [newline])))
        more

/-- What does not depend on places is made of the entries alone. -/
theorem map_placesOf {β : Type} (f : α → β) (gap : String) (s : Place) (xs : List α) :
    (placesOf remarks phrase between rest gap s xs).map (fun e => f e.2) = xs.map f := by
  induction xs generalizing gap s with
  | nil => rfl
  | cons x xs ih => rw [placesOf, List.map_cons, List.map_cons, ih]

end Entries

/-- What comment lines above a declaration make its doc. -/
def docOf (remarks : List String) : Option String :=
  match remarks.map Comment.content with
  | [] => none
  | lines => some ("\n".intercalate lines)

/-! ### Docs -/

section Docs

variable {source unit : String} {between rest gap : String} {p : Phrase} {s : Place}
  {before : List Node}

/-- Nothing above a fresh row is taken for a doc. -/
theorem docLines_eq_nil {l : Lowering} {row : Nat} (h : Node.Fresh before row) (row' : Nat) :
    l.docLines row' before = [] := by
  cases before with
  | nil => rfl
  | cons n before => rw [Lowering.docLines, if_neg fun hn => h.1 n rfl hn.1]

mutual

/-- The blanks in front of a phrase that follows the grammar can be set. -/
theorem gap_withGap (gap : String) : (p : Phrase) → p.Follows → (p.withGap gap).gap = gap
  | leaf .., _ => rfl
  | absent .., h => nomatch h
  | node kind field children, h => by
    have hfollows := h
    rw [Follows] at hfollows
    rw [withGap, Phrase.gap]
    refine gapOfList_withGapOfList gap children hfollows.2.2.2 ?_
    rintro rfl
    exact absurd h.isEnclosed Bool.false_ne_true

theorem gapOfList_withGapOfList (gap : String) : (ps : List Phrase) → FollowAll ps → ps ≠ [] →
    gapOfList (withGapOfList gap ps) = gap
  | [], _, hne => absurd rfl hne
  | p :: _, h, _ => by
    rw [FollowAll] at h
    rw [withGapOfList, gapOfList, gap_withGap gap p h.1]

end

/-- **The doc of an entry**: the nodes of a phrase under comment lines are the comments and the node
of the phrase, and the comment lines are found above it, in front of what was found above the entry.
-/
theorem exists_under (hbetween : between.toList.count '\n' = 1)
    (hp : ∀ other, (p.withGap other).gap = other)
    {remarks : List String} (hremarks : ∀ line ∈ remarks, '\n' ∉ line.toList)
    (hholds : HoldsAt source s (charsOfList (under between p gap remarks)))
    (hbefore : ∀ m, before.find? Node.isNamed = some m →
      m.stop.row < s.row + gap.toList.count '\n') {t : Place} {g : String}
    (ht : placeUnder between gap s remarks = (t, g)) :
    ∃ front, placeAll s (under between p gap remarks) = front ++ [(p.withGap g).place t] ∧
      (∀ n ∈ front, n.kind = .comment) ∧ HoldsAt source t (p.withGap g).chars ∧
      t.advance (p.withGap g).chars = s.advance (charsOfList (under between p gap remarks)) ∧
      ({ source, unit } : Lowering).docLines ((p.withGap g).place t).start.row
          (front.reverse ++ before) =
        (remarks.map Comment.content).reverse ++
          ({ source, unit } : Lowering).docLines (s.row + gap.toList.count '\n') before := by
  induction remarks generalizing gap s before with
  | nil =>
    obtain ⟨rfl, rfl⟩ := Prod.mk.inj ht
    have hchars : charsOfList (under between p gap []) = (p.withGap gap).chars := by
      rw [under, charsOfList, charsOfList, List.append_nil]
    rw [hchars] at hholds
    refine ⟨[], rfl, List.forall_mem_nil _, hholds, by rw [hchars], ?_⟩
    rw [start_place, hp, Place.row_advance]
    rfl
  | cons line remarks ih =>
    rw [List.forall_mem_cons] at hremarks
    rw [under, charsOfList] at hholds
    have hat : IsAt source (leaf .comment none gap line) ((leaf .comment none gap line).place s) :=
      ⟨s, rfl, hholds.left⟩
    have hrow : (s.advance (leaf .comment none gap line).chars).row =
        s.row + gap.toList.count '\n' := by
      rw [Place.row_advance, chars, List.count_append, List.count_eq_zero.mpr hremarks.1]
      rfl
    obtain ⟨front, hplaces, hfront, hpart, hend, hlines⟩ :=
      @ih between (s.advance (leaf .comment none gap line).chars)
        ((leaf .comment none gap line).place s :: before) hremarks.2 hholds.right (fun m hm => by
          obtain rfl : (leaf .comment none gap line).place s = m := Option.some_inj.mp hm
          rw [row_stop_place, hbetween]
          exact Nat.lt_succ_self _) ht
    refine ⟨(leaf .comment none gap line).place s :: front, ?_, ?_, hpart, ?_, ?_⟩
    · rw [under, placeAll, hplaces]
      rfl
    · exact List.forall_mem_cons.mpr ⟨rfl, hfront⟩
    · rw [hend, under, charsOfList, Place.advance_append]
    · have hstart : ((leaf .comment none gap line).place s).start.row =
          s.row + gap.toList.count '\n' := by
        rw [start_place, Place.row_advance]
        rfl
      have hclear : (before.find? Node.isNamed).all (fun m =>
          decide (m.stop.row ≠ ((leaf .comment none gap line).place s).start.row)) = true := by
        cases hfind : before.find? Node.isNamed with
        | none => rfl
        | some m =>
          rw [Option.all_some, hstart]
          exact decide_eq_true (Nat.ne_of_lt (hbefore m hfind))
      rw [List.reverse_cons, List.append_assoc, List.singleton_append, hlines, hrow, hbetween,
        Lowering.docLines, if_pos ⟨kind_place .., by rw [row_stop_place, hrow], hclear⟩, hstart,
        hat.text_eq, text_leaf, List.map_cons, List.reverse_cons, List.append_assoc,
        List.singleton_append]

/-- The doc of a phrase under comment lines, behind a fresh row. -/
theorem doc?_of_docLines {l : Lowering} {n : Node} {remarks : List String}
    (h : l.docLines n.start.row before = (remarks.map Comment.content).reverse) :
    l.doc? before n = docOf remarks := by
  rw [Lowering.doc?, h, List.reverse_reverse]
  unfold docOf
  cases remarks.map Comment.content <;> rfl

/-- **Entries are met one by one, each at its place and under its doc.** What passes over comments
and line feeds and makes something of each phrase under its doc makes a list of the entries that is
as long as they are. -/
theorem forall₂_entries {α β : Type} {remarks : α → List String} {phrase : α → Phrase}
    {g : List Node × Node → Option β} {Q : (Place × String) × α → β → Prop} {xs : List α}
    (hbetween : between.toList.count '\n' = 1)
    (hxs : ∀ x ∈ xs, (∀ line ∈ remarks x, '\n' ∉ line.toList) ∧
      (∀ other, ((phrase x).withGap other).gap = other) ∧ (phrase x).kind.isNamed = true)
    (hskip : ∀ elders n, n.kind = .comment ∨ n.kind = .symbol "\n" → g (elders, n) = none)
    (hmake : ∀ x ∈ xs, ∀ elders t other, HoldsAt source t ((phrase x).withGap other).chars →
      ({ source, unit } : Lowering).doc? elders (((phrase x).withGap other).place t) =
          docOf (remarks x) →
        ∃ b, g (elders, ((phrase x).withGap other).place t) = some b ∧ Q ((t, other), x) b)
    (hfresh : Node.Fresh before s.row)
    (hholds : HoldsAt source s (charsOfList (entries remarks phrase between rest gap xs))) :
    List.Forall₂ Q (placesOf remarks phrase between rest gap s xs)
      ((Node.withElders before
        (placeAll s (entries remarks phrase between rest gap xs))).filterMap g) := by
  induction xs generalizing gap s before with
  | nil => exact .nil
  | cons x xs ih =>
    rw [List.forall_mem_cons] at hxs hmake
    obtain ⟨⟨hremarks, hgap, hnamed⟩, hxs⟩ := hxs
    rw [entries, charsOfList_append, charsOfList] at hholds
    have hrow : s.row ≤ s.row + gap.toList.count '\n' := Nat.le_add_right ..
    rcases hplace : placeUnder between gap s (remarks x) with ⟨t, other⟩
    obtain ⟨front, hplaces, hfront, hpart, hend, hlines⟩ :=
      @exists_under source unit between gap (phrase x) s before hbetween hgap (remarks x) hremarks
        hholds.left (hfresh.mono hrow).2 t other hplace
    rw [docLines_eq_nil hfresh, List.append_nil] at hlines
    obtain ⟨b, hb, hQ⟩ := hmake.1 (front.reverse ++ before) t other hpart
      (doc?_of_docLines hlines)
    have hskipped : (Node.withElders before front).filterMap g = [] := by
      refine List.filterMap_eq_nil_iff.mpr fun pair hpair => ?_
      refine hskip pair.1 pair.2 (Or.inl (hfront _ ?_))
      rw [← Node.map_snd_withElders before front]
      exact List.mem_map_of_mem hpair
    have hfeed : ∀ elders place, g (elders, newline.place place) = none := fun elders place =>
      hskip elders _ (Or.inr (kind_place ..))
    have hnext : s.advance (charsOfList (under between (phrase x) gap (remarks x) ++ [newline])) =
        t.advance (((phrase x).withGap other).chars ++ newline.chars) := by
      rw [charsOfList_append, Place.advance_append, Place.advance_append, hend, charsOfList,
        charsOfList, List.append_nil]
    rw [entries, placesOf, placeAll_append, hplaces, placeAll, ← hend, List.append_assoc,
      Node.withElders_append, List.filterMap_append, hskipped, List.nil_append,
      List.singleton_append, Node.withElders, List.filterMap_cons_some hb, Node.withElders,
      List.filterMap_cons_none (hfeed _ _), hplace, hnext, Place.advance_append]
    refine .cons hQ (ih hxs hmake.2 ?_ ?_)
    · rw [← Place.advance_append]
      exact fresh_behind (by rwa [kind_withGap]) t _
    · rw [hend]
      exact hholds.right.right

end Docs

end Phrase

end GoAtlas
