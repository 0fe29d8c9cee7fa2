import GoAtlas.Proofs.Source.Entries
import GoAtlas.Proofs.Source.Tokens

/-!
# Runs of comments

The comments that make a doc are the longest run of comments above a row (`Lowering.IsLongestRun`):
the last of them ends on the row above, each of the others on the row above the next one, and none
stands behind another token on its row.

The lowering looks for them among the siblings of a node, and takes a comment for trailing if the
named sibling before it ends on its row. What the siblings show of the tokens that they are made of
(`Lowering.Recalls`) is all that a doc depends on, and it is kept from one sibling to the next
(`Phrase.recalls_placeAll`). Two things carry this: lines and what ends them take turns, and nothing
starts on a new row between the end of a line and what ends it.
-/

namespace GoAtlas

open Node (Climbs tokensBefore tokensBefore_append tokensBefore_singleton)

namespace Lowering

/-! ## Runs -/

/-- A comment stands behind another token, or another comment, on the row on which it starts. Tokens
are given the nearest first here and below. -/
def Trails (before : List Node) (c : Node) : Prop :=
  ∃ u ∈ before, u.stop.row = c.start.row

/-- A run of comments above a row, the nearest first. It is looked for among the tokens `above`, but
its comments may not trail what is `earlier` either. -/
inductive IsRun (earlier : List Node) : List Node → Nat → List Node → Prop
  | nil {above row} : IsRun earlier above row []
  | comment {c above row run} (head : c.kind = .comment) (touches : c.stop.row + 1 = row)
      (alone : ¬ Trails (above ++ earlier) c) (tail : IsRun earlier above c.start.row run) :
      IsRun earlier (c :: above) row (c :: run)

/-- The longest run of comments above a row. Every other run is the lower part of it. -/
structure IsLongestRun (earlier above : List Node) (row : Nat) (run : List Node) : Prop where
  isRun : IsRun earlier above row run
  longest : ∀ other, IsRun earlier above row other → other <+: run

/-- The doc of what starts on a row. -/
def HasDoc (l : Lowering) (earlier above : List Node) (row : Nat) (doc : Option String) : Prop :=
  ∃ run, IsLongestRun earlier above row run ∧ doc = Phrase.docOf (run.reverse.map l.text)

variable {l : Lowering} {c t : Node} {earlier above elders run : List Node} {row : Nat}

/-- There is one doc. -/
theorem HasDoc.unique {doc doc' : Option String} (h : HasDoc l earlier above row doc)
    (hother : HasDoc l earlier above row doc') : doc = doc' := by
  obtain ⟨run, hrun, rfl⟩ := h
  obtain ⟨other, hother, rfl⟩ := hother
  have hfront := hrun.longest other hother.isRun
  rw [hfront.eq_of_length_le (hother.longest run hrun.isRun).length_le]

theorem isLongestRun_nil : IsLongestRun earlier [] row [] :=
  ⟨.nil, fun other hother => by cases hother; exact List.nil_prefix⟩

/-- Behind a token that is no comment there is no run. -/
theorem isLongestRun_of_plain (h : t.kind ≠ .comment) :
    IsLongestRun earlier (t :: above) row [] := by
  refine ⟨.nil, fun other hother => ?_⟩
  cases hother with
  | nil => exact List.nil_prefix
  | comment head _ _ _ => exact absurd head h

/-- A comment right above a row goes on with the run above it. -/
theorem IsLongestRun.comment (hc : c.kind = .comment) (htouches : c.stop.row + 1 = row)
    (halone : ¬ Trails (above ++ earlier) c) (h : IsLongestRun earlier above c.start.row run) :
    IsLongestRun earlier (c :: above) row (c :: run) := by
  refine ⟨.comment hc htouches halone h.isRun, fun other hother => ?_⟩
  cases hother with
  | nil => exact List.nil_prefix
  | comment _ _ _ tail => exact List.cons_prefix_cons.mpr ⟨rfl, h.longest _ tail⟩

/-- A comment that is not right above a row, or trails something, begins no run. -/
theorem isLongestRun_of_comment (h : ¬ (c.stop.row + 1 = row ∧ ¬ Trails (above ++ earlier) c)) :
    IsLongestRun earlier (c :: above) row [] := by
  refine ⟨.nil, fun other hother => ?_⟩
  cases hother with
  | nil => exact List.nil_prefix
  | comment _ touches alone _ => exact absurd ⟨touches, alone⟩ h

/-- **Whether a comment trails** shows at the token that comes right before it. -/
theorem trails_iff {before : List Node} (h : Climbs 0 before.reverse row) (hc : row ≤ c.start.row) :
    Trails before c ↔ before.head?.map (·.stop.row) = some c.start.row := by
  cases before with
  | nil => exact iff_of_false (fun ⟨_, hu, _⟩ => List.not_mem_nil hu) nofun
  | cons last before =>
    rw [List.reverse_cons] at h
    have hlast := Nat.le_trans h.last_le hc
    rw [List.head?_cons, Option.map_some, Option.some_inj]
    constructor
    · rintro ⟨u, hu, hrow⟩
      have hle := h.row_le_of_mem (n := u) (by simpa [or_comm] using hu)
      omega
    · exact fun hrow => ⟨last, List.mem_cons_self, hrow⟩

/-! ## What siblings show -/

/-- Some elder siblings show of the tokens that they are made of what a doc depends on. All these
tokens end on some row or above it. -/
structure Recalls (l : Lowering) (earlier above elders : List Node) (row : Nat) : Prop where
  climbs : Climbs 0 (above ++ earlier).reverse row
  ends : (elders.find? Node.isNamed).map (·.stop.row) =
    (above ++ earlier).head?.map (·.stop.row)
  docs : ∀ r, ∃ run, IsLongestRun earlier above r run ∧
    l.docLines r elders = run.map fun c => Comment.content (l.text c)

/-- Behind a line, on the row on which it ends: the nearest token ends there, and there is no doc.
-/
structure IsBehind (l : Lowering) (earlier above elders : List Node) (row : Nat) : Prop where
  ends : (above ++ earlier).head?.map (·.stop.row) = some row
  none : ∀ r, l.docLines r elders = []

/-- **The doc of a node** is the one that the tokens before it give. -/
theorem Recalls.hasDoc (h : Recalls l earlier above elders row) (n : Node) :
    HasDoc l earlier above n.start.row (l.doc? elders n) := by
  obtain ⟨run, hrun, hdocs⟩ := h.docs n.start.row
  refine ⟨run, hrun, Phrase.doc?_of_docLines ?_⟩
  rw [hdocs, List.map_reverse, List.map_reverse, List.reverse_reverse, List.map_map]
  rfl

theorem recalls_nil (row : Nat) : Recalls l [] [] [] row :=
  ⟨Nat.zero_le row, rfl, fun _ => ⟨[], isLongestRun_nil, rfl⟩⟩

/-- What is not a comment ends the comments of a doc. -/
theorem docLines_cons_of_plain (h : t.kind ≠ .comment) (r : Nat) :
    l.docLines r (t :: elders) = [] := by
  rw [docLines, if_neg fun hn => h hn.1]

/-- A comment shows as it is. -/
theorem Recalls.comment (h : Recalls l earlier above elders row) (hc : c.kind = .comment)
    (hstart : row ≤ c.start.row) (hstop : row ≤ c.stop.row) :
    Recalls l earlier (c :: above) (c :: elders) c.stop.row := by
  have hnamed : c.isNamed = true := by
    rw [Node.isNamed, hc]
    rfl
  have hiff : (elders.find? Node.isNamed).all (fun m => decide (m.stop.row ≠ c.start.row)) = true ↔
      ¬ Trails (above ++ earlier) c := by
    rw [trails_iff h.climbs hstart, ← h.ends]
    cases elders.find? Node.isNamed with
    | none => simp
    | some m => simp
  refine ⟨?_, ?_, fun r => ?_⟩
  · rw [List.cons_append, List.reverse_cons]
    exact h.climbs.append ⟨hstop, Nat.le_refl _⟩
  · rw [List.find?_cons_of_pos hnamed]
    rfl
  · rw [docLines]
    split_ifs with hstarts
    · obtain ⟨run, hrun, hdocs⟩ := h.docs c.start.row
      refine ⟨c :: run, hrun.comment hc hstarts.2.1 (hiff.mp hstarts.2.2), ?_⟩
      rw [hdocs, List.map_cons]
    · refine ⟨[], isLongestRun_of_comment fun hboth => hstarts ?_, rfl⟩
      exact ⟨hc, hboth.1, hiff.mpr hboth.2⟩

/-- A comment on the row on which a line ends gives no doc. -/
theorem IsBehind.comment (h : Recalls l earlier above elders row)
    (hbehind : IsBehind l earlier above elders row) (hstart : c.start.row = row) :
    IsBehind l earlier (c :: above) (c :: elders) c.stop.row := by
  refine ⟨rfl, fun r => ?_⟩
  have hends := h.ends.trans hbehind.ends
  rw [docLines, if_neg]
  rintro ⟨-, -, hall⟩
  obtain ⟨m, hm, hrow⟩ := Option.map_eq_some_iff.mp hends
  rw [hm, Option.all_some, decide_eq_true_eq] at hall
  exact hall (hrow.trans hstart.symm)

/-- A construct shows by the row on which its last token ends. -/
theorem Recalls.construct (h : Recalls l earlier above elders row) {n last : Node} {ts : List Node}
    (hnamed : n.isNamed = true) (hn : n.kind ≠ .comment) (hlast : last.kind ≠ .comment)
    (hclimbs : Climbs row (ts ++ [last]) last.stop.row) (hstop : n.stop.row = last.stop.row) :
    Recalls l earlier ((ts ++ [last]).reverse ++ above) (n :: elders) n.stop.row ∧
      IsBehind l earlier ((ts ++ [last]).reverse ++ above) (n :: elders) n.stop.row := by
  rw [List.reverse_append, List.reverse_singleton, List.singleton_append, List.cons_append]
  refine ⟨⟨?_, ?_, fun r => ⟨[], isLongestRun_of_plain hlast, docLines_cons_of_plain hn r⟩⟩,
    congrArg some hstop.symm, docLines_cons_of_plain hn⟩
  · have hsplit : (last :: (ts.reverse ++ above) ++ earlier).reverse =
        (above ++ earlier).reverse ++ (ts ++ [last]) := by simp
    rw [hsplit, hstop]
    exact h.climbs.append hclimbs
  · rw [List.find?_cons_of_pos hnamed]
    exact congrArg some hstop

/-- What ends a line shows nothing, be it a line feed or another token on the row on which the line
ends. -/
theorem Recalls.terminator (h : Recalls l earlier above elders row)
    (hbehind : IsBehind l earlier above elders row) (hnamed : t.isNamed = false) {ts : List Node}
    (hts : ts = [] ∨ ts = [t] ∧ t.stop.row = row) {row' : Nat} (hrow : row ≤ row') :
    Recalls l earlier (ts ++ above) (t :: elders) row' := by
  have hplain : t.kind ≠ .comment := by
    intro hkind
    rw [Node.isNamed, hkind] at hnamed
    cases hnamed
  have hfind : (t :: elders).find? Node.isNamed = elders.find? Node.isNamed :=
    List.find?_cons_of_neg (by rw [hnamed]; exact Bool.false_ne_true)
  have hclimbs : ∀ {ns low high}, Climbs low ns high → high ≤ row' → Climbs low ns row' := by
    intro ns low high hns hhigh
    have hend : Climbs high [] row' := hhigh
    simpa using hns.append hend
  rcases hts with rfl | ⟨rfl, hstop⟩
  · refine ⟨hclimbs h.climbs hrow, by rw [hfind, h.ends, List.nil_append], fun r => ?_⟩
    obtain ⟨run, hrun, hdocs⟩ := h.docs r
    rw [hbehind.none r] at hdocs
    exact ⟨run, hrun, (docLines_cons_of_plain hplain r).trans hdocs⟩
  · refine ⟨?_, ?_, fun r => ⟨[], isLongestRun_of_plain hplain, docLines_cons_of_plain hplain r⟩⟩
    · have hend : Climbs row [t] row := ⟨Nat.le_of_eq hstop.symm, Nat.le_of_eq hstop⟩
      rw [List.append_assoc, List.reverse_append, List.reverse_singleton]
      exact hclimbs (h.climbs.append hend) hrow
    · rw [hfind, h.ends, hbehind.ends, ← hstop]
      rfl

end Lowering

/-! ## Lines -/

namespace Phrase

open Lowering (Recalls IsBehind)

/-- Lines and what ends them take turns, comments apart. The first phrase is `behind` a line or not.
-/
def TakeTurns (behind : Bool) : List Phrase → Prop
  | [] => True
  | p :: rest =>
    if p.kind = .comment then TakeTurns behind rest
    else (if behind then p.kind.isTerminator else p.kind.isNamed) = true ∧ TakeTurns (!behind) rest

variable {l : Lowering} {p : Phrase} {ps : List Phrase} {s : Place} {behind : Bool}
  {earlier above elders : List Node}

theorem takeTurns_of_parts (h : TakeTurns behind (parts ps)) : TakeTurns behind ps := by
  induction ps generalizing behind with
  | nil => trivial
  | cons p ps ih =>
    rw [TakeTurns]
    by_cases hcomment : p.kind = .comment
    · rw [if_pos hcomment]
      rw [parts, List.filter_cons_of_neg (by simp [isComment, hcomment])] at h
      exact ih h
    · rw [if_neg hcomment]
      rw [parts, List.filter_cons_of_pos (by simp [isComment, hcomment]), TakeTurns,
        if_neg hcomment] at h
      exact ⟨h.1, ih h.2⟩

/-- Pieces of a line and what ends it take turns. -/
theorem takeTurns_flatten {isKind : NodeKind → Bool} {pieces : List (List Phrase)}
    {tail : List Phrase} (hkind : ∀ kind, isKind kind = true → kind.isNamed = true ∧ kind ≠ .comment)
    (h : ∀ piece ∈ pieces, IsLine isKind piece) (htail : TakeTurns false tail) :
    TakeTurns false (pieces.flatten ++ tail) := by
  induction pieces with
  | nil => exact htail
  | cons piece pieces ih =>
    rw [List.forall_mem_cons] at h
    obtain ⟨⟨line, ending, rfl, hline, hending⟩, h⟩ := h
    obtain ⟨hnamed, hline⟩ := hkind _ hline
    have hcomment : ending.kind ≠ .comment := by
      intro hkind
      rw [hkind] at hending
      cases hending
    have hsplit : ([line, ending] :: pieces).flatten ++ tail =
        line :: ending :: (pieces.flatten ++ tail) := rfl
    rw [hsplit, TakeTurns, if_neg hline, TakeTurns, if_neg hcomment]
    exact ⟨hnamed, hending, ih h⟩

/-- A comment at its place. -/
theorem Follows.tokens_comment (h : p.Follows) (hp : p.kind = .comment) (s : Place) :
    (p.place s).tokens = [p.place s] := by
  have hfeed : (p.place s).isFeed = false := by
    rw [Node.isFeed, kind_place, hp]
    rfl
  have hchildren : (p.place s).children = [] := by
    rw [children_place, h.children_eq_nil (Or.inl hp)]
    rfl
  rw [Node.tokens, Node.leaves_of_children_nil hchildren,
    List.filter_cons_of_pos (by rw [hfeed]; rfl), List.filter_nil]

theorem row_start_place (s : Place) (p : Phrase) :
    (p.place s).start.row = s.row + p.gap.toList.count '\n' := by
  rw [start_place, Place.row_advance]

/-- What ends a line at its place: a line feed, or a token on the row where the blanks in front of
it end. -/
theorem Follows.tokens_terminator (h : p.Follows) (hp : p.kind.isTerminator = true)
    (hgap : '\n' ∉ p.gap.toList) (s : Place) :
    (p.place s).tokens = [] ∨
      (p.place s).tokens = [p.place s] ∧ (p.place s).stop.row = s.row := by
  cases p with
  | absent => cases h
  | node kind field children =>
    rw [Follows] at h
    simp only [Bool.and_eq_true] at h
    rw [Phrase.kind, NodeKind.isTerminator] at hp
    simp only [Bool.or_eq_true, beq_iff_eq] at hp
    rcases hp with (rfl | rfl) | rfl <;> exact absurd h.1.1.1.1.1 Bool.false_ne_true
  | leaf kind field gap text =>
    have hleaves : ((leaf kind field gap text).place s).leaves = [(leaf kind field gap text).place s] :=
      Node.leaves_of_children_nil (children_place ..)
    rw [Node.tokens, hleaves]
    cases hfeed : ((leaf kind field gap text).place s).isFeed with
    | true => exact Or.inl (List.filter_cons_of_neg (by rw [hfeed]; exact Bool.false_ne_true))
    | false =>
      refine Or.inr ⟨List.filter_cons_of_pos (by rw [hfeed]; rfl), ?_⟩
      have htext : '\n' ∉ text.toList := by
        rw [Follows] at h
        have hspells := h.2.1
        rw [Phrase.kind, NodeKind.isTerminator] at hp
        simp only [Bool.or_eq_true, beq_iff_eq] at hp
        rcases hp with (rfl | rfl) | rfl
        · rw [Node.isFeed, kind_place] at hfeed
          cases hfeed
        · rw [show text = ";" by simpa [spells] using hspells]
          decide
        · have hcases : text = "\x00" ∨ text = "" := by simpa [spells] using hspells
          rcases hcases with rfl | rfl <;> decide
      have hnone : (leaf kind field gap text).chars.count '\n' = 0 := by
        rw [chars, List.count_append, List.count_eq_zero.mpr htext, Nat.add_zero]
        exact List.count_eq_zero.mpr hgap
      rw [stop_place, Place.row_advance, hnone, Nat.add_zero]

/-- **The siblings at their places show** of the tokens that they are made of what a doc depends on,
if the elders before them do. -/
theorem recalls_placeAll (hturns : TakeTurns behind ps) (hlines : keepsLines behind ps = true)
    (hfollow : FollowAll ps) (h : Recalls l earlier above elders s.row)
    (hbehind : behind = true → IsBehind l earlier above elders s.row) :
    Recalls l earlier (tokensBefore (placeAll s ps).reverse ++ above)
      ((placeAll s ps).reverse ++ elders) (s.advance (charsOfList ps)).row := by
  induction ps generalizing behind s above elders with
  | nil => exact h
  | cons p ps ih =>
    rw [FollowAll] at hfollow
    rw [TakeTurns] at hturns
    rw [keepsLines, Bool.and_eq_true, Bool.not_eq_true'] at hlines
    obtain ⟨hgap, hlines⟩ := hlines
    rw [placeAll, List.reverse_cons, tokensBefore_append, tokensBefore_singleton, List.append_assoc,
      List.append_assoc, charsOfList, Place.advance_append, List.singleton_append]
    have hrow : s.row ≤ (s.advance p.chars).row := by
      rw [Place.row_advance]
      exact Nat.le_add_right ..
    have hstop : (p.place s).stop.row = (s.advance p.chars).row := by rw [stop_place]
    by_cases hcomment : p.kind = .comment
    · -- the next phrase is behind the same line as the comment
      rw [if_pos hcomment] at hturns
      rw [if_pos (isComment_eq_true_iff.mpr hcomment)] at hlines
      have hstart : s.row ≤ (p.place s).start.row := by
        rw [row_start_place]
        exact Nat.le_add_right ..
      have hshown := h.comment ((kind_place s p).trans hcomment) hstart (hstop ▸ hrow)
      rw [hfollow.1.tokens_comment hcomment, List.reverse_singleton, List.singleton_append]
      refine ih hturns hlines hfollow.2 (hstop ▸ hshown) fun htrue => ?_
      have hsame : (p.place s).start.row = s.row := by
        rw [row_start_place, List.count_eq_zero.mpr (by simpa [htrue] using hgap), Nat.add_zero]
      exact hstop ▸ (hbehind htrue).comment h hsame
    rw [if_neg hcomment] at hturns
    rw [if_neg (by rwa [isComment_eq_true_iff]), Bool.and_eq_true, Bool.not_eq_true'] at hlines
    obtain ⟨hend, hlines⟩ := hlines
    cases behind with
    | false =>
      have hnamed : p.kind.isNamed = true := hturns.1
      rw [hnamed] at hlines
      obtain ⟨front, last, htokens, hlastRow, hlast⟩ := hfollow.1.exists_last_token hcomment
        (by simpa [hnamed] using hend) s
      have hclimbs := climbs_tokens p s
      rw [htokens, ← hlastRow] at hclimbs
      have hisNamed : (p.place s).isNamed = true := by rw [Node.isNamed, kind_place, hnamed]
      have hshown := h.construct hisNamed
        (by rwa [kind_place]) hlast hclimbs (hstop.trans hlastRow.symm)
      rw [htokens]
      exact ih hturns.2 hlines hfollow.2 (hstop ▸ hshown.1) fun _ => hstop ▸ hshown.2
    | true =>
      have hterminator : p.kind.isTerminator = true := hturns.1
      have hnamed : p.kind.isNamed = false := isNamed_of_isTerminator hterminator
      rw [hnamed] at hlines
      have hshown : ∀ ts, ts = [] ∨ ts = [p.place s] ∧ (p.place s).stop.row = s.row →
          Recalls l earlier (ts ++ above) (p.place s :: elders) (s.advance p.chars).row :=
        fun ts hts => h.terminator (hbehind rfl) (by rw [Node.isNamed, kind_place, hnamed]) hts hrow
      rcases hfollow.1.tokens_terminator hterminator (by simpa using hgap) s with
        htokens | ⟨htokens, hsame⟩
      · rw [htokens]
        exact ih hturns.2 hlines hfollow.2 (hshown [] (Or.inl rfl)) (absurd · Bool.false_ne_true)
      · rw [htokens]
        exact ih hturns.2 hlines hfollow.2 (hshown [p.place s] (Or.inr ⟨rfl, hsame⟩))
          (absurd · Bool.false_ne_true)

end Phrase

end GoAtlas
