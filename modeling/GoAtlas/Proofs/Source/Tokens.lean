import GoAtlas.Proofs.Source.Derivations

/-!
# Tokens of a tree

The tokens of a tree are its leaves, in the order of the text, apart from the line feeds that end
lines. The rows on which the tokens of a phrase end go up from the row of its place to the row
behind it (`Phrase.climbs_place`), and a construct that does not end with a line feed ends where its
last token ends, which is no comment (`Phrase.Follows.exists_last_token`).
-/

namespace GoAtlas

namespace Node

mutual

/-- The nodes without children at and below a node, in the order of the text. -/
def leaves : Node → List Node
  | ⟨kind, field, isMissing, start, stop, []⟩ => [⟨kind, field, isMissing, start, stop, []⟩]
  | ⟨_, _, _, _, _, child :: rest⟩ => child.leaves ++ leavesOfList rest

/-- The nodes without children at and below some nodes, in the order of the text. -/
def leavesOfList : List Node → List Node
  | [] => []
  | n :: rest => n.leaves ++ leavesOfList rest

end

/-- Whether a node is a line feed. -/
def isFeed (n : Node) : Bool :=
  n.kind == .symbol "\n"

/-- The tokens of a node: its leaves apart from line feeds. -/
def tokens (n : Node) : List Node :=
  n.leaves.filter (!·.isFeed)

/-- The tokens of some nodes, in the order of the text. -/
def tokensOf (ns : List Node) : List Node :=
  ns.flatMap tokens

/-- The tokens of nodes that are given the nearest first, in the same order. -/
def tokensBefore (before : List Node) : List Node :=
  (tokensOf before.reverse).reverse

theorem leaves_of_children_nil {n : Node} (h : n.children = []) : n.leaves = [n] := by
  cases n
  obtain rfl := h
  rw [leaves]

/-- The leaves of a node with children are those of its children, in order. -/
theorem leaves_of_children_ne_nil {n : Node} (h : n.children ≠ []) :
    n.leaves = n.children.flatMap leaves := by
  obtain ⟨kind, field, isMissing, start, stop, children⟩ := n
  have hlist : ∀ ns, leavesOfList ns = ns.flatMap leaves := by
    intro ns
    induction ns with
    | nil => rfl
    | cons n ns ih => rw [leavesOfList, ih, List.flatMap_cons]
  cases children with
  | nil => exact absurd rfl h
  | cons child rest => rw [leaves, hlist, ← List.flatMap_cons]

/-- Elders are given with the nearest first, and so are the tokens in them. -/
theorem tokensBefore_append (before earlier : List Node) :
    tokensBefore (before ++ earlier) = tokensBefore before ++ tokensBefore earlier := by
  rw [tokensBefore, tokensOf, List.reverse_append, List.flatMap_append, List.reverse_append]
  rfl

theorem tokensBefore_singleton (n : Node) : tokensBefore [n] = n.tokens.reverse := by
  rw [tokensBefore, tokensOf, List.reverse_singleton, List.flatMap_singleton]

/-! ## Rows -/

/-- The rows on which nodes end go up between two rows. -/
def Climbs : Nat → List Node → Nat → Prop
  | low, [], high => low ≤ high
  | low, n :: rest, high => low ≤ n.stop.row ∧ Climbs n.stop.row rest high

variable {low mid high : Nat} {ns ms : List Node}

theorem Climbs.mono (h : Climbs mid ns high) (hlow : low ≤ mid) : Climbs low ns high := by
  cases ns with
  | nil => exact Nat.le_trans hlow h
  | cons n ns => exact ⟨Nat.le_trans hlow h.1, h.2⟩

/-- Rows that go up to a row and from there on go up throughout. -/
theorem Climbs.append (h : Climbs low ns mid) (h' : Climbs mid ms high) :
    Climbs low (ns ++ ms) high := by
  induction ns generalizing low with
  | nil => exact h'.mono h
  | cons n ns ih => exact ⟨h.1, ih h.2⟩

/-- Rows still go up when some nodes are left out. -/
theorem Climbs.filter (h : Climbs low ns high) (t : Node → Bool) : Climbs low (ns.filter t) high := by
  induction ns generalizing low with
  | nil => exact h
  | cons n ns ih =>
    rw [List.filter_cons]
    split
    · exact ⟨h.1, ih h.2⟩
    · exact (ih h.2).mono h.1

/-- No node ends below the bound, and the last one ends on the lowest row. -/
theorem Climbs.row_le_of_mem {n last : Node} (h : Climbs low (ns ++ [last]) high)
    (hn : n ∈ ns ++ [last]) : n.stop.row ≤ last.stop.row := by
  induction ns generalizing low with
  | nil => exact List.mem_singleton.mp hn ▸ Nat.le_refl _
  | cons m ns ih =>
    rcases List.mem_cons.mp hn with rfl | hn
    · have hlast : ∀ {low}, Climbs low (ns ++ [last]) high → low ≤ last.stop.row := by
        clear ih hn h
        induction ns with
        | nil => exact fun h => h.1
        | cons m ns ih => exact fun h => Nat.le_trans h.1 (ih h.2)
      exact hlast h.2
    · exact ih h.2 hn

theorem Climbs.last_le {last : Node} (h : Climbs low (ns ++ [last]) high) :
    last.stop.row ≤ high := by
  induction ns generalizing low with
  | nil => exact h.2
  | cons m ns ih => exact ih h.2

end Node

namespace Phrase

open Node (Climbs)

mutual

/-- **The leaves of a phrase** end on rows that go up from the row of its place to the row behind
it. -/
theorem climbs_place : (p : Phrase) → (s : Place) →
    Climbs s.row (p.place s).leaves (s.advance p.chars).row
  | leaf kind field gap text, s => by
    rw [Node.leaves_of_children_nil (children_place ..)]
    refine ⟨?_, Nat.le_refl _⟩
    rw [stop_place, Place.row_advance]
    exact Nat.le_add_right ..
  | absent kind field, s => by
    rw [Node.leaves_of_children_nil (children_place ..)]
    exact ⟨Nat.le_refl _, Nat.le_refl _⟩
  | node kind field children, s => by
    cases children with
    | nil =>
      rw [Node.leaves_of_children_nil (children_place ..)]
      exact ⟨Nat.le_refl _, Nat.le_refl _⟩
    | cons child rest =>
      rw [Node.leaves_of_children_ne_nil (by rw [children_place]; exact List.cons_ne_nil _ _),
        children_place]
      exact climbs_placeAll (child :: rest) s

/-- The leaves of phrases one after the other. -/
theorem climbs_placeAll : (ps : List Phrase) → (s : Place) →
    Climbs s.row ((placeAll s ps).flatMap Node.leaves) (s.advance (charsOfList ps)).row
  | [], _ => Nat.le_refl _
  | p :: rest, s => by
    rw [placeAll, List.flatMap_cons, charsOfList, Place.advance_append]
    exact (climbs_place p s).append (climbs_placeAll rest _)

end

/-! ## Last tokens -/

mutual

/-- A construct ends where its last leaf ends. The leaf is no comment, and it is no line feed unless
the construct is written with a line feed at its end. -/
theorem exists_last_leaf : (p : Phrase) → p.Follows → p.kind ≠ .comment → (s : Place) →
    ∃ front last, (p.place s).leaves = front ++ [last] ∧ last.stop = s.advance p.chars ∧
      last.kind ≠ .comment ∧ (last.isFeed = true → p.chars.getLast? = some '\n')
  | leaf kind field gap text, h, hcomment, s => by
    refine ⟨[], (leaf kind field gap text).place s, ?_, rfl, ?_, fun hfeed => ?_⟩
    · rw [Node.leaves_of_children_nil (children_place ..)]
      rfl
    · rwa [kind_place]
    · rw [Node.isFeed, kind_place, beq_iff_eq] at hfeed
      obtain rfl : kind = .symbol "\n" := hfeed
      rw [Follows] at h
      have htext : text = "\n" := by simpa [spells] using h.2.1
      rw [htext, chars, List.getLast?_append]
      rfl
  | absent .., h, _, _ => nomatch h
  | node kind field children, h, _, s => by
    have henclosed := h.isEnclosed
    rw [Follows] at h
    have hne : children ≠ [] := by
      rintro rfl
      cases henclosed
    rw [isEnclosed, Bool.and_eq_true] at henclosed
    rw [Node.leaves_of_children_ne_nil (by
      rw [children_place]
      exact fun hnil => hne (by cases children <;> first | rfl | cases hnil)), children_place]
    exact exists_last_leafOfList children h.2.2.2 hne henclosed.2 s

/-- The last leaf of phrases one after the other, the last of which is no comment. -/
theorem exists_last_leafOfList : (ps : List Phrase) → FollowAll ps → ps ≠ [] →
    ps.getLast?.any (!·.isComment) = true → (s : Place) →
    ∃ front last, (placeAll s ps).flatMap Node.leaves = front ++ [last] ∧
      last.stop = s.advance (charsOfList ps) ∧ last.kind ≠ .comment ∧
      (last.isFeed = true → (charsOfList ps).getLast? = some '\n')
  | [], _, hne, _, _ => absurd rfl hne
  | [p], h, _, hlast, s => by
    rw [FollowAll] at h
    have hcomment : p.kind ≠ .comment := by
      intro hkind
      simp [isComment, hkind] at hlast
    obtain ⟨front, last, hleaves, hstop, hkind, hfeed⟩ := exists_last_leaf p h.1 hcomment s
    refine ⟨front, last, ?_, ?_, hkind, ?_⟩
    · rw [placeAll, placeAll, List.flatMap_singleton, hleaves]
    · rw [hstop, charsOfList, charsOfList, List.append_nil]
    · rwa [charsOfList, charsOfList, List.append_nil]
  | p :: q :: rest, h, _, hlast, s => by
    rw [FollowAll] at h
    obtain ⟨front, last, hleaves, hstop, hkind, hfeed⟩ :=
      exists_last_leafOfList (q :: rest) h.2 (List.cons_ne_nil q rest) hlast (s.advance p.chars)
    refine ⟨(p.place s).leaves ++ front, last, ?_, ?_, hkind, fun hlastFeed => ?_⟩
    · rw [placeAll, List.flatMap_cons, hleaves, List.append_assoc]
    · rw [hstop, ← Place.advance_append]
      rfl
    · have hend := hfeed hlastFeed
      rw [charsOfList, List.getLast?_append, hend]
      rfl

end

variable {p : Phrase}

/-- The tokens of a phrase end on rows that go up from the row of its place to the row behind it. -/
theorem climbs_tokens (p : Phrase) (s : Place) :
    Climbs s.row (p.place s).tokens (s.advance p.chars).row :=
  (climbs_place p s).filter _

/-- **The last token** of a construct that does not end with a line feed ends where the construct
ends, and is no comment. -/
theorem Follows.exists_last_token (h : p.Follows) (hcomment : p.kind ≠ .comment)
    (hend : p.chars.getLast? ≠ some '\n') (s : Place) :
    ∃ front last, (p.place s).tokens = front ++ [last] ∧
      last.stop.row = (s.advance p.chars).row ∧ last.kind ≠ .comment := by
  obtain ⟨front, last, hleaves, hstop, hkind, hfeed⟩ := exists_last_leaf p h hcomment s
  refine ⟨front.filter (!·.isFeed), last, ?_, by rw [hstop], hkind⟩
  have hlast : last.isFeed = false := Bool.eq_false_iff.mpr fun htrue => hend (hfeed htrue)
  rw [Node.tokens, hleaves, List.filter_append, List.filter_cons_of_pos (by rw [hlast]; rfl),
    List.filter_nil]

end Phrase

end GoAtlas
