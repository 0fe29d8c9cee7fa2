import GoAtlas.Source.Grammar
import GoAtlas.Source.Lowering
import Mathlib.Data.List.Basic
import Mathlib.Data.List.Forall2

/-!
# Phrases at their places

A phrase that is put at a place of a text which holds it there becomes a node whose text is the text
of the phrase (`Phrase.IsAt.text_eq`), and the children of that node are the parts of the phrase,
each at its own place of the text (`Phrase.IsAt.children`). All that is proved of lowering a tree
rests on these two facts: below the root, a node of a tree is a phrase at a place.

A node keeps the kind, the field and the parts of its phrase wherever the phrase stands; only its
places depend on where that is.
-/

namespace GoAtlas

/-! ## Bytes -/

namespace Place

/-- The number of bytes in some characters. -/
def bytes : List Char → Nat
  | [] => 0
  | c :: cs => c.utf8Size + bytes cs

theorem bytes_append (cs ds : List Char) : bytes (cs ++ ds) = bytes cs + bytes ds := by
  induction cs with
  | nil => exact (Nat.zero_add _).symm
  | cons c cs ih => rw [List.cons_append, bytes, bytes, ih, Nat.add_assoc]

/-- A place is as many bytes further on as are passed. -/
theorem byte_advance (s : Place) (cs : List Char) : (s.advance cs).byte = s.byte + bytes cs := by
  induction cs generalizing s with
  | nil => rfl
  | cons c cs ih =>
    have hstep : (s.step c).byte = s.byte + c.utf8Size := by
      rw [step]
      split <;> rfl
    rw [advance, List.foldl_cons, ← advance, ih, hstep, bytes, Nat.add_assoc]

/-- A place is as many rows further down as line feeds are passed. -/
theorem row_advance (s : Place) (cs : List Char) :
    (s.advance cs).row = s.row + cs.count '\n' := by
  induction cs generalizing s with
  | nil => rfl
  | cons c cs ih =>
    rw [advance, List.foldl_cons, ← advance, ih, step]
    split
    · next hc =>
      rw [hc, List.count_cons_self]
      dsimp only
      omega
    · next hc => rw [List.count_cons_of_ne hc]

end Place

namespace Lowering

/-- As many bytes as some characters have are dropped together with these characters. -/
theorem dropBytes_bytes (front cs : List Char) :
    dropBytes (Place.bytes front) (front ++ cs) = cs := by
  induction front with
  | nil => cases cs <;> rfl
  | cons c front ih =>
    have hpos := c.utf8Size_pos
    obtain ⟨n, hn⟩ : ∃ n, Place.bytes (c :: front) = n + 1 :=
      ⟨Place.bytes (c :: front) - 1, by rw [Place.bytes]; omega⟩
    have hrest : n + 1 - c.utf8Size = Place.bytes front := by
      rw [← hn, Place.bytes]
      omega
    rw [hn, List.cons_append, dropBytes, hrest, ih]

/-- As many bytes as some characters have are taken together with these characters. -/
theorem takeBytes_bytes (cs back : List Char) :
    takeBytes (Place.bytes cs) (cs ++ back) = cs := by
  induction cs with
  | nil => cases back <;> rfl
  | cons c cs ih =>
    have hpos := c.utf8Size_pos
    obtain ⟨n, hn⟩ : ∃ n, Place.bytes (c :: cs) = n + 1 :=
      ⟨Place.bytes (c :: cs) - 1, by rw [Place.bytes]; omega⟩
    have hrest : n + 1 - c.utf8Size = Place.bytes cs := by
      rw [← hn, Place.bytes]
      omega
    rw [hn, List.cons_append, takeBytes, hrest, ih]

end Lowering

/-! ## Phrases and their nodes -/

namespace Phrase

/-! ### What does not depend on the place -/

@[simp]
theorem kind_place (s : Place) (p : Phrase) : (p.place s).kind = p.kind := by
  cases p <;> rfl

@[simp]
theorem field_place (s : Place) (p : Phrase) : (p.place s).field = p.field := by
  cases p <;> rfl

theorem children_place (s : Place) (p : Phrase) : (p.place s).children = placeAll s p.children := by
  cases p <;> rfl

/-- A node starts behind the blanks in front of its phrase. -/
theorem start_place (s : Place) (p : Phrase) :
    (p.place s).start = s.advance p.gap.toList := by
  cases p <;> rfl

/-- It stops where the phrase is written out. -/
theorem stop_place (s : Place) (p : Phrase) : (p.place s).stop = s.advance p.chars := by
  cases p <;> rfl

/-- A phrase that follows the grammar leaves nothing out. -/
theorem Follows.isMissing_place {p : Phrase} (h : p.Follows) (s : Place) :
    (p.place s).isMissing = false := by
  cases p with
  | absent => cases h
  | leaf | node => rfl

/-! ### Lists of phrases -/

theorem charsOfList_append (ps qs : List Phrase) :
    charsOfList (ps ++ qs) = charsOfList ps ++ charsOfList qs := by
  induction ps with
  | nil => rfl
  | cons p ps ih => rw [List.cons_append, charsOfList, charsOfList, ih, List.append_assoc]

/-- Phrases are placed one after the other, each where those in front of it end. -/
theorem placeAll_append (s : Place) (ps qs : List Phrase) :
    placeAll s (ps ++ qs) = placeAll s ps ++ placeAll (s.advance (charsOfList ps)) qs := by
  induction ps generalizing s with
  | nil => rfl
  | cons p ps ih =>
    rw [List.cons_append, placeAll, placeAll, ih, charsOfList, Place.advance_append,
      List.cons_append]

theorem followAll_iff (ps : List Phrase) : FollowAll ps ↔ ∀ p ∈ ps, p.Follows := by
  induction ps with
  | nil => simp [FollowAll]
  | cons p ps ih => rw [FollowAll, ih, List.forall_mem_cons]

/-- The parts of a phrase that follows the grammar follow it. -/
theorem Follows.of_mem_children {p q : Phrase} (h : p.Follows) (hq : q ∈ p.children) :
    q.Follows := by
  cases p with
  | node kind field children =>
    rw [Follows] at h
    exact (followAll_iff children).mp h.2.2.2 q hq
  | leaf | absent => cases hq

/-! ### Texts -/

mutual

/-- A phrase is written as the blanks in front of it and what is behind them. -/
theorem chars_eq : (p : Phrase) → p.chars = p.gap.toList ++ p.body
  | leaf .. => rfl
  | absent .. => rfl
  | node _ _ children => charsOfList_eq children

/-- Some phrases are written as the blanks in front of the first and what is behind them. -/
theorem charsOfList_eq : (ps : List Phrase) →
    charsOfList ps = (gapOfList ps).toList ++ bodyOfList ps
  | [] => rfl
  | p :: rest => by
    rw [charsOfList, gapOfList, bodyOfList, chars_eq p, List.append_assoc]

end

@[simp]
theorem text_leaf (kind : NodeKind) (field : Option NodeField) (gap text : String) :
    (leaf kind field gap text).text = text :=
  String.ofList_toList

/-! ## Phrases in a text -/

/-- A text holds some characters behind a place. -/
def HoldsAt (source : String) (s : Place) (cs : List Char) : Prop :=
  ∃ front back, source.toList = front ++ (cs ++ back) ∧ s = Place.start.advance front

variable {source : String} {s : Place} {cs ds : List Char}

/-- A text holds the front of what it holds. -/
theorem HoldsAt.left (h : HoldsAt source s (cs ++ ds)) : HoldsAt source s cs := by
  obtain ⟨front, back, hsource, hs⟩ := h
  exact ⟨front, ds ++ back, by rw [hsource, List.append_assoc], hs⟩

/-- It holds the rest where the front ends. -/
theorem HoldsAt.right (h : HoldsAt source s (cs ++ ds)) : HoldsAt source (s.advance cs) ds := by
  obtain ⟨front, back, hsource, rfl⟩ := h
  refine ⟨front ++ cs, back, ?_, (Place.advance_append ..).symm⟩
  simp only [hsource, List.append_assoc]

/-- A node is a phrase that stands at some place of a text. -/
def IsAt (source : String) (p : Phrase) (n : Node) : Prop :=
  ∃ s, n = p.place s ∧ HoldsAt source s p.chars

variable {p : Phrase} {n : Node} {ps : List Phrase}

namespace IsAt

theorem kind_eq (h : IsAt source p n) : n.kind = p.kind := by
  obtain ⟨s, rfl, -⟩ := h
  exact kind_place s p

theorem field_eq (h : IsAt source p n) : n.field = p.field := by
  obtain ⟨s, rfl, -⟩ := h
  exact field_place s p

/-- Nothing is missing in a phrase that follows the grammar. -/
theorem isMissing_eq (h : IsAt source p n) (hp : p.Follows) : n.isMissing = false := by
  obtain ⟨s, rfl, -⟩ := h
  exact hp.isMissing_place s

/-- **The text of a node** is that of its phrase. -/
theorem text_eq (h : IsAt source p n) (unit : String) :
    ({ source, unit } : Lowering).text n = p.text := by
  obtain ⟨s, rfl, front, back, hsource, rfl⟩ := h
  have hstart : ((p.place (Place.start.advance front)).start).byte =
      Place.bytes (front ++ p.gap.toList) := by
    rw [start_place, ← Place.advance_append, Place.byte_advance]
    exact Nat.zero_add _
  have hstop : ((p.place (Place.start.advance front)).stop).byte =
      Place.bytes (front ++ p.gap.toList) + Place.bytes p.body := by
    rw [stop_place, chars_eq, ← Place.advance_append, ← List.append_assoc, Place.byte_advance,
      Place.bytes_append]
    exact Nat.zero_add _
  have hsplit : source.toList = (front ++ p.gap.toList) ++ (p.body ++ back) := by
    rw [hsource, chars_eq]
    simp only [List.append_assoc]
  rw [Lowering.text, hstart, hstop, Nat.add_sub_cancel_left]
  dsimp only
  rw [hsplit, Lowering.dropBytes_bytes, Lowering.takeBytes_bytes]
  rfl

end IsAt

/-- What two things are related to one by one is two things. -/
theorem forall₂_pair {α β : Type} {R : α → β → Prop} {a b : α} {xs : List β}
    (h : List.Forall₂ R [a, b] xs) : ∃ x y, xs = [x, y] ∧ R a x ∧ R b y := by
  cases h with
  | cons ha h =>
  cases h with
  | cons hb h =>
  cases h with
  | nil => exact ⟨_, _, rfl, ha, hb⟩

/-- Phrases that a text holds one after the other become nodes that stand in it. -/
theorem forall₂_placeAll (h : HoldsAt source s (charsOfList ps)) :
    List.Forall₂ (IsAt source) ps (placeAll s ps) := by
  induction ps generalizing s with
  | nil => exact .nil
  | cons p ps ih =>
    rw [charsOfList] at h
    exact .cons ⟨s, rfl, h.left⟩ (ih h.right)

/-- A phrase with parts is written as its parts are, one after the other. -/
theorem charsOfList_children (p : Phrase) (h : p.children ≠ []) :
    charsOfList p.children = p.chars := by
  cases p with
  | node => rfl
  | leaf | absent => exact absurd rfl h

/-- **The children of a node** are the parts of its phrase, each at its place. -/
theorem IsAt.children (h : IsAt source p n) :
    List.Forall₂ (IsAt source) p.children n.children := by
  obtain ⟨s, rfl, hholds⟩ := h
  rw [children_place]
  by_cases hp : p.children = []
  · rw [hp]
    exact .nil
  · rw [← charsOfList_children p hp] at hholds
    exact forall₂_placeAll hholds

end Phrase

end GoAtlas
