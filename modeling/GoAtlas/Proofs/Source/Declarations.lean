import GoAtlas.Proofs.Source.Entries

/-!
# Type declarations as entries

A declaration of one type stands in a group of declarations, or behind a word `type` of its own.
Both ways of writing declarations are lists of entries: a group has the entries among its own parts,
and otherwise the entries are the declarations themselves. Whatever is known of each declaration
where it stands is known of what a unit declares, in the order of the entries
(`Phrase.forall₂_members`, `Phrase.forall₂_singles`).
-/

namespace GoAtlas

namespace Phrase

/-- A declaration behind a word `type` of its own. -/
def lone (p : Phrase) : Phrase :=
  node .typeDeclaration none [leaf (.symbol "type") none "" "type", p.withGap " "]

/-- What stands in front of the entries of a group. -/
def groupOpening (gap : String) : List Phrase :=
  [leaf (.symbol "type") none gap "type", leaf (.symbol "(") none " " "("]

section Entries

variable {α : Type} {remarks : α → List String} {phrase : α → Phrase} {indent gap : String}
  {source unit : String} {s : Place} {xs : List α}

/-- Declarations under comment lines in one group, where each line is indented. -/
def group (remarks : α → List String) (phrase : α → Phrase) (indent gap : String) (xs : List α) :
    Phrase :=
  node .typeDeclaration none
    (groupOpening gap ++ (entries remarks phrase ("\n" ++ indent) indent ("\n" ++ indent) xs ++
      [leaf (.symbol ")") none "" ")"]))

/-- The entries of a group that stands behind a place, each with its place. -/
def placesInGroup (remarks : α → List String) (phrase : α → Phrase) (indent gap : String)
    (s : Place) (xs : List α) : List ((Place × String) × α) :=
  placesOf remarks phrase ("\n" ++ indent) indent ("\n" ++ indent)
    (s.advance (charsOfList (groupOpening gap))) xs

/-- **The members of a group** are its entries, each where it stands and under its doc. -/
theorem forall₂_members {Q : (Place × String) × α → TypeSpec → Prop} (hindent : '\n' ∉ indent.toList)
    (hxs : ∀ x ∈ xs, (∀ line ∈ remarks x, '\n' ∉ line.toList) ∧
      (∀ other, ((phrase x).withGap other).gap = other) ∧ (phrase x).kind.isSpec = true)
    (hmake : ∀ x ∈ xs, ∀ t other, HoldsAt source t ((phrase x).withGap other).chars →
      Q ((t, other), x) (({ source, unit } : Lowering).spec (docOf (remarks x))
        (((phrase x).withGap other).place t)))
    (hholds : HoldsAt source s (group remarks phrase indent gap xs).chars) :
    List.Forall₂ Q (placesInGroup remarks phrase indent gap s xs)
      ((Node.withElders [] ((group remarks phrase indent gap xs).place s).children).filterMap
        (Lowering.member? { source, unit })) := by
  have hcount : ("\n" ++ indent).toList.count '\n' = 1 := by
    rw [String.toList_append, List.count_append, List.count_eq_zero.mpr hindent]
    rfl
  have hchars : (group remarks phrase indent gap xs).chars =
      charsOfList (groupOpening gap) ++
        (charsOfList (entries remarks phrase ("\n" ++ indent) indent ("\n" ++ indent) xs) ++
          charsOfList [leaf (.symbol ")") none "" ")"]) := by
    rw [group, chars, charsOfList_append, charsOfList_append]
  have hfresh : ∀ row, Node.Fresh (placeAll s (groupOpening gap)).reverse row := fun row =>
    ((Node.fresh_nil row).cons rfl).cons rfl
  have hfront : (Node.withElders [] (placeAll s (groupOpening gap))).filterMap
      (Lowering.member? { source, unit }) = [] := rfl
  have hback : ∀ elders t, (Node.withElders elders
      (placeAll t [leaf (.symbol ")") none "" ")"])).filterMap
        (Lowering.member? { source, unit }) = [] := fun _ _ => rfl
  rw [hchars] at hholds
  rw [children_place, group, children, placeAll_append, placeAll_append, Node.withElders_append,
    Node.withElders_append, List.filterMap_append, List.filterMap_append, hfront, hback,
    List.nil_append, List.append_nil, List.append_nil]
  refine @forall₂_entries source unit _ _ _ _ _ _ _ _ _ _ _ _ hcount (fun x hx => ?_)
    (fun elders n hn => ?_) (fun x hx elders t other hpart hdoc => ?_) (hfresh _)
    hholds.right.left
  · obtain ⟨hremarks, hgap, hspec⟩ := hxs x hx
    exact ⟨hremarks, hgap, isNamed_of_isSpec hspec⟩
  · rw [Lowering.member?]
    rcases hn with hn | hn <;> rw [hn] <;> rfl
  · have hkind : (((phrase x).withGap other).place t).kind.isSpec = true := by
      rw [kind_place, kind_withGap, (hxs x hx).2.2]
    refine ⟨_, if_pos hkind, ?_⟩
    rw [hdoc]
    exact hmake x hx t other hpart

/-- A declaration in parentheses that stands behind a place is a group of its entries. -/
theorem item?_group_place (before : List Node) (l : Lowering) :
    l.item? before ((group remarks phrase indent gap xs).place s) =
      some (.group (l.position ((group remarks phrase indent gap xs).place s))
        ((Node.withElders [] ((group remarks phrase indent gap xs).place s).children).filterMap
          l.member?)) :=
  Lowering.item?_group (kind_place ..) rfl before

/-- **Declarations by themselves** are items, each where it stands and under its doc. -/
theorem forall₂_singles {Q : (Place × String) × α → Item → Prop} {between rest : String}
    {before : List Node} (hbetween : between.toList.count '\n' = 1)
    (hxs : ∀ x ∈ xs, (∀ line ∈ remarks x, '\n' ∉ line.toList) ∧ (phrase x).kind.isSpec = true)
    (hmake : ∀ x ∈ xs, ∀ t other,
      HoldsAt source (t.advance (other.toList ++ "type".toList)) ((phrase x).withGap " ").chars →
      Q ((t, other), x) (.single (({ source, unit } : Lowering).spec (docOf (remarks x))
        (((phrase x).withGap " ").place (t.advance (other.toList ++ "type".toList))))))
    (hfresh : Node.Fresh before s.row)
    (hholds : HoldsAt source s
      (charsOfList (entries remarks (fun x => lone (phrase x)) between rest gap xs))) :
    List.Forall₂ Q (placesOf remarks (fun x => lone (phrase x)) between rest gap s xs)
      (({ source, unit } : Lowering).itemsBehind before
        (placeAll s (entries remarks (fun x => lone (phrase x)) between rest gap xs))) := by
  refine @forall₂_entries source unit _ _ _ _ _ _ _ _ _ _ _ _ hbetween
    (fun x hx => ⟨(hxs x hx).1, fun _ => rfl, rfl⟩)
    (fun elders n hn => Lowering.item?_eq_none (by
      rcases hn with hn | hn <;> rw [hn] <;> exact ⟨nofun, nofun⟩) elders)
    (fun x hx elders t other hpart hdoc => ?_) hfresh hholds
  have hkind : (((phrase x).withGap " ").place
      (t.advance (other.toList ++ "type".toList))).kind.isSpec = true := by
    rw [kind_place, kind_withGap, (hxs x hx).2]
  have hsplit : ((lone (phrase x)).withGap other).chars =
      (other.toList ++ "type".toList) ++ (((phrase x).withGap " ").chars ++ []) := rfl
  rw [hsplit] at hpart
  refine ⟨_, Lowering.item?_single (kind_place ..) rfl rfl hkind elders, ?_⟩
  rw [hdoc]
  exact hmake x hx t other hpart.right.left

end Entries

end Phrase

namespace SourceUnit

open Phrase

/-- The items of a unit behind lines that stand for none. -/
theorem items_ofTree_onLines {source name : String} {root : Node} {preface ps : List Phrase}
    (hpreface : NoItems preface) (hroot : root.children = placeAll .start (onLines preface ++ ps)) :
    (ofTree name source root).items =
      ({ source, unit := name } : Lowering).itemsBehind (placeAll .start (onLines preface)).reverse
        (placeAll (Place.start.advance (charsOfList (onLines preface))) ps) := by
  rw [ofTree, Lowering.items_eq, hroot, placeAll_append, Lowering.itemsBehind_append,
    Lowering.itemsBehind_eq_nil (hpreface.onLines.placeAll _), List.append_nil, List.nil_append]

end SourceUnit

end GoAtlas
