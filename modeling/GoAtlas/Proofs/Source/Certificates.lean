import GoAtlas.Proofs.Source.Placing
import GoAtlas.Source.Unit.Parser

/-!
# Trees that are checked

The parser of this library checks what it has read against the grammar before it makes a tree of it.
So a tree of it that has no error at its top is a tree of its text (`SourceText.isTree_tree`), and
some phrases are read as they are written if they follow the grammar and are what the parser finds
in their text (`SourceText.readsAs_tree`). What is proved of the trees of any parser holds of such
trees.
-/

namespace GoAtlas.SourceText

open Phrase

variable {source : String} {ps : List Phrase}

theorem children_tree_of_certifies (h : Certifies source (phrases source)) :
    (tree source).children = placeAll .start (phrases source) := by
  rw [tree]
  dsimp only
  rw [if_pos h, List.append_nil]

/-- What the parser has checked is a tree of its text. -/
theorem isTree_of_certifies (h : Certifies source (phrases source)) :
    IsTree source (tree source) := by
  obtain ⟨hfile, hprefix, hrest⟩ := h
  refine ⟨phrases source, source.toList.drop (charsOfList (phrases source)).length, hfile,
    children_tree_of_certifies ⟨hfile, hprefix, hrest⟩, ?_, hrest⟩
  obtain ⟨tail, htail⟩ := List.isPrefixOf_iff_prefix.mp hprefix
  rw [← htail, List.drop_left]

/-- **Soundness of the parser**: a tree without errors at its top is a tree of its text. -/
theorem isTree_tree (h : ∀ n ∈ (tree source).children, n.kind ≠ .error) :
    IsTree source (tree source) := by
  by_cases hcert : Certifies source (phrases source)
  · exact isTree_of_certifies hcert
  · refine absurd rfl (h (errorAtEnd source) ?_)
    rw [tree]
    dsimp only
    rw [if_neg hcert]
    exact List.mem_append_right _ (List.mem_singleton_self _)

/-- The parser reads phrases that follow the grammar as they are written, if it finds them at all.
-/
theorem readsAs_tree (h : phrases (write ps) = ps) (hps : IsFile ps) : ReadsAs tree ps := by
  have hchars : (write ps).toList = charsOfList ps := String.toList_ofList
  have hcert : Certifies (write ps) (phrases (write ps)) := by
    rw [h]
    refine ⟨hps, ?_, ?_⟩
    · rw [hchars]
      exact List.isPrefixOf_iff_prefix.mpr (List.prefix_refl _)
    · rw [hchars, List.drop_length]
      rfl
  rw [ReadsAs, children_tree_of_certifies hcert, h]

/-- The clause of a package as the parser reads it. -/
def clause : Phrase :=
  node (.other "statement") none
    [leaf (.symbol "package") none "" "package", leaf .identifier none " " "p"]

end GoAtlas.SourceText
