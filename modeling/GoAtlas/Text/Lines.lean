/-!
# Pieces and lines of a text

A text is cut at every separator, so there is one piece more than there are separators. Lines are
the pieces between line feeds; a line feed ends a line, so a text that ends with one has no empty
line behind it.
-/

namespace GoAtlas.Text

variable {α : Type} [DecidableEq α]

/-- The pieces of a list between the separators. -/
def pieces (separator : α) : List α → List (List α)
  | [] => [[]]
  | c :: rest =>
    if c = separator then [] :: pieces separator rest
    else
      match pieces separator rest with
      | [] => [[c]]
      | piece :: more => (c :: piece) :: more

/-- The lines of a list: the pieces between its line feeds, less an empty one at the end. -/
def lines (feed : α) (cs : List α) : List (List α) :=
  let all := pieces feed cs
  if all.getLast? = some [] then all.dropLast else all

theorem pieces_ne_nil (separator : α) (cs : List α) : pieces separator cs ≠ [] := by
  cases cs with
  | nil => simp [pieces]
  | cons c rest =>
    simp only [pieces]
    split
    · simp
    · split <;> simp

/-- No piece holds the separator. -/
theorem not_mem_of_mem_pieces {separator : α} {cs piece : List α}
    (h : piece ∈ pieces separator cs) : separator ∉ piece := by
  induction cs generalizing piece with
  | nil => simp_all [pieces]
  | cons c rest ih =>
    simp only [pieces] at h
    split at h
    · rcases List.mem_cons.1 h with rfl | h
      · simp
      · exact ih h
    · next hc =>
      split at h
      · simp_all
        exact fun e => hc e.symm
      · next first more heq =>
        rcases List.mem_cons.1 h with rfl | h
        · have := ih (heq ▸ List.mem_cons_self : first ∈ pieces separator rest)
          simp only [List.mem_cons, not_or]
          exact ⟨fun e => hc e.symm, this⟩
        · exact ih (heq ▸ List.mem_cons_of_mem _ h)

end GoAtlas.Text
