import GoAtlas.Json.Printer
import Mathlib.Data.List.Basic

/-!
# Layouts of JSON text

The compact text of a value and the one with a line for each part differ in their blanks only. A
`Layout` says which blanks stand in front of a part, in front of a closing bracket and behind a
colon; `Layout.spell` writes a value with them. The two printers are its two cases
(`toList_compact`, `toList_pretty`), so whatever is true of every layout is true of both.
-/

namespace GoAtlas.Json

/-- The blanks between the parts of a written value. -/
structure Layout where
  /-- in front of what starts on a level, and of the bracket that closes it -/
  gap : Nat → List Char
  /-- behind the colon of a member -/
  afterColon : List Char

namespace Layout

/-- Parts between two brackets, with commas between them. -/
def enclose (l : Layout) (opening closing : Char) (level : Nat) : List (List Char) → List Char
  | [] => [opening, closing]
  | part :: rest =>
    opening :: (l.gap (level + 1) ++ part ++
      rest.flatMap (fun part => ',' :: (l.gap (level + 1) ++ part)) ++ l.gap level ++ [closing])

mutual

/-- A value in a layout, from a level on. -/
def spell (l : Layout) (level : Nat) : Json → List Char
  | arr items => l.enclose '[' ']' level (l.spellItems (level + 1) items)
  | obj members => l.enclose '\x7b' '\x7d' level (l.spellMembers (level + 1) members)
  | v => v.compact.toList

/-- Each of some values in a layout. -/
def spellItems (l : Layout) (level : Nat) : List Json → List (List Char)
  | [] => []
  | v :: rest => l.spell level v :: l.spellItems level rest

/-- Each of some members in a layout. -/
def spellMembers (l : Layout) (level : Nat) : List (String × Json) → List (List Char)
  | [] => []
  | (name, v) :: rest =>
    ((quote name).toList ++ ':' :: (l.afterColon ++ l.spell level v)) :: l.spellMembers level rest

end

/-- The layout without blanks. -/
def tight : Layout where
  gap _ := []
  afterColon := []

/-- The layout with a line for each part. -/
def spaced : Layout where
  gap level := '\n' :: List.replicate (2 * level) ' '
  afterColon := [' ']

end Layout

/-! ## The two printers -/

/-- Parts with separators between them: the first, and each further one behind a separator. -/
theorem intercalate_cons {α : Type} (separator part : List α) (rest : List (List α)) :
    separator.intercalate (part :: rest) = part ++ rest.flatMap (separator ++ ·) := by
  induction rest generalizing part with
  | nil => simp
  | cons next rest ih => 
    rw [List.intercalate_cons_cons, ih, List.flatMap_cons, List.append_assoc, List.append_assoc]

mutual

/-- **The compact text** is that of the layout without blanks. -/
theorem toList_compact (level : Nat) : (v : Json) → v.compact.toList = Layout.tight.spell level v
  | null | bool _ | nat _ | verbatim _ | str _ => by simp [Layout.spell]
  | arr items => by
    rw [Layout.spell, ← toList_compactItems, compact, String.toList_append, String.toList_append,
      String.toList_intercalate]
    cases compactItems items with
    | nil => rfl
    | cons part rest =>
      rw [List.map_cons, intercalate_cons]
      simp [Layout.enclose, Layout.tight]
  | obj members => by
    rw [Layout.spell, ← toList_compactMembers, compact, String.toList_append,
      String.toList_append, String.toList_intercalate]
    cases compactMembers members with
    | nil => rfl
    | cons part rest =>
      rw [List.map_cons, intercalate_cons]
      simp [Layout.enclose, Layout.tight]

/-- The items are spelled one by one. -/
theorem toList_compactItems (level : Nat) : (items : List Json) →
    (compactItems items).map String.toList = Layout.tight.spellItems level items
  | [] => rfl
  | v :: rest => by
    rw [compactItems, List.map_cons, toList_compact level v, toList_compactItems level rest,
      Layout.spellItems]

theorem toList_compactMembers (level : Nat) : (members : List (String × Json)) →
    (compactMembers members).map String.toList = Layout.tight.spellMembers level members
  | [] => rfl
  | (name, v) :: rest => by
    rw [compactMembers, List.map_cons, String.toList_append, String.toList_append,
      toList_compact level v, toList_compactMembers level rest, Layout.spellMembers]
    simp [Layout.tight]

end

/-- Brackets around lines are those of the spaced layout around the parts. -/
theorem toList_enclose (level : Nat) (opening closing : Char) (lines : List String) :
    (enclose (String.singleton opening) (String.singleton closing) level lines).toList =
      Layout.spaced.enclose opening closing level (lines.map String.toList) := by
  cases lines with
  | nil => simp [enclose, Layout.enclose]
  | cons part rest =>
    rw [enclose]
    · simp only [String.toList_append, String.toList_intercalate, List.map_cons, intercalate_cons]
      simp [Layout.enclose, Layout.spaced, lineBreak, List.flatMap_map]
    · exact nofun

mutual

/-- **The text with a line for each part** is that of the spaced layout. -/
theorem toList_prettyAt : (level : Nat) → (v : Json) →
    (v.prettyAt level).toList = Layout.spaced.spell level v
  | _, null | _, bool _ | _, nat _ | _, verbatim _ | _, str _ => by
    simp [prettyAt, Layout.spell]
  | level, arr items => by
    rw [Layout.spell, ← toList_prettyItems, prettyAt]
    exact toList_enclose level '[' ']' _
  | level, obj members => by
    rw [Layout.spell, ← toList_prettyMembers, prettyAt]
    exact toList_enclose level '\x7b' '\x7d' _

theorem toList_prettyItems : (level : Nat) → (items : List Json) →
    (prettyItems level items).map String.toList = Layout.spaced.spellItems level items
  | _, [] => rfl
  | level, v :: rest => by
    rw [prettyItems, List.map_cons, toList_prettyAt, toList_prettyItems, Layout.spellItems]

theorem toList_prettyMembers : (level : Nat) → (members : List (String × Json)) →
    (prettyMembers level members).map String.toList = Layout.spaced.spellMembers level members
  | _, [] => rfl
  | level, (name, v) :: rest => by
    rw [prettyMembers, List.map_cons, String.toList_append, String.toList_append,
      toList_prettyAt, toList_prettyMembers, Layout.spellMembers]
    simp [Layout.spaced]

end

/-- **The printer with a line for each part** spells a value in the spaced layout, from the margin.
-/
theorem toList_pretty (v : Json) : v.pretty.toList = Layout.spaced.spell 0 v :=
  toList_prettyAt 0 v

end GoAtlas.Json
