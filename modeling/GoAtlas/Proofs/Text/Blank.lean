import GoAtlas.Text.Blank
import Mathlib.Data.List.Basic
import Mathlib.Data.List.TakeWhile

/-!
# Laws of trimming

Trimming takes nothing away but blanks at the two ends: what is left is a part of the text
(`Text.trimChars_infix`), and a part that starts and ends without a blank stays whole, whatever
blanks stand around it (`Text.trimChars_append`).

There are few blanks, so a class of characters is kept apart from them by looking at each
(`Text.eq_false_of_isBlank`).
-/

namespace GoAtlas.Text

variable {p : Char → Bool} {c : Char} {before cs after : List Char}

/-- The numbers of the blanks. -/
def blankNumbers : List Nat :=
  [9, 10, 11, 12, 13, 0x20, 0x85, 0xA0, 0x1680, 0x2000, 0x2001, 0x2002, 0x2003, 0x2004, 0x2005,
    0x2006, 0x2007, 0x2008, 0x2009, 0x200A, 0x2028, 0x2029, 0x202F, 0x205F, 0x3000]

/-- **A class that none of the blanks is in** by its number has no character that is a blank. -/
theorem eq_false_of_isBlank (h : ∀ n ∈ blankNumbers, p (Char.ofNat n) = false)
    (hc : isBlank c = true) : p c = false := by
  have hnumber : c.toNat ∈ blankNumbers := by
    simp only [isBlank, Bool.or_eq_true, Bool.and_eq_true, decide_eq_true_eq, beq_iff_eq] at hc
    simp only [blankNumbers, List.mem_cons, List.not_mem_nil, or_false]
    omega
  have hchar := h c.toNat hnumber
  rwa [Char.ofNat_toNat] at hchar

/-! ## Trimming one end

Blanks are dropped from the end of a text until another character comes. What is in front of that
character stays, blanks included. -/

theorem dropTrailing_prefix_self (p : Char → Bool) (cs : List Char) : dropTrailing p cs <+: cs := by
  rw [dropTrailing, ← List.reverse_suffix, List.reverse_reverse]
  exact List.dropWhile_suffix p

/-- A character that is kept keeps what stands in front of it. -/
theorem dropTrailing_append_cons (hc : p c = false) (before after : List Char) :
    dropTrailing p (before ++ c :: after) = before ++ c :: dropTrailing p after := by
  have hcons : (c :: before.reverse).dropWhile p = c :: before.reverse :=
    List.dropWhile_cons_of_neg (by simp [hc])
  simp only [dropTrailing, List.reverse_append, List.reverse_cons, List.append_assoc,
    List.singleton_append, List.dropWhile_append, hcons]
  split
  · rename_i hempty
    rw [List.isEmpty_iff.mp hempty]
    simp
  · simp

/-- A text of nothing but blanks is dropped whole. -/
theorem dropTrailing_of_forall (h : ∀ c ∈ cs, p c = true) : dropTrailing p cs = [] := by
  rw [dropTrailing, List.reverse_eq_nil_iff, List.dropWhile_eq_nil_iff]
  exact fun c hc => h c (List.mem_reverse.mp hc)

/-- A part without blanks keeps what stands in front of it. -/
theorem dropTrailing_append (hcs : ∀ c ∈ cs, p c = false) (hne : cs ≠ [])
    (before after : List Char) :
    dropTrailing p (before ++ (cs ++ after)) = before ++ (cs ++ dropTrailing p after) := by
  obtain ⟨front, last, rfl⟩ := (List.eq_nil_or_concat' cs).resolve_left hne
  have hlast : p last = false := hcs last (by simp)
  have hsplit : ∀ rest, before ++ (front ++ [last] ++ rest) = (before ++ front) ++ last :: rest := by
    intro rest
    simp only [List.append_assoc, List.singleton_append]
  rw [hsplit, hsplit, dropTrailing_append_cons hlast]

/-- A part without blanks is where dropping blanks at the start ends. -/
theorem dropWhile_append (hbefore : ∀ c ∈ before, p c = true) (hcs : ∀ c ∈ cs, p c = false)
    (hne : cs ≠ []) (after : List Char) :
    (before ++ (cs ++ after)).dropWhile p = cs ++ after := by
  obtain ⟨first, rest, rfl⟩ := List.exists_cons_of_ne_nil hne
  rw [List.dropWhile_append_of_pos hbefore, List.cons_append, List.dropWhile_cons_of_neg]
  simp [hcs first (by simp)]

/-! ## Trimming both ends

Trimming at both ends is trimming at the one and then at the other, so its laws are put together
from those above. -/

/-- **Trimming takes a part of a text.** Whatever a text has in it after trimming it had before. -/
theorem trimChars_infix (cs : List Char) : trimChars cs <:+: cs :=
  (dropTrailing_prefix_self isBlank _).isInfix.trans (List.dropWhile_suffix isBlank).isInfix

/-- **A part without blanks stays whole**, and what stands behind it is trimmed by itself. -/
theorem trimChars_append (hbefore : ∀ c ∈ before, isBlank c = true)
    (hcs : ∀ c ∈ cs, isBlank c = false) (hne : cs ≠ []) (after : List Char) :
    trimChars (before ++ (cs ++ after)) = cs ++ dropTrailing isBlank after := by
  rw [trimChars, dropWhile_append hbefore hcs hne]
  exact dropTrailing_append hcs hne [] after

end GoAtlas.Text
