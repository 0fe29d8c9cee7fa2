import GoAtlas.Json.Printer
import GoAtlas.Json.Reader
import Mathlib.Data.List.Basic
import Mathlib.Order.Nat
import Mathlib.Tactic.SplitIfs

/-!
# Strings and numbers in JSON text

What the printer writes for a string or a whole number is read back, whatever follows. A string ends
with its quote, so anything may follow (`stringBody_quote`). A number goes on as long as it can, so
what follows must not continue it (`Ends`, `number?_toString`).
-/

namespace GoAtlas.Json

/-! ## Blanks -/

/-- Blanks are skipped up to the first character that is none. -/
theorem skipBlanks_append {blanks cs : List Char} (hblanks : ∀ c ∈ blanks, isJsonBlank c = true)
    (hcs : ∀ c ∈ cs.head?, isJsonBlank c = false) : skipBlanks (blanks ++ cs) = cs := by
  rw [skipBlanks, List.dropWhile_append_of_pos hblanks]
  cases cs with
  | nil => rfl
  | cons c rest =>
    have hc := hcs c rfl
    rw [List.dropWhile_cons_of_neg (by simp [hc])]

theorem skipBlanks_cons {c : Char} {cs : List Char} (hc : isJsonBlank c = false) :
    skipBlanks (c :: cs) = c :: cs :=
  List.dropWhile_cons_of_neg (by simp [hc])

/-! ## Strings

Each character is escaped for itself, so the reader takes the escapes off one by one. A control
character has no other escape than its number, in four hexadecimal digits. -/

/-- The two hexadecimal digits of a control character are its number. -/
theorem hexUnit?_hexDigit {n : Nat} (hn : n < 0x20) :
    hexUnit? '0' '0' (hexDigit (n / 16)) (hexDigit (n % 16)) = some n := by
  have hall : ∀ n < 0x20, hexUnit? '0' '0' (hexDigit (n / 16)) (hexDigit (n % 16)) = some n := by
    decide
  exact hall n hn

/-- **An escaped character** is read back. -/
theorem stringBody_escapeChar (c : Char) (rest : List Char) :
    stringBody (escapeChar c ++ rest) =
      (stringBody rest).map fun (s, after) => (c :: s, after) := by
  rw [escapeChar]
  -- the quote, the backslash and five control characters have escapes of their own
  split_ifs with hquote hbackslash hfeed hreturn htab hback hform hcontrol
  · rw [hquote]
    rfl
  · rw [hbackslash]
    rfl
  · rw [hfeed]
    rfl
  · rw [hreturn]
    rfl
  · rw [htab]
    rfl
  · rw [hback]
    rfl
  · rw [hform]
    rfl
  · have hlow : ¬ (0xD800 ≤ c.toNat ∧ c.toNat < 0xDC00) := by omega
    have hhigh : ¬ (0xDC00 ≤ c.toNat ∧ c.toNat < 0xE000) := by omega
    simp only [List.cons_append, List.nil_append, stringBody, hexUnit?_hexDigit hcontrol,
      if_neg hlow, if_neg hhigh, Char.ofNat_toNat]
  · simp [stringBody, hbackslash, hcontrol]

/-- **A string is read back** up to its closing quote. -/
theorem stringBody_quote (s rest : List Char) :
    stringBody (s.flatMap escapeChar ++ '"' :: rest) = some (s, rest) := by
  induction s with
  | nil => rfl
  | cons c s ih =>
    rw [List.flatMap_cons, List.append_assoc, stringBody_escapeChar, ih]
    rfl

/-- A quoted text is a quote, the escaped characters, and a quote. -/
theorem toList_quote (s : String) :
    (quote s).toList = '"' :: (s.toList.flatMap escapeChar ++ ['"']) := by
  simp [quote]

/-! ## Whole numbers

The digits of a number are what the library says they are; the reader takes as many digits as there
are and computes the number back from them. -/

/-- What follows a number does not continue it. -/
def Ends (rest : List Char) : Prop :=
  ∀ c ∈ rest.head?, c.isDigit = false ∧ c ≠ '.' ∧ c ≠ 'e' ∧ c ≠ 'E'

/-- Nothing follows at the end of a text. -/
theorem ends_nil : Ends [] := nofun

/-- The digits of a positive number do not start with zero. -/
theorem head?_toDigits_ne {n : Nat} (hn : 0 < n) : (Nat.toDigits 10 n).head? ≠ some '0' := by
  induction n using Nat.strongRecOn with
  | ind n ih =>
    by_cases hsmall : n < 10
    · have hall : ∀ n < 10, 0 < n → (Nat.toDigits 10 n).head? ≠ some '0' := by decide
      exact hall n hsmall hn
    · have hdivided : 0 < n / 10 := by omega
      have hdigits := Nat.toDigits_append_toDigits (b := 10) (by omega) hdivided
        (Nat.mod_lt n (by omega))
      rw [Nat.div_add_mod] at hdigits
      rw [← hdigits, List.head?_append_of_ne_nil _ Nat.toDigits_ne_nil]
      exact ih (n / 10) (by omega) hdivided

/-- The digits of a number are the longest run of digits, when nothing that follows continues it. -/
theorem span_toDigits (n : Nat) {rest : List Char} (h : Ends rest) :
    (Nat.toDigits 10 n ++ rest).takeWhile Char.isDigit = Nat.toDigits 10 n ∧
      (Nat.toDigits 10 n ++ rest).dropWhile Char.isDigit = rest := by
  have hdigits : ∀ c ∈ Nat.toDigits 10 n, c.isDigit = true := fun c hc =>
    Nat.isDigit_of_mem_toDigits (by omega) (by omega) hc
  rw [List.takeWhile_append_of_pos hdigits, List.dropWhile_append_of_pos hdigits]
  cases rest with
  | nil => exact ⟨List.append_nil _, rfl⟩
  | cons c rest =>
    obtain ⟨hc, -⟩ := h c rfl
    rw [List.takeWhile_cons_of_neg (by simp [hc]), List.dropWhile_cons_of_neg (by simp [hc])]
    exact ⟨List.append_nil _, rfl⟩

/-- The digits of a number are whole digits: they start with zero only for zero itself. -/
theorem wholeDigits?_toDigits (n : Nat) {rest : List Char} (h : Ends rest) :
    wholeDigits? (Nat.toDigits 10 n ++ rest) = some (Nat.toDigits 10 n, rest) := by
  obtain ⟨htake, hdrop⟩ := span_toDigits n h
  rcases Nat.eq_zero_or_pos n with rfl | hn
  · -- zero is written by the one digit that must stand alone
    have hnone : rest.takeWhile Char.isDigit = [] := by
      have hzero : ('0' :: rest).takeWhile Char.isDigit = ['0'] := htake
      rw [List.takeWhile_cons_of_pos (by decide)] at hzero
      exact (List.cons.inj hzero).2
    change (if (rest.takeWhile Char.isDigit).isEmpty then some (['0'], rest) else none) = _
    rw [hnone]
    rfl
  · rcases hds : Nat.toDigits 10 n with _ | ⟨d, ds⟩
    · exact absurd hds Nat.toDigits_ne_nil
    · have hd : d ≠ '0' := fun heq => head?_toDigits_ne hn (by rw [hds, heq]; rfl)
      rw [hds] at htake hdrop
      have hwhole : wholeDigits? (d :: ds ++ rest) = digits? (d :: ds ++ rest) := by
        rw [List.cons_append, wholeDigits?]
        exact fun after heq => hd (List.cons.inj heq).1
      rw [hwhole, digits?]
      rw [htake, hdrop]
      rfl

/-- **A whole number of 64 bits is read back**, when nothing that follows continues it. -/
theorem number?_toString {n : Nat} (hn : n < UInt64.size) {rest : List Char} (h : Ends rest) :
    number? ((toString n).toList ++ rest) = some (nat n, rest) := by
  have hfraction : fraction? rest = some ([], rest) := by
    rw [fraction?]
    rintro after rfl
    exact (h '.' rfl).2.1 rfl
  have hexponent : exponent? rest = some ([], rest) := by
    rcases rest with _ | ⟨e, _ | ⟨sign, rest⟩⟩
    · rfl
    · obtain ⟨-, -, he, hE⟩ := h e rfl
      simp [exponent?, he, hE]
    · obtain ⟨-, -, he, hE⟩ := h e rfl
      simp [exponent?, he, hE]
  have hsign : ∀ after, Nat.toDigits 10 n ++ rest ≠ '-' :: after := by
    intro after heq
    rcases hds : Nat.toDigits 10 n with _ | ⟨d, ds⟩
    · exact absurd hds Nat.toDigits_ne_nil
    · have hdigit : d.isDigit = true :=
        Nat.isDigit_of_mem_toDigits (b := 10) (n := n) (by omega) (by omega)
          (hds ▸ List.mem_cons_self)
      rw [hds] at heq
      rw [(List.cons.inj heq).1] at hdigit
      exact absurd hdigit (by decide)
  have hvalue : ofDigits (Nat.toDigits 10 n) = n :=
    Nat.ofDigitChars_toDigits (b := 10) (by omega) (by omega)
  have hdigits : (toString n).toList = Nat.toDigits 10 n := Nat.toList_repr
  rw [hdigits, number?]
  · simp [wholeDigits?_toDigits n h, hfraction, hexponent, hvalue, hn]
  · exact hsign

end GoAtlas.Json
