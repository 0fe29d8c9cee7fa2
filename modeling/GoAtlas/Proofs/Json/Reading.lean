import GoAtlas.Proofs.Json.Layout
import GoAtlas.Proofs.Json.Scalars
import GoAtlas.Proofs.Json.Writable
import Mathlib.Data.List.Forall2

/-!
# Written JSON is read back

A value that is written, in whatever layout, is read back from the text (`read?_spell`), and so it
is from the texts of both printers (`read?_compact`, `read?_pretty`). It has to be a value that can
be written: its numbers are whole numbers of 64 bits (`Fits`), and none of its parts is kept as its
text only (`Regular`). A reader without a limit reads it at any depth, since it gives itself as many
levels, and as many parts for each list, as the text has characters. A reader with a limit reads
what keeps to the limit.

The reader reads inner values through its argument. So what the text of a list or an object gives is
shown for any reader that reads the parts (`Reads`, `itemsWith_spelled`, `membersWith_spelled`), and
the chain of readers is then followed by recursion on the value (`reads_spell`).
-/

namespace GoAtlas.Json

/-! ## Readers of the parts -/

section Parts

variable {l : Layout} {inner : List Char → Option (Json × List Char)} {level : Nat}

/-- A layout has nothing but blanks. -/
structure Layout.Blank (l : Layout) : Prop where
  gap : ∀ level, ∀ c ∈ l.gap level, isJsonBlank c = true
  afterColon : ∀ c ∈ l.afterColon, isJsonBlank c = true

/-- A reader reads a value off its text, whatever follows that does not continue a number. The text
starts neither with a blank nor as an empty list would go on. -/
structure Reads (inner : List Char → Option (Json × List Char)) (v : Json) (text : List Char) :
    Prop where
  head : ∃ c rest, text = c :: rest ∧ isJsonBlank c = false ∧ c ≠ ']'
  read : ∀ rest, Ends rest → inner (text ++ rest) = some (v, rest)

/-- A member is read off its text. -/
structure ReadsMember (l : Layout) (inner : List Char → Option (Json × List Char))
    (member : String × Json) (text : List Char) : Prop where
  value : ∃ spelled, Reads inner member.2 spelled ∧
    text = (quote member.1).toList ++ ':' :: (l.afterColon ++ spelled)

/-- Blanks in front of a value are skipped up to the value and no further. -/
theorem Reads.skipBlanks {v : Json} {text : List Char} (h : Reads inner v text)
    {blanks : List Char} (hblanks : ∀ c ∈ blanks, isJsonBlank c = true) (rest : List Char) :
    skipBlanks (blanks ++ (text ++ rest)) = text ++ rest := by
  obtain ⟨c, text, rfl, hc, -⟩ := h.head
  refine skipBlanks_append hblanks ?_
  simpa using hc

/-- A blank does not continue a number. -/
theorem ends_of_blank {c : Char} (hc : isJsonBlank c = true) (rest : List Char) :
    Ends (c :: rest) := by
  intro d hd
  obtain rfl := Option.some.inj hd
  simp only [isJsonBlank, Bool.or_eq_true, beq_iff_eq] at hc
  rcases hc with ((rfl | rfl) | rfl) | rfl <;> decide

/-- Neither does a comma or a closing bracket. -/
theorem ends_gap (hl : l.Blank) {c : Char} (hc : c = ',' ∨ c = ']' ∨ c = '\x7d')
    (rest : List Char) : Ends (l.gap level ++ c :: rest) := by
  rcases hgap : l.gap level with _ | ⟨blank, blanks⟩
  · intro d hd
    obtain rfl : c = d := by simpa using hd
    rcases hc with rfl | rfl | rfl <;> decide
  · exact ends_of_blank (hl.gap level blank (by simp [hgap])) _

/-- The text behind the first part of a list or an object. -/
def Layout.further (l : Layout) (level : Nat) (closing : Char) (parts : List (List Char))
    (after : List Char) : List Char :=
  parts.flatMap (fun part => ',' :: (l.gap (level + 1) ++ part)) ++ (l.gap level ++ closing :: after)

theorem Layout.further_cons (l : Layout) (level : Nat) (closing : Char) (part : List Char)
    (parts : List (List Char)) (after : List Char) :
    l.further level closing (part :: parts) after =
      ',' :: (l.gap (level + 1) ++ (part ++ l.further level closing parts after)) := by
  simp [further]

/-- What follows a part does not go on with a number that the part ends with. -/
theorem Layout.ends_further (hl : l.Blank) {closing : Char}
    (hc : closing = ']' ∨ closing = '\x7d') (parts : List (List Char)) (after : List Char) :
    Ends (l.further level closing parts after) := by
  cases parts with
  | nil => exact ends_gap hl (Or.inr hc) after
  | cons part parts =>
    rw [further_cons]
    intro d hd
    obtain rfl : ',' = d := by simpa using hd
    decide

/-- **The items of a list** are read off their texts. -/
theorem itemsWith_spelled (hl : l.Blank) {items : List Json} {parts : List (List Char)}
    (h : List.Forall₂ (Reads inner) items parts) {v : Json} {part : List Char}
    (hv : Reads inner v part) {fuel : Nat} (hfuel : items.length < fuel) (found : List Json)
    (after : List Char) :
    itemsWith inner fuel found
        (l.gap (level + 1) ++ (part ++ l.further level ']' parts after)) =
      some (found.reverse ++ v :: items, after) := by
  induction h generalizing v part fuel found with
  | nil =>
    obtain ⟨fuel, rfl⟩ : ∃ n, fuel = n + 1 := ⟨fuel - 1, by omega⟩
    have hclose : skipBlanks (l.further level ']' [] after) = ']' :: after :=
      skipBlanks_append (hl.gap level) (by simp [isJsonBlank])
    rw [itemsWith, hv.skipBlanks (hl.gap _), hv.read _ (Layout.ends_further hl (Or.inl rfl) _ _)]
    simp [hclose]
  | @cons w next items parts hw _ ih =>
    obtain ⟨fuel, rfl⟩ : ∃ n, fuel = n + 1 := ⟨fuel - 1, by omega⟩
    have hcomma : skipBlanks (l.further level ']' (next :: parts) after) =
        ',' :: (l.gap (level + 1) ++ (next ++ l.further level ']' parts after)) := by
      rw [Layout.further_cons]
      exact skipBlanks_cons (by decide)
    have hrest := ih hw (Nat.lt_of_succ_lt_succ hfuel) (v :: found)
    rw [itemsWith, hv.skipBlanks (hl.gap _), hv.read _ (Layout.ends_further hl (Or.inl rfl) _ _)]
    simp [hcomma, hrest]

theorem skipBlanks_quote {blanks : List Char} (hblanks : ∀ c ∈ blanks, isJsonBlank c = true)
    (name : String) (rest : List Char) :
    skipBlanks (blanks ++ ((quote name).toList ++ rest)) =
      '"' :: (name.toList.flatMap escapeChar ++ '"' :: rest) := by
  rw [skipBlanks_append hblanks, toList_quote]
  · simp
  · rw [toList_quote]
    simp [isJsonBlank]

/-- One member in front is read off its text. -/
theorem membersWith_member (hl : l.Blank) {member : String × Json} {part : List Char}
    (hm : ReadsMember l inner member part) {rest : List Char} (hrest : Ends rest) (fuel : Nat)
    (found : List (String × Json)) :
    membersWith inner (fuel + 1) found (l.gap level ++ (part ++ rest)) =
      match skipBlanks rest with
      | ',' :: rest => membersWith inner fuel (member :: found) rest
      | '\x7d' :: rest => some ((member :: found).reverse, rest)
      | _ => none := by
  obtain ⟨spelled, hv, rfl⟩ := hm.value
  obtain ⟨name, v⟩ := member
  have hcolon : skipBlanks (':' :: (l.afterColon ++ (spelled ++ rest))) =
      ':' :: (l.afterColon ++ (spelled ++ rest)) := skipBlanks_cons (by decide)
  rw [membersWith, List.append_assoc, List.cons_append, List.append_assoc,
    skipBlanks_quote (hl.gap level)]
  simp only [stringBody_quote, hcolon, hv.skipBlanks hl.afterColon, hv.read rest hrest,
    String.ofList_toList, Option.bind_eq_bind, Option.bind_some]
  rfl

/-- **The members of an object** are read off their texts, each time that a name is given. -/
theorem membersWith_spelled (hl : l.Blank) {members : List (String × Json)}
    {parts : List (List Char)} (h : List.Forall₂ (ReadsMember l inner) members parts)
    {member : String × Json} {part : List Char} (hm : ReadsMember l inner member part) {fuel : Nat}
    (hfuel : members.length < fuel) (found : List (String × Json)) (after : List Char) :
    membersWith inner fuel found
        (l.gap (level + 1) ++ (part ++ l.further level '\x7d' parts after)) =
      some (found.reverse ++ member :: members, after) := by
  induction h generalizing member part fuel found with
  | nil =>
    obtain ⟨fuel, rfl⟩ : ∃ n, fuel = n + 1 := ⟨fuel - 1, by omega⟩
    have hclose : skipBlanks (l.further level '\x7d' [] after) = '\x7d' :: after :=
      skipBlanks_append (hl.gap level) (by simp [isJsonBlank])
    rw [membersWith_member hl hm (Layout.ends_further hl (Or.inr rfl) _ _), hclose]
    simp
  | @cons other next members parts hother _ ih =>
    obtain ⟨fuel, rfl⟩ : ∃ n, fuel = n + 1 := ⟨fuel - 1, by omega⟩
    have hcomma : skipBlanks (l.further level '\x7d' (next :: parts) after) =
        ',' :: (l.gap (level + 1) ++ (next ++ l.further level '\x7d' parts after)) := by
      rw [Layout.further_cons]
      exact skipBlanks_cons (by decide)
    have hrest := ih hother (Nat.lt_of_succ_lt_succ hfuel) (member :: found)
    rw [membersWith_member hl hm (Layout.ends_further hl (Or.inr rfl) _ _), hcomma]
    simp [hrest]

end Parts

/-! ## The length of a text

The text of a value has more characters than the value has levels, and the text of a list more than
the list has items. So the bounds that the reader takes from the length are never reached. -/

namespace Layout

variable (l : Layout)

/-- A list is written with more characters than it has parts, so the length of the text bounds the
parts. -/
theorem length_lt_length_enclose (opening closing : Char) (level : Nat)
    (parts : List (List Char)) :
    parts.length < (l.enclose opening closing level parts).length := by
  cases parts with
  | nil => simp [enclose]
  | cons part rest =>
    have hcommas : rest.length ≤
        (rest.flatMap fun part => ',' :: (l.gap (level + 1) ++ part)).length := by
      induction rest with
      | nil => simp
      | cons next rest ih =>
        simp only [List.flatMap_cons, List.length_append, List.length_cons]
        omega
    simp only [enclose, List.length_append, List.length_cons, List.length_nil]
    omega

/-- Each part is shorter than the list around it, which bounds the depth. -/
theorem length_part_lt (opening closing : Char) (level : Nat) {parts : List (List Char)}
    {part : List Char} (h : part ∈ parts) :
    part.length < (l.enclose opening closing level parts).length := by
  cases parts with
  | nil => simp at h
  | cons first rest =>
    rcases List.mem_cons.mp h with rfl | hmem
    · simp only [enclose, List.length_append, List.length_cons]
      omega
    · obtain ⟨before, after, rfl⟩ := List.append_of_mem hmem
      simp only [enclose, List.flatMap_append, List.flatMap_cons, List.length_append,
        List.length_cons]
      omega

mutual

/-- A text has at least as many characters as its value has levels. -/
theorem depth_le_length_spell (level : Nat) : (v : Json) → v.depth ≤ (l.spell level v).length
  | null | bool _ | nat _ | verbatim _ | str _ => Nat.zero_le _
  | arr items =>
    depthOfItems_lt (level + 1) items
      (Nat.zero_lt_of_lt (l.length_lt_length_enclose '[' ']' level _))
      fun _ => l.length_part_lt '[' ']' level
  | obj members =>
    depthOfMembers_lt (level + 1) members
      (Nat.zero_lt_of_lt (l.length_lt_length_enclose '\x7b' '\x7d' level _))
      fun _ => l.length_part_lt '\x7b' '\x7d' level

theorem depthOfItems_lt (level : Nat) : (items : List Json) → {n : Nat} → 0 < n →
    (∀ part ∈ l.spellItems level items, part.length < n) → depthOfItems items < n
  | [], _, hn, _ => hn
  | v :: rest, _, hn, h => by
    rw [spellItems, List.forall_mem_cons] at h
    rw [depthOfItems, Nat.max_lt]
    exact ⟨Nat.lt_of_le_of_lt (depth_le_length_spell level v) h.1,
      depthOfItems_lt level rest hn h.2⟩

theorem depthOfMembers_lt (level : Nat) : (members : List (String × Json)) → {n : Nat} → 0 < n →
    (∀ part ∈ l.spellMembers level members, part.length < n) → depthOfMembers members < n
  | [], _, hn, _ => hn
  | (name, v) :: rest, n, hn, h => by
    rw [spellMembers, List.forall_mem_cons] at h
    rw [depthOfMembers, Nat.max_lt]
    refine ⟨Nat.lt_of_le_of_lt (depth_le_length_spell level v) ?_,
      depthOfMembers_lt level rest hn h.2⟩
    have hpart := h.1
    simp only [List.length_append, List.length_cons] at hpart
    omega

end

end Layout

/-! ## The reader of values -/

section Values

variable {l : Layout} {size : Nat} {inner : List Char → Option (Json × List Char)}

/-- Behind the first part, a list reads on as the rest of one. -/
theorem Layout.enclose_append (l : Layout) (opening closing : Char) (level : Nat)
    (part : List Char) (parts : List (List Char)) (rest : List Char) :
    l.enclose opening closing level (part :: parts) ++ rest =
      opening :: (l.gap (level + 1) ++ (part ++ l.further level closing parts rest)) := by
  simp [enclose, further]

/-- A text that starts with a digit is read as a number. -/
theorem valueWith_digit {c : Char} (hc : c.isDigit = true) (cs : List Char) :
    valueWith size inner (c :: cs) = number? (c :: cs) := by
  unfold valueWith
  split <;> first | rfl | skip
  all_goals
    rename_i heq
    cases heq
    exact absurd hc (by decide)

/-- A whole number of 64 bits is read off its digits. -/
theorem reads_nat {n : Nat} (hn : n < UInt64.size) :
    Reads (valueWith size inner) (nat n) (toString n).toList := by
  obtain ⟨c, ds, hds⟩ := List.exists_cons_of_ne_nil (Nat.toDigits_ne_nil (n := n) (b := 10))
  have htext : (toString n).toList = c :: ds := hds ▸ Nat.toList_repr
  have hdigit : c.isDigit = true :=
    Nat.isDigit_of_mem_toDigits (b := 10) (n := n) (by omega) (by omega)
      (hds ▸ List.mem_cons_self)
  refine ⟨⟨c, ds, htext, ?_, ?_⟩, fun rest hrest => ?_⟩
  · rw [isJsonBlank]
    by_contra h
    simp only [Bool.not_eq_false, Bool.or_eq_true, beq_iff_eq] at h
    rcases h with ((rfl | rfl) | rfl) | rfl <;> exact absurd hdigit (by decide)
  · rintro rfl
    exact absurd hdigit (by decide)
  · rw [← number?_toString hn hrest, htext, List.cons_append, valueWith_digit hdigit]

/-- A string is read off its quoted text. -/
theorem reads_str (s : String) : Reads (valueWith size inner) (str s) (quote s).toList := by
  refine ⟨⟨'"', _, toList_quote s, by decide, by decide⟩, fun rest _ => ?_⟩
  rw [toList_quote, List.cons_append, List.append_assoc]
  simp [valueWith, stringBody_quote]

/-- A list is read off its text when its items are. -/
theorem reads_arr (hl : l.Blank) (level : Nat) {items : List Json} {parts : List (List Char)}
    (h : List.Forall₂ (Reads inner) items parts) (hsize : items.length ≤ size) :
    Reads (valueWith size inner) (arr items) (l.enclose '[' ']' level parts) := by
  cases h with
  | nil => exact ⟨⟨'[', _, rfl, by decide, by decide⟩, fun rest _ => rfl⟩
  | @cons v part items parts hv hitems =>
    refine ⟨⟨'[', _, rfl, by decide, by decide⟩, fun rest _ => ?_⟩
    obtain ⟨c, text, hpart, hblank, hclose⟩ := hv.head
    have hskip := hv.skipBlanks (hl.gap (level + 1)) (l.further level ']' parts rest)
    rw [Layout.enclose_append, valueWith, hskip,
      itemsWith_spelled hl hitems hv (Nat.lt_of_succ_le hsize) [] rest]
    rw [hpart, List.cons_append]
    simp [hclose]

/-- An object is read off its text when its members are. -/
theorem reads_obj (hl : l.Blank) (level : Nat) {members : List (String × Json)}
    {parts : List (List Char)} (h : List.Forall₂ (ReadsMember l inner) members parts)
    (hsize : members.length ≤ size) :
    Reads (valueWith size inner) (obj members) (l.enclose '\x7b' '\x7d' level parts) := by
  cases h with
  | nil => exact ⟨⟨'\x7b', _, rfl, by decide, by decide⟩, fun rest _ => rfl⟩
  | @cons member part members parts hm hmembers =>
    refine ⟨⟨'\x7b', _, rfl, by decide, by decide⟩, fun rest _ => ?_⟩
    obtain ⟨spelled, hv, hpart⟩ := hm.value
    have hread : membersWith inner size []
        (l.gap (level + 1) ++ (part ++ l.further level '\x7d' parts rest)) =
          some (member :: members, rest) :=
      membersWith_spelled hl hmembers hm (Nat.lt_of_succ_le hsize) [] rest
    rw [Layout.enclose_append, valueWith, hread, hpart, List.append_assoc,
      skipBlanks_quote (hl.gap (level + 1))]
    rfl

/-- What has no parts is read at the limit as well. -/
theorem reads_leaf {v : Json} {text : List Char} (hv : v.depth = 0)
    (h : ∀ inner, Reads (valueWith size inner) v text) (limit : Nat) :
    Reads (valueWithin size limit) v text := by
  cases limit with
  | zero =>
    have hread := h (value size size)
    refine ⟨hread.head, fun rest hrest => ?_⟩
    rw [valueWithin, closed, value, hread.read rest hrest]
    cases v with
    | arr items => cases hv
    | obj members => cases hv
    | _ => rfl
  | succ limit => exact h _

mutual

/-- **A value is read off its text**, in whatever layout it is written, when it keeps to the limit
of the reader. -/
theorem reads_spell (hl : l.Blank) : (v : Json) → {limit level : Nat} → v.Fits → v.Regular →
    v.depth ≤ limit → (l.spell level v).length ≤ size →
      Reads (valueWithin size limit) v (l.spell level v)
  | null, limit, _, _, _, _, _ =>
    reads_leaf rfl (fun _ => ⟨⟨'n', _, rfl, by decide, by decide⟩, fun _ _ => rfl⟩) limit
  | bool true, limit, _, _, _, _, _ =>
    reads_leaf rfl (fun _ => ⟨⟨'t', _, rfl, by decide, by decide⟩, fun _ _ => rfl⟩) limit
  | bool false, limit, _, _, _, _, _ =>
    reads_leaf rfl (fun _ => ⟨⟨'f', _, rfl, by decide, by decide⟩, fun _ _ => rfl⟩) limit
  | nat _, limit, _, hfits, _, _, _ => reads_leaf rfl (fun _ => reads_nat hfits) limit
  | verbatim _, _, _, _, hregular, _, _ => hregular.elim
  | str s, limit, _, _, _, _, _ => reads_leaf rfl (fun _ => reads_str s) limit
  | arr items, limit + 1, level, hfits, hregular, hdepth, hlength => by
    have hparts : List.Forall₂ (Reads (valueWithin size limit)) items
        (l.spellItems (level + 1) items) :=
      reads_spellItems hl items hfits.2 hregular.2 (Nat.le_of_succ_le_succ hdepth)
        fun part hpart => Nat.le_trans (Nat.le_of_lt (l.length_part_lt _ _ level hpart)) hlength
    refine reads_arr hl level hparts ?_
    rw [hparts.length_eq]
    exact Nat.le_trans (Nat.le_of_lt (l.length_lt_length_enclose _ _ level _)) hlength
  | obj members, limit + 1, level, hfits, hregular, hdepth, hlength => by
    have hparts : List.Forall₂ (ReadsMember l (valueWithin size limit)) members
        (l.spellMembers (level + 1) members) :=
      reads_spellMembers hl members hfits.2 hregular.2 (Nat.le_of_succ_le_succ hdepth)
        fun part hpart => Nat.le_trans (Nat.le_of_lt (l.length_part_lt _ _ level hpart)) hlength
    refine reads_obj hl level hparts ?_
    rw [hparts.length_eq]
    exact Nat.le_trans (Nat.le_of_lt (l.length_lt_length_enclose _ _ level _)) hlength

theorem reads_spellItems (hl : l.Blank) : (items : List Json) → {limit level : Nat} →
    AllItems (fun | nat n => n < UInt64.size | _ => True) items →
    AllItems (fun | verbatim _ => False | _ => True) items →
    depthOfItems items ≤ limit → (∀ part ∈ l.spellItems level items, part.length ≤ size) →
    List.Forall₂ (Reads (valueWithin size limit)) items (l.spellItems level items)
  | [], _, _, _, _, _, _ => .nil
  | v :: rest, _, level, hfits, hregular, hdepth, hlength => by
    rw [depthOfItems, Nat.max_le] at hdepth
    rw [Layout.spellItems, List.forall_mem_cons] at hlength
    exact .cons (reads_spell hl v hfits.1 hregular.1 hdepth.1 hlength.1)
      (reads_spellItems hl rest hfits.2 hregular.2 hdepth.2 hlength.2)

theorem reads_spellMembers (hl : l.Blank) : (members : List (String × Json)) →
    {limit level : Nat} → AllMembers (fun | nat n => n < UInt64.size | _ => True) members →
    AllMembers (fun | verbatim _ => False | _ => True) members →
    depthOfMembers members ≤ limit → (∀ part ∈ l.spellMembers level members, part.length ≤ size) →
    List.Forall₂ (ReadsMember l (valueWithin size limit)) members (l.spellMembers level members)
  | [], _, _, _, _, _, _ => .nil
  | (name, v) :: rest, _, level, hfits, hregular, hdepth, hlength => by
    rw [depthOfMembers, Nat.max_le] at hdepth
    rw [Layout.spellMembers, List.forall_mem_cons] at hlength
    have hpart := hlength.1
    simp only [List.length_append, List.length_cons] at hpart
    exact .cons ⟨_, reads_spell hl v hfits.1 hregular.1 hdepth.1 (by omega), rfl⟩
      (reads_spellMembers hl rest hfits.2 hregular.2 hdepth.2 hlength.2)

end

variable {v : Json} {limit : Option Nat}

/-- **A written value is read back**, in whatever layout and with blanks behind it, by a reader with
no limit or one that the value keeps to. -/
theorem read?_spell (hl : l.Blank) (hfits : v.Fits) (hregular : v.Regular)
    (hlimit : ∀ n ∈ limit, v.depth ≤ n) {text : String} {blanks : List Char}
    (hblanks : ∀ c ∈ blanks, isJsonBlank c = true)
    (htext : text.toList = l.spell 0 v ++ blanks) : read? limit text = some v := by
  have hlength : (l.spell 0 v).length ≤ text.toList.length := by
    rw [htext, List.length_append]
    exact Nat.le_add_right _ _
  have hdepth : v.depth ≤ limit.getD text.toList.length := by
    cases limit with
    | none => exact (l.depth_le_length_spell 0 v).trans hlength
    | some n => exact hlimit n rfl
  have hreads : Reads (valueWithin text.toList.length (limit.getD text.toList.length)) v
      (l.spell 0 v) :=
    reads_spell hl v hfits hregular hdepth hlength
  have hskip : skipBlanks text.toList = text.toList := by
    obtain ⟨c, rest, hhead, hblank, -⟩ := hreads.head
    rw [htext, hhead, List.cons_append, skipBlanks_cons hblank]
  have hends : Ends blanks := by
    cases blanks with
    | nil => exact ends_nil
    | cons c rest => exact ends_of_blank (hblanks c List.mem_cons_self) rest
  have hread := hreads.read blanks hends
  rw [← htext] at hread
  have hrest : skipBlanks (blanks ++ []) = [] := skipBlanks_append hblanks (by simp)
  rw [List.append_nil] at hrest
  rw [read?]
  simp only [hskip, hread, hrest]
  rfl

theorem Layout.blank_tight : Layout.tight.Blank :=
  ⟨fun _ _ hc => by simp [tight] at hc, fun _ hc => by simp [tight] at hc⟩

theorem Layout.blank_spaced : Layout.spaced.Blank := by
  refine ⟨fun level c hc => ?_, fun c hc => ?_⟩
  · rcases List.mem_cons.mp hc with rfl | hc
    · decide
    · rw [List.eq_of_mem_replicate hc]
      decide
  · rw [List.mem_singleton.mp hc]
    decide

/-- **The compact text** of a value is read back. -/
theorem read?_compact (hfits : v.Fits) (hregular : v.Regular)
    (hlimit : ∀ n ∈ limit, v.depth ≤ n) : read? limit v.compact = some v :=
  read?_spell Layout.blank_tight hfits hregular hlimit (List.forall_mem_nil _)
    ((toList_compact 0 v).trans (List.append_nil _).symm)

/-- **The text with a line for each part** is read back. -/
theorem read?_pretty (hfits : v.Fits) (hregular : v.Regular)
    (hlimit : ∀ n ∈ limit, v.depth ≤ n) : read? limit v.pretty = some v :=
  read?_spell Layout.blank_spaced hfits hregular hlimit (List.forall_mem_nil _)
    ((toList_pretty v).trans (List.append_nil _).symm)

end Values

end GoAtlas.Json
