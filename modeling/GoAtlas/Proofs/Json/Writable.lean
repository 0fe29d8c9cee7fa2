import GoAtlas.Json.Reader
import Mathlib.Data.List.Basic

/-!
# Values that can be written

Not every value can be written so that it is read back. Its numbers have to be whole numbers of 64
bits (`Fits`), and no part of it may be kept as its text only (`Regular`). Both say something of a
value and of all values inside it (`All`). A reader that has a limit must not be led beyond it.
Whatever is read from a text fits (`read?_fits`), and keeps to the limit of its reader
(`read?_depth`).
-/

namespace GoAtlas.Json

section All

variable {p : Json → Prop}

mutual

/-- A property of a value and of all values inside it. -/
def All (p : Json → Prop) : Json → Prop
  | arr items => p (arr items) ∧ AllItems p items
  | obj members => p (obj members) ∧ AllMembers p members
  | v => p v

/-- A property of some values and of all values inside them. -/
def AllItems (p : Json → Prop) : List Json → Prop
  | [] => True
  | v :: rest => v.All p ∧ AllItems p rest

/-- A property of the values of some members and of all values inside them. -/
def AllMembers (p : Json → Prop) : List (String × Json) → Prop
  | [] => True
  | (_, v) :: rest => v.All p ∧ AllMembers p rest

end

/-- The recursion through lists says no more than membership does. -/
theorem allItems_iff {items : List Json} : AllItems p items ↔ ∀ v ∈ items, v.All p := by
  induction items with
  | nil => simp [AllItems]
  | cons v rest ih => rw [AllItems, ih, List.forall_mem_cons]

theorem allMembers_iff {members : List (String × Json)} :
    AllMembers p members ↔ ∀ m ∈ members, m.2.All p := by
  induction members with
  | nil => simp [AllMembers]
  | cons m rest ih => rw [AllMembers, ih, List.forall_mem_cons]

end All

/-- The whole numbers in a value are numbers of 64 bits. -/
def Fits (v : Json) : Prop :=
  v.All fun
    | nat n => n < UInt64.size
    | _ => True

/-- A value has no part that is only kept as its text. -/
def Regular (v : Json) : Prop :=
  v.All fun
    | verbatim _ => False
    | _ => True

/-! ## Laws

Both properties are about leaves, and pass through lists and objects. The laws are in the simp set,
so that what an encoder gives is reduced to its numbers. -/

section Laws

variable {items : List Json} {members : List (String × Json)}

@[simp] theorem fits_null : null.Fits := trivial

@[simp] theorem fits_bool (b : Bool) : (bool b).Fits := trivial

@[simp] theorem fits_str (s : String) : (str s).Fits := trivial

@[simp] theorem fits_nat {n : Nat} : (nat n).Fits ↔ n < UInt64.size := Iff.rfl

/-- A list has numbers of 64 bits only when its items have; with the law of objects this leaves
`Fits` to the numbers. -/
@[simp] theorem fits_arr : (arr items).Fits ↔ ∀ v ∈ items, v.Fits := by
  simp [Fits, All, allItems_iff]

@[simp] theorem fits_obj : (obj members).Fits ↔ ∀ m ∈ members, m.2.Fits := by
  simp [Fits, All, allMembers_iff]

/-- A tag has no numbers. -/
@[simp] theorem fits_tagged {tag : String} {v : Json} : (tagged tag v).Fits ↔ v.Fits := by
  simp [tagged]

@[simp] theorem fits_ofOption_str (text : Option String) : (ofOption str text).Fits := by
  cases text <;> trivial

/-- A list of encoded values fits when each of them does. -/
theorem fits_ofList_iff {α : Type} {encode : α → Json} {as : List α} :
    (ofList encode as).Fits ↔ ∀ a ∈ as, (encode a).Fits := by
  rw [ofList, fits_arr, List.forall_mem_map]

@[simp] theorem fits_ofList {α : Type} {encode : α → Json} (h : ∀ a, (encode a).Fits)
    (as : List α) : (ofList encode as).Fits :=
  fits_ofList_iff.mpr fun a _ => h a

@[simp] theorem regular_null : null.Regular := trivial

@[simp] theorem regular_bool (b : Bool) : (bool b).Regular := trivial

@[simp] theorem regular_str (s : String) : (str s).Regular := trivial

@[simp] theorem regular_nat (n : Nat) : (nat n).Regular := trivial

/-- What is written of a list is regular when all its items are. -/
@[simp] theorem regular_arr : (arr items).Regular ↔ ∀ v ∈ items, v.Regular := by
  simp [Regular, All, allItems_iff]

@[simp] theorem regular_obj : (obj members).Regular ↔ ∀ m ∈ members, m.2.Regular := by
  simp [Regular, All, allMembers_iff]

/-- A list of values is as deep as the deepest of them. -/
@[simp] theorem depthOfItems_le_iff {n : Nat} : depthOfItems items ≤ n ↔ ∀ v ∈ items, v.depth ≤ n := by
  induction items with
  | nil => simp [depthOfItems]
  | cons v rest ih => rw [depthOfItems, Nat.max_le, ih, List.forall_mem_cons]

@[simp] theorem depthOfMembers_le_iff {n : Nat} :
    depthOfMembers members ≤ n ↔ ∀ m ∈ members, m.2.depth ≤ n := by
  induction members with
  | nil => simp [depthOfMembers]
  | cons m rest ih => rw [depthOfMembers, Nat.max_le, ih, List.forall_mem_cons]

end Laws

/-! ## Whatever is read

A reader gives values with a property when the readers of their parts give parts with one. This is
used twice: for the numbers in a value, and for its depth. -/

section Reading

variable {inner : List Char → Option (Json × List Char)} {cs rest : List Char} {p q : Json → Prop}

/-- Whatever a reader reads has a property. -/
def Gives (inner : List Char → Option (Json × List Char)) (p : Json → Prop) : Prop :=
  ∀ {cs v rest}, inner cs = some (v, rest) → p v

/-- A number has no parts, and fits. -/
theorem number?_leaf {v : Json} (h : number? cs = some (v, rest)) : v.depth = 0 ∧ v.Fits := by
  simp only [number?, Option.bind_eq_bind, Option.bind_eq_some_iff, Option.pure_def] at h
  obtain ⟨⟨whole, after⟩, -, ⟨fraction, after'⟩, -, ⟨exponent, after''⟩, -, h⟩ := h
  split_ifs at h with hwhole
  · obtain ⟨rfl, -⟩ := Prod.mk.inj (Option.some.inj h)
    simp only [Bool.and_eq_true, decide_eq_true_eq] at hwhole
    exact ⟨rfl, hwhole.2⟩
  · obtain ⟨rfl, -⟩ := Prod.mk.inj (Option.some.inj h)
    exact ⟨rfl, trivial⟩

/-- The items of a list have what its reader of values gives. The induction is on the bound, with
the items already read carried along. -/
theorem itemsWith_gives (hinner : Gives inner p) {fuel : Nat} {found items : List Json}
    (hfound : ∀ v ∈ found, p v) (h : itemsWith inner fuel found cs = some (items, rest)) :
    ∀ v ∈ items, p v := by
  induction fuel generalizing found cs with
  | zero => simp [itemsWith] at h
  | succ fuel ih =>
    simp only [itemsWith, Option.bind_eq_bind, Option.bind_eq_some_iff] at h
    obtain ⟨⟨v, after⟩, hv, h⟩ := h
    have hmore : ∀ w ∈ v :: found, p w := List.forall_mem_cons.mpr ⟨hinner hv, hfound⟩
    split at h
    · exact ih hmore h
    · obtain ⟨rfl, -⟩ := Prod.mk.inj (Option.some.inj h)
      exact fun w hw => hmore w (List.mem_reverse.mp hw)
    · cases h

/-- The values of an object have what its reader of values gives, by the same induction. -/
theorem membersWith_gives (hinner : Gives inner p) {fuel : Nat}
    {found members : List (String × Json)} (hfound : ∀ m ∈ found, p m.2)
    (h : membersWith inner fuel found cs = some (members, rest)) : ∀ m ∈ members, p m.2 := by
  induction fuel generalizing found cs with
  | zero => simp [membersWith] at h
  | succ fuel ih =>
    simp only [membersWith, Option.bind_eq_bind] at h
    split at h
    · obtain ⟨⟨name, after⟩, -, h⟩ := Option.bind_eq_some_iff.mp h
      split at h
      · obtain ⟨⟨v, after⟩, hv, h⟩ := Option.bind_eq_some_iff.mp h
        have hmore : ∀ m ∈ (String.ofList name, v) :: found, p m.2 :=
          List.forall_mem_cons.mpr ⟨hinner hv, hfound⟩
        split at h
        · exact ih hmore h
        · obtain ⟨rfl, -⟩ := Prod.mk.inj (Option.some.inj h)
          exact fun m hm => hmore m (List.mem_reverse.mp hm)
        · cases h
      · cases h
    · cases h

/-- **One level of reading.** The values have a property that leaves have, and lists and objects
whose parts are as the inner reader gives them. -/
theorem valueWith_gives (hinner : Gives inner p) (size : Nat)
    (hleaf : ∀ v : Json, v.depth = 0 → v.Fits → q v)
    (harr : ∀ items, (∀ v ∈ items, p v) → q (arr items))
    (hobj : ∀ members, (∀ m ∈ members, p m.2) → q (obj members)) :
    Gives (valueWith size inner) q := by
  intro cs v rest h
  unfold valueWith at h
  split at h
  · obtain ⟨⟨s, after⟩, -, heq⟩ := Option.map_eq_some_iff.mp h
    cases heq
    exact hleaf _ rfl trivial
  · split at h
    · cases h
      exact harr [] (List.forall_mem_nil _)
    · obtain ⟨⟨items, after⟩, hitems, heq⟩ := Option.map_eq_some_iff.mp h
      cases heq
      exact harr items (itemsWith_gives hinner (List.forall_mem_nil _) hitems)
  · split at h
    · cases h
      exact hobj [] (List.forall_mem_nil _)
    · obtain ⟨⟨members, after⟩, hmembers, heq⟩ := Option.map_eq_some_iff.mp h
      cases heq
      exact hobj members (membersWith_gives hinner (List.forall_mem_nil _) hmembers)
  · obtain ⟨after, -, heq⟩ := Option.map_eq_some_iff.mp h
    cases heq
    exact hleaf _ rfl trivial
  · obtain ⟨after, -, heq⟩ := Option.map_eq_some_iff.mp h
    cases heq
    exact hleaf _ rfl trivial
  · obtain ⟨after, -, heq⟩ := Option.map_eq_some_iff.mp h
    cases heq
    exact hleaf _ rfl trivial
  · exact hleaf v (number?_leaf h).1 (number?_leaf h).2

/-- What is read and kept as its text when it has parts is a leaf, and fits when what is read does.
-/
theorem closed_gives (hinner : Gives inner Fits) :
    Gives (closed inner) fun v => v.depth = 0 ∧ v.Fits := by
  intro cs v rest h
  rw [closed] at h
  split at h
  · cases h
    exact ⟨rfl, trivial⟩
  · cases h
    exact ⟨rfl, trivial⟩
  · rename_i result harr hobj
    refine ⟨?_, hinner h⟩
    cases v with
    | arr items => exact absurd h (harr items rest)
    | obj members => exact absurd h (hobj members rest)
    | _ => rfl

/-- A number is read as a whole number only if it has 64 bits, and all else has no numbers. -/
theorem valueWith_fits (hinner : Gives inner Fits) (size : Nat) :
    Gives (valueWith size inner) Fits :=
  valueWith_gives hinner size (fun _ _ h => h) (fun _ => fits_arr.mpr) fun _ => fits_obj.mpr

theorem value_fits (size fuel : Nat) : Gives (value size fuel) Fits := by
  induction fuel with
  | zero => exact nofun
  | succ fuel ih => exact valueWith_fits ih size

/-- The limit adds nothing but text, which has no numbers. -/
theorem valueWithin_fits (size limit : Nat) : Gives (valueWithin size limit) Fits := by
  induction limit with
  | zero => exact fun h => (closed_gives (value_fits _ _) h).2
  | succ limit ih => exact valueWith_fits ih size

/-- **A reader with a limit** reads nothing that is deeper. -/
theorem valueWithin_depth (size limit : Nat) :
    Gives (valueWithin size limit) fun v => v.depth ≤ limit := by
  induction limit with
  | zero => exact fun h => Nat.le_of_eq (closed_gives (value_fits _ _) h).1
  | succ limit ih =>
    refine valueWith_gives ih size (fun v hv _ => hv ▸ Nat.zero_le _) (fun items h => ?_)
      fun members h => ?_
    · exact Nat.succ_le_succ (depthOfItems_le_iff.mpr h)
    · exact Nat.succ_le_succ (depthOfMembers_le_iff.mpr h)

/-- What is read from a text is what the reader of values reads. -/
theorem exists_of_read? {limit : Option Nat} {text : String} {v : Json}
    (h : read? limit text = some v) :
    ∃ cs rest, valueWithin text.toList.length (limit.getD text.toList.length) cs = some (v, rest) := by
  rw [read?] at h
  split at h
  · rename_i w rest hw
    split_ifs at h
    obtain rfl : w = v := Option.some.inj h
    exact ⟨_, rest, hw⟩
  · cases h

/-- **Whatever is read from a text** fits. -/
theorem read?_fits {limit : Option Nat} {text : String} {v : Json}
    (h : read? limit text = some v) : v.Fits := by
  obtain ⟨cs, rest, h⟩ := exists_of_read? h
  exact valueWithin_fits _ _ h

/-- Whatever is read from a text keeps to the limit of the reader. -/
theorem read?_depth {limit : Option Nat} {text : String} {v : Json}
    (h : read? limit text = some v) : ∀ n ∈ limit, v.depth ≤ n := by
  rintro n rfl
  obtain ⟨cs, rest, h⟩ := exists_of_read? h
  exact valueWithin_depth _ _ h

end Reading

end GoAtlas.Json
