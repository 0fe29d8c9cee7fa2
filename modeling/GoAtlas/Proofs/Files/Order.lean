import GoAtlas.Files.Scan
import Mathlib.Data.List.Lex
import Mathlib.Data.Prod.Lex
import Mathlib.Data.String.Basic

/-!
# The order of paths

Components are ordered by their kinds, and names by their texts, which makes a linear order of keys
(`PathComponent.before_iff`). Paths are ordered as the lists of their keys (`Path.le_iff`), so two
paths that neither comes before the other have the same components.

What is found is put in this order before repeats are left out. So no two paths that are left have
the same components, although only neighbours are compared, and every path that was found is left
under some spelling (`Scan.IsSettled`).
-/

namespace GoAtlas

namespace PathComponent

variable {a b : PathComponent}

/-- What decides about the order of components: their kind, and for names the text. -/
def key (c : PathComponent) : Nat ×ₗ String :=
  toLex (c.rank, c.text)

/-- One component comes before another as their keys do. -/
theorem before_iff : a.before b = true ↔ a.key < b.key := by
  rw [key, key, Prod.Lex.toLex_lt_toLex, before, Bool.or_eq_true, Bool.and_eq_true, beq_iff_eq,
    decide_eq_true_eq, decide_eq_true_eq]

/-- Different components have different keys, so that nothing is lost by comparing keys. -/
theorem key_injective : Function.Injective key := by
  intro a b h
  have hrank : a.rank = b.rank := congrArg (fun k => (ofLex k).1) h
  have htext : a.text = b.text := congrArg (fun k => (ofLex k).2) h
  cases a <;> cases b
  case name.name => exact congrArg name htext
  all_goals first | rfl | cases hrank

end PathComponent

namespace Path

variable {p q r : String}

/-- What decides about the order of paths. -/
def keys (path : String) : List (Nat ×ₗ String) :=
  (components path).map PathComponent.key

/-- Two paths have the same keys exactly when they have the same components. -/
theorem keys_eq_iff : keys p = keys q ↔ components p = components q :=
  (List.map_injective_iff.mpr PathComponent.key_injective).eq_iff

theorem same_iff : same p q = true ↔ components p = components q := beq_iff_eq

/-- The first component in which two lists differ decides. -/
theorem componentsLe_iff {as bs : List PathComponent} :
    componentsLe as bs = true ↔ as.map PathComponent.key ≤ bs.map PathComponent.key := by
  induction as generalizing bs with
  | nil =>
    have hnil : [] ≤ bs.map PathComponent.key := not_lt.mp (List.not_lt_nil _)
    simp only [componentsLe, List.map_nil, hnil]
  | cons a as ih =>
    cases bs with
    | nil =>
      have hcons : ¬ (a :: as).map PathComponent.key ≤ [] := not_le.mpr (List.nil_lt_cons _ _)
      simp only [componentsLe, List.map_nil, hcons, Bool.false_eq_true]
    | cons b bs =>
      rw [List.map_cons, List.map_cons, le_iff_lt_or_eq, List.cons_lt_cons_iff, List.cons.injEq,
        componentsLe]
      by_cases hab : a = b
      · subst hab
        rw [if_pos rfl, ih, le_iff_lt_or_eq]
        simp only [lt_irrefl, true_and, false_or]
      · have hkey : a.key ≠ b.key := fun h => hab (PathComponent.key_injective h)
        rw [if_neg hab, PathComponent.before_iff]
        simp only [hkey, false_and, or_false]

/-- The order of paths is the lexicographic order of their keys. -/
theorem le_iff : le p q = true ↔ keys p ≤ keys q := componentsLe_iff

theorem trans_le (hpq : le p q = true) (hqr : le q r = true) : le p r = true := by
  rw [le_iff] at hpq hqr ⊢
  exact hpq.trans hqr

theorem total_le (p q : String) : (le p q || le q p) = true := by
  rw [Bool.or_eq_true, le_iff, le_iff]
  exact le_total _ _

end Path

namespace Scan

open GoAtlas.Path (components keys keys_eq_iff same_iff)

variable {walker : Walker} {fs : FileSystem} {includeTests : Bool} {paths found gathered : List String}
  {p previous : String}

/-- Only dropping is done, and nothing is moved. -/
theorem dropSame_sublist (previous : String) (l : List String) :
    (withoutRepeats.dropSame previous l).Sublist l := by
  induction l generalizing previous with
  | nil => exact List.Sublist.slnil
  | cons path rest ih =>
    rw [withoutRepeats.dropSame]
    split
    · exact (ih previous).cons path
    · exact (ih path).cons_cons path

/-- In a list that is in order, the paths with the components of the one in front stand first. -/
theorem pairwise_dropSame {l : List String} (hsorted : l.Pairwise fun p q => keys p ≤ keys q)
    (hfirst : ∀ p ∈ l, keys previous ≤ keys p) :
    (previous :: withoutRepeats.dropSame previous l).Pairwise fun p q => keys p < keys q := by
  induction l generalizing previous with
  | nil => exact List.pairwise_singleton _ _
  | cons path rest ih =>
    obtain ⟨hpath, hrest⟩ := List.pairwise_cons.mp hsorted
    rw [withoutRepeats.dropSame]
    split
    · exact ih hrest fun p hp => hfirst p (List.mem_cons_of_mem path hp)
    · -- the path stays, and the paths behind it are compared with it from now on
      rename_i hsame
      have hlt : keys previous < keys path := by
        refine lt_of_le_of_ne (hfirst path List.mem_cons_self) ?_
        rwa [ne_eq, keys_eq_iff, ← same_iff]
      have hpairwise := ih hrest hpath
      refine List.pairwise_cons.mpr ⟨?_, hpairwise⟩
      intro p hp
      rcases List.mem_cons.mp hp with rfl | hp
      · exact hlt
      · exact hlt.trans ((List.pairwise_cons.mp hpairwise).1 p hp)

/-- A path that is left out has the components of one that stays. -/
theorem exists_mem_dropSame {l : List String} (h : p ∈ l) :
    ∃ q ∈ previous :: withoutRepeats.dropSame previous l, components q = components p := by
  induction l generalizing previous with
  | nil => cases h
  | cons path rest ih =>
    rw [withoutRepeats.dropSame]
    split
    · rename_i hsame
      rcases List.mem_cons.mp h with rfl | h
      · exact ⟨previous, List.mem_cons_self, same_iff.mp hsame⟩
      · exact ih h
    · rcases List.mem_cons.mp h with rfl | h
      · exact ⟨p, List.mem_cons_of_mem _ List.mem_cons_self, rfl⟩
      · obtain ⟨q, hq, hqp⟩ : ∃ q ∈ path :: withoutRepeats.dropSame path rest,
            components q = components p := ih h
        exact ⟨q, List.mem_cons_of_mem _ hq, hqp⟩

/-- What is sorted is in the order of the keys. -/
theorem pairwise_mergeSort (l : List String) :
    (l.mergeSort Path.le).Pairwise fun p q => keys p ≤ keys q := by
  have hle : (l.mergeSort Path.le).Pairwise fun p q => Path.le p q = true := by
    apply List.pairwise_mergeSort
    · intro p q r hpq hqr
      exact Path.trans_le hpq hqr
    · exact Path.total_le
  exact hle.imp fun h => Path.le_iff.mp h

/-- What is left of some paths: they are in order, so no two have the same components, and the
components of each path are those of one that is left. -/
structure IsSettled (gathered found : List String) : Prop where
  ordered : found.Pairwise fun p q => keys p < keys q
  subset : ∀ p ∈ found, p ∈ gathered
  complete : ∀ p ∈ gathered, ∃ q ∈ found, components q = components p

/-- **Dropping neighbours is enough** when a list is sorted: the paths with the same components
stand beside each other. -/
theorem isSettled_withoutRepeats {l : List String}
    (hsorted : l.Pairwise fun p q => keys p ≤ keys q) : IsSettled l (withoutRepeats l) := by
  cases l with
  | nil => exact ⟨List.Pairwise.nil, nofun, nofun⟩
  | cons path rest =>
    obtain ⟨hpath, hrest⟩ := List.pairwise_cons.mp hsorted
    refine ⟨pairwise_dropSame hrest hpath, ?_, ?_⟩
    · exact fun p hp => ((dropSame_sublist path rest).cons_cons path).subset hp
    · intro p hp
      rcases List.mem_cons.mp hp with rfl | hp
      · exact ⟨p, List.mem_cons_self, rfl⟩
      · exact exists_mem_dropSame hp

theorem filesBy_of_gather {sorted : List String}
    (hgather : gather walker fs includeTests paths = .ok gathered)
    (hsorted : gathered.mergeSort Path.le = sorted) :
    filesBy walker fs includeTests paths = .ok (withoutRepeats sorted) := by
  rw [filesBy, hgather, ← hsorted]
  rfl

/-- **What is found is settled**: put in order and without repeats. -/
theorem isSettled_of_filesBy (h : filesBy walker fs includeTests paths = .ok found) :
    ∃ gathered, gather walker fs includeTests paths = .ok gathered ∧ IsSettled gathered found := by
  cases hgather : gather walker fs includeTests paths with
  | error path =>
    rw [filesBy, hgather] at h
    cases h
  | ok gathered =>
    have hfound : withoutRepeats (gathered.mergeSort Path.le) = found :=
      Except.ok.inj ((filesBy_of_gather hgather rfl).symm.trans h)
    obtain ⟨hordered, hsubset, hcomplete⟩ := isSettled_withoutRepeats (pairwise_mergeSort gathered)
    rw [hfound] at hordered hsubset hcomplete
    refine ⟨gathered, rfl, hordered, fun p hp => ?_, fun p hp => ?_⟩
    · exact List.mem_mergeSort.mp (hsubset p hp)
    · exact hcomplete p (List.mem_mergeSort.mpr hp)

end Scan

end GoAtlas
