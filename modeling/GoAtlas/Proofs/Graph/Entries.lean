import GoAtlas.Proofs.Graph.Walk
import Mathlib.Data.List.Perm.Basic

/-!
# The nodes that a search enters

The two searches for a closed walk go along a path in the same way, and differ in when they mark a
node (`Marking`). `Search` is such a search without a bound on its steps and with a record of the
nodes that it enters.

Whenever a node is marked, it is not entered again from the moment it is entered: until it is left
it is on the path or marked, and then it is marked (`Marking.mem_known_enter`,
`Marking.mem_known_leave`). So no node is entered twice (`Search.nodup`), each search in a finite
graph comes to an end (`exists_search`), and a bound on the steps that leaves room for the nodes
entered changes nothing (`Search.foldl_attempt_eq`, `Search.foldl_attemptOn_eq`).
-/

namespace GoAtlas.Walk

variable {α : Type}

/-! ## Marks -/

/-- When a search marks a node: on entering it, or on leaving it again after a search in vain. -/
inductive Marking where
  | onEntry
  | onLeaving

namespace Marking

variable {m : Marking} {path marks : List α} {s x : α}

/-- The nodes that are not entered: those that are marked and, if nodes are marked late, those on
the path. -/
def known : Marking → List α → List α → List α
  | onEntry, _, marks => marks
  | onLeaving, path, marks => marks ++ path

/-- The marks with which a search goes on from a node that it enters. -/
def enter : Marking → List α → α → List α
  | onEntry, marks, s => s :: marks
  | onLeaving, marks, _ => marks

/-- The marks with which a search goes on after a node that it leaves. -/
def leave : Marking → List α → α → List α
  | onEntry, marks, _ => marks
  | onLeaving, marks, s => s :: marks

theorem mem_known_enter :
    x ∈ m.known (path ++ [s]) (m.enter marks s) ↔ x = s ∨ x ∈ m.known path marks := by
  cases m
  · exact List.mem_cons
  · simp only [known, enter, List.mem_append, List.mem_singleton]
    tauto

theorem mem_known_leave :
    x ∈ m.known path (m.leave marks s) ↔ x ∈ m.known (path ++ [s]) marks := by
  cases m
  · exact Iff.rfl
  · simp only [known, leave, List.mem_append, List.mem_cons, List.not_mem_nil, or_false]
    tauto

end Marking

/-! ## Searches without a bound -/

/-- Goes on to `start` from the last node of a path, with the nodes that are marked and the
successors of the last node that are still to be tried: the nodes that are entered on the way, in
order, and what the search leaves. -/
inductive Search (next : α → List α) (start : α) (m : Marking) :
    List α → List α → List α → List α → Outcome α → Prop
  | spent {path marks : List α} : Search next start m path marks [] [] (.spent marks)
  | back {path marks rest : List α} :
      Search next start m path marks (start :: rest) [] (.closed (path ++ [start]))
  | skip {path marks rest log : List α} {s : α} {o : Outcome α} : s ≠ start →
      s ∈ m.known path marks → Search next start m path marks rest log o →
      Search next start m path marks (s :: rest) log o
  -- a walk is found from `s`: the other successors are not tried
  | found {path marks rest log walk : List α} {s : α} : s ≠ start → s ∉ m.known path marks →
      Search next start m (path ++ [s]) (m.enter marks s) (next s) log (.closed walk) →
      Search next start m path marks (s :: rest) (s :: log) (.closed walk)
  -- the search from `s` is in vain: the other successors are tried with the marks that it leaves
  | vain {path marks rest log others left : List α} {s : α} {o : Outcome α} : s ≠ start →
      s ∉ m.known path marks →
      Search next start m (path ++ [s]) (m.enter marks s) (next s) log (.spent left) →
      Search next start m path (m.leave left s) rest others o →
      Search next start m path marks (s :: rest) (s :: (log ++ others)) o

variable {next : α → List α} {start : α} {m : Marking}
  {path marks succs log others left nodes : List α} {o p : Outcome α}

/-- **After a search in vain** the nodes that it has entered are known, and no others than before.
-/
theorem Search.mem_known_iff (h : Search next start m path marks succs log (.spent left)) {x : α} :
    x ∈ m.known path left ↔ x ∈ m.known path marks ∨ x ∈ log := by
  generalize ho : Outcome.spent left = o at h
  induction h generalizing left with
  | spent =>
    obtain rfl := Outcome.spent.inj ho
    simp
  | back => cases ho
  | skip _ _ _ ih => exact ih ho
  | found => cases ho
  | vain _ _ _ _ ih ihrest =>
    rw [ihrest ho, Marking.mem_known_leave, ih rfl, Marking.mem_known_enter, List.mem_cons,
      List.mem_append]
    tauto

/-- What is entered is not known and is not `start`. -/
theorem Search.fresh (h : Search next start m path marks succs log o) :
    ∀ x ∈ log, x ≠ start ∧ x ∉ m.known path marks := by
  induction h with
  | spent | back => exact fun _ hx => nomatch hx
  | skip _ _ _ ih => exact ih
  | found hs hknown _ ih =>
    refine List.forall_mem_cons.mpr ⟨⟨hs, hknown⟩, fun x hx => ?_⟩
    have hfresh := ih x hx
    rw [Marking.mem_known_enter, not_or] at hfresh
    exact ⟨hfresh.1, hfresh.2.2⟩
  | vain hs hknown hsearch _ ih ihrest =>
    refine List.forall_mem_cons.mpr ⟨⟨hs, hknown⟩, fun x hx => ?_⟩
    rcases List.mem_append.mp hx with hx | hx
    · have hfresh := ih x hx
      rw [Marking.mem_known_enter, not_or] at hfresh
      exact ⟨hfresh.1, hfresh.2.2⟩
    · have hfresh := ihrest x hx
      rw [Marking.mem_known_leave, hsearch.mem_known_iff, Marking.mem_known_enter, not_or,
        not_or] at hfresh
      exact ⟨hfresh.1, hfresh.2.1.2⟩

/-- **No node is entered twice.** -/
theorem Search.nodup (h : Search next start m path marks succs log o) : log.Nodup := by
  induction h with
  | spent | back => exact List.nodup_nil
  | skip _ _ _ ih => exact ih
  | found _ _ hsearch ih =>
    exact List.nodup_cons.mpr
      ⟨fun hin => (hsearch.fresh _ hin).2 (Marking.mem_known_enter.mpr (Or.inl rfl)), ih⟩
  | @vain _ _ _ log others _ s _ _ _ hsearch hrest ih ihrest =>
    -- what is entered later is not known after the search in vain
    have hlater : ∀ x ∈ others, x ≠ s ∧ x ∉ log := by
      intro x hx
      have hfresh := (hrest.fresh x hx).2
      rw [Marking.mem_known_leave, hsearch.mem_known_iff, Marking.mem_known_enter, not_or,
        not_or] at hfresh
      exact ⟨hfresh.1.1, hfresh.2⟩
    refine List.nodup_cons.mpr ⟨fun hin => ?_, List.nodup_append.mpr ⟨ih, ihrest, ?_⟩⟩
    · rcases List.mem_append.mp hin with hin | hin
      · exact (hsearch.fresh s hin).2 (Marking.mem_known_enter.mpr (Or.inl rfl))
      · exact (hlater s hin).1 rfl
    · rintro x hx y hy rfl
      exact (hlater x hy).2 hx

/-- Only successors are entered. -/
theorem Search.subset (hnodes : ∀ x, next x ⊆ nodes)
    (h : Search next start m path marks succs log o) (hsuccs : succs ⊆ nodes) : log ⊆ nodes := by
  induction h with
  | spent | back => exact List.nil_subset _
  | skip _ _ _ ih => exact ih (List.cons_subset.mp hsuccs).2
  | found _ _ _ ih => exact List.cons_subset.mpr ⟨(List.cons_subset.mp hsuccs).1, ih (hnodes _)⟩
  | vain _ _ _ _ ih ihrest =>
    obtain ⟨hs, hrest⟩ := List.cons_subset.mp hsuccs
    exact List.cons_subset.mpr ⟨hs, List.append_subset.mpr ⟨ih (hnodes _), ihrest hrest⟩⟩

/-- There is one search. -/
theorem Search.unique (h : Search next start m path marks succs log o)
    (h' : Search next start m path marks succs others p) : others = log ∧ p = o := by
  induction h generalizing others p with
  | spent =>
    cases h'
    exact ⟨rfl, rfl⟩
  | back =>
    cases h' with
    | back => exact ⟨rfl, rfl⟩
    | skip hs | found hs | vain hs => exact absurd rfl hs
  | skip hs hknown _ ih =>
    cases h' with
    | back => exact absurd rfl hs
    | skip _ _ hrest => exact ih hrest
    | found _ hknown' | vain _ hknown' => exact absurd hknown hknown'
  | found hs hknown _ ih =>
    cases h' with
    | back => exact absurd rfl hs
    | skip _ hknown' => exact absurd hknown' hknown
    | found _ _ hsearch =>
      obtain ⟨rfl, hwalk⟩ := ih hsearch
      exact ⟨rfl, hwalk⟩
    | vain _ _ hsearch => exact nomatch (ih hsearch).2
  | vain hs hknown _ _ ih ihrest =>
    cases h' with
    | back => exact absurd rfl hs
    | skip _ hknown' => exact absurd hknown' hknown
    | found _ _ hsearch => exact nomatch (ih hsearch).2
    | vain _ _ hsearch hrest =>
      obtain ⟨rfl, hleft⟩ := ih hsearch
      obtain rfl := Outcome.spent.inj hleft
      obtain ⟨rfl, ho⟩ := ihrest hrest
      exact ⟨rfl, ho⟩

/-! ## Closed walks through a node -/

/-- The walk that a search leaves, if any. -/
def Outcome.walk? : Outcome α → Option (List α)
  | .closed walk => some walk
  | .spent _ => none

/-- Looks for a closed walk through `start`, without a bound: the nodes that are entered, the first
of them `start`, and the walk that is found. -/
def Looks (next : α → List α) (m : Marking) (start : α) (log : List α)
    (walk? : Option (List α)) : Prop :=
  ∃ entered o, Search next start m [start] [] (next start) entered o ∧ log = start :: entered ∧
    walk? = o.walk?

variable {walk? other? : Option (List α)}

theorem Looks.unique (h : Looks next m start log walk?) (h' : Looks next m start others other?) :
    others = log ∧ other? = walk? := by
  obtain ⟨entered, o, hsearch, rfl, rfl⟩ := h
  obtain ⟨entered', o', hsearch', rfl, rfl⟩ := h'
  obtain ⟨rfl, rfl⟩ := hsearch.unique hsearch'
  exact ⟨rfl, rfl⟩

/-- **Each node is entered once.** -/
theorem Looks.nodup (h : Looks next m start log walk?) : log.Nodup := by
  obtain ⟨entered, o, hsearch, rfl, -⟩ := h
  exact List.nodup_cons.mpr ⟨fun hin => (hsearch.fresh start hin).1 rfl, hsearch.nodup⟩

theorem Looks.subset (hnodes : ∀ x, next x ⊆ nodes) (hstart : start ∈ nodes)
    (h : Looks next m start log walk?) : log ⊆ nodes := by
  obtain ⟨entered, o, hsearch, rfl, -⟩ := h
  exact List.cons_subset.mpr ⟨hstart, hsearch.subset hnodes (hnodes start)⟩

/-- **No more nodes are entered** than there are. -/
theorem Looks.length_le (hnodes : ∀ x, next x ⊆ nodes) (hstart : start ∈ nodes)
    (h : Looks next m start log walk?) : log.length ≤ nodes.length :=
  (List.subperm_of_subset h.nodup (h.subset hnodes hstart)).length_le

/-! ## The end of a search -/

variable [DecidableEq α]

/-- **Each search comes to an end** in a finite graph: with every node that is entered there is one
less that is not known. -/
theorem exists_search (hnodes : ∀ x, next x ⊆ nodes) {n : Nat} :
    ∀ {path marks succs : List α}, succs ⊆ nodes →
      nodes.countP (fun x => x ∉ m.known path marks) ≤ n →
      ∃ log o, Search next start m path marks succs log o := by
  induction n using Nat.strong_induction_on with
  | _ n ih =>
  intro path marks succs
  induction succs generalizing marks with
  | nil => exact fun _ _ => ⟨_, _, .spent⟩
  | cons s rest ihrest =>
    intro hsuccs hn
    obtain ⟨hs, hrest⟩ := List.cons_subset.mp hsuccs
    by_cases hstart : s = start
    · subst hstart
      exact ⟨_, _, .back⟩
    by_cases hknown : s ∈ m.known path marks
    · obtain ⟨log, o, hsearch⟩ := ihrest hrest hn
      exact ⟨_, _, .skip hstart hknown hsearch⟩
    have henter : ∀ {x}, x ∈ s :: m.known path marks ↔
        x ∈ m.known (path ++ [s]) (m.enter marks s) := fun {x} => by
      rw [Marking.mem_known_enter, List.mem_cons]
    have hlt : nodes.countP (fun x => x ∉ m.known (path ++ [s]) (m.enter marks s)) < n :=
      calc nodes.countP (fun x => x ∉ m.known (path ++ [s]) (m.enter marks s))
        _ ≤ nodes.countP fun x => x ∉ s :: m.known path marks :=
          countP_not_mem_mono fun _ => henter.mp
        _ < nodes.countP fun x => x ∉ m.known path marks := countP_not_mem_lt hs hknown
        _ ≤ n := hn
    obtain ⟨log, walk | left, hsearch⟩ := ih _ hlt (hnodes s) le_rfl
    · exact ⟨_, _, .found hstart hknown hsearch⟩
    · -- the rest is tried with no fewer nodes known than before
      have hle : nodes.countP (fun x => x ∉ m.known path (m.leave left s)) ≤ n := by
        refine (countP_not_mem_mono fun x hx => ?_).trans hlt.le
        rw [Marking.mem_known_leave, hsearch.mem_known_iff]
        exact Or.inl hx
      obtain ⟨others, o, hothers⟩ := ihrest hrest hle
      exact ⟨_, _, .vain hstart hknown hsearch hothers⟩

theorem exists_looks (hnodes : ∀ x, next x ⊆ nodes) (m : Marking) (start : α) :
    ∃ log walk?, Looks next m start log walk? := by
  obtain ⟨entered, o, hsearch⟩ :
      ∃ entered o, Search next start m [start] [] (next start) entered o :=
    exists_search hnodes (hnodes start) le_rfl
  exact ⟨_, _, entered, o, hsearch, rfl, rfl⟩

/-! ## Searches with a bound -/

/-- What a search leaves, with a path in front of a walk that it finds. -/
def Outcome.after (path : List α) : Outcome α → Outcome α
  | .closed walk => .closed (path ++ walk)
  | .spent entered => .spent entered

/-- Once a walk is found on a stack, nothing more is attempted. -/
@[simp] theorem foldl_attemptOn_closed {search : α → List α → List α → Outcome α}
    (succs walk : List α) :
    succs.foldl (attemptOn search start path) (.closed walk) = .closed walk := by
  induction succs with
  | nil => rfl
  | cons s rest ih => exact ih

/-- **A bounded search** that marks nodes on entering them leaves what the search leaves, if the
bound leaves room for the nodes that are entered. -/
theorem Search.foldl_attempt_eq (h : Search next start .onEntry path marks succs log o)
    {fuel : Nat} (hfuel : log.length ≤ fuel) :
    (succs.foldl (attempt (close next start fuel) start) (.spent marks)).after path = o := by
  induction h generalizing fuel with
  | spent => rfl
  | back => rw [List.foldl_cons, attempt, if_pos rfl, foldl_attempt_closed, Outcome.after]
  | @skip _ marks _ _ s _ hs hknown _ ih =>
    have hmarked : s ∈ marks := hknown
    rw [List.foldl_cons, attempt, if_neg hs, if_pos hmarked, ih hfuel]
  | @found path marks _ log walk s hs hknown _ ih =>
    have hmarked : s ∉ marks := hknown
    rw [List.length_cons] at hfuel
    obtain ⟨fuel, rfl⟩ := Nat.exists_eq_add_of_le' (Nat.le_trans (Nat.le_add_left 1 _) hfuel)
    have hsearch : (close next start (fuel + 1) s (s :: marks)).after (path ++ [s]) =
        .closed walk := ih (Nat.le_of_add_le_add_right hfuel)
    rw [List.foldl_cons, attempt, if_neg hs, if_neg hmarked]
    rcases hc : close next start (fuel + 1) s (s :: marks) with rest | entered
    · -- what `close` finds starts behind the path
      rw [hc, Outcome.after, List.append_assoc, List.singleton_append] at hsearch
      dsimp only
      rw [foldl_attempt_closed, Outcome.after, hsearch]
    · rw [hc] at hsearch
      cases hsearch
  | @vain path marks _ log others left s _ hs hknown _ _ ih ihrest =>
    have hmarked : s ∉ marks := hknown
    rw [List.length_cons, List.length_append] at hfuel
    obtain ⟨fuel, rfl⟩ := Nat.exists_eq_add_of_le' (Nat.le_trans (Nat.le_add_left 1 _) hfuel)
    have hsearch : (close next start (fuel + 1) s (s :: marks)).after (path ++ [s]) =
        .spent left := ih (by omega)
    rw [List.foldl_cons, attempt, if_neg hs, if_neg hmarked]
    rcases hc : close next start (fuel + 1) s (s :: marks) with rest | entered
    · rw [hc] at hsearch
      cases hsearch
    · rw [hc] at hsearch
      obtain rfl := Outcome.spent.inj hsearch
      exact ihrest (by omega)

/-- **A bounded search** that marks nodes on leaving them leaves what the search leaves, if the
bound leaves room for the nodes that are entered. -/
theorem Search.foldl_attemptOn_eq (h : Search next start .onLeaving path marks succs log o)
    {fuel : Nat} (hfuel : log.length ≤ fuel) :
    succs.foldl (attemptOn (closeOn next start fuel) start path) (.spent marks) = o := by
  induction h generalizing fuel with
  | spent => rfl
  | back => rw [List.foldl_cons, attemptOn, if_pos rfl, foldl_attemptOn_closed]
  | skip hs hknown _ ih =>
    rw [List.foldl_cons, attemptOn, if_neg hs, if_pos (List.mem_append.mp hknown), ih hfuel]
  | @found path marks _ log walk s hs hknown _ ih =>
    rw [List.length_cons] at hfuel
    obtain ⟨fuel, rfl⟩ := Nat.exists_eq_add_of_le' (Nat.le_trans (Nat.le_add_left 1 _) hfuel)
    have hsearch : closeOn next start (fuel + 1) s (path ++ [s]) marks = .closed walk :=
      ih (Nat.le_of_add_le_add_right hfuel)
    rw [List.foldl_cons, attemptOn, if_neg hs, if_neg (mt List.mem_append.mpr hknown), hsearch]
    exact foldl_attemptOn_closed _ _
  | @vain path marks _ log others left s _ hs hknown _ _ ih ihrest =>
    rw [List.length_cons, List.length_append] at hfuel
    obtain ⟨fuel, rfl⟩ := Nat.exists_eq_add_of_le' (Nat.le_trans (Nat.le_add_left 1 _) hfuel)
    have hsearch : closeOn next start (fuel + 1) s (path ++ [s]) marks = .spent left :=
      ih (by omega)
    rw [List.foldl_cons, attemptOn, if_neg hs, if_neg (mt List.mem_append.mpr hknown), hsearch]
    exact ihrest (by omega)

theorem Looks.closedWalk?_eq (h : Looks next .onEntry start log walk?) {fuel : Nat}
    (hfuel : log.length ≤ fuel) : closedWalk? next fuel start = walk? := by
  obtain ⟨entered, o, hsearch, rfl, rfl⟩ := h
  rw [List.length_cons] at hfuel
  obtain ⟨fuel, rfl⟩ := Nat.exists_eq_add_of_le' (Nat.le_trans (Nat.le_add_left 1 _) hfuel)
  have hclose : (close next start (fuel + 1) start []).after [start] = o :=
    hsearch.foldl_attempt_eq (Nat.le_of_add_le_add_right hfuel)
  rw [closedWalk?, ← hclose]
  rcases close next start (fuel + 1) start [] with walk | entered <;> rfl

theorem Looks.closedWalkOnStack?_eq (h : Looks next .onLeaving start log walk?) {fuel : Nat}
    (hfuel : log.length ≤ fuel) : closedWalkOnStack? next fuel start = walk? := by
  obtain ⟨entered, o, hsearch, rfl, rfl⟩ := h
  rw [List.length_cons] at hfuel
  obtain ⟨fuel, rfl⟩ := Nat.exists_eq_add_of_le' (Nat.le_trans (Nat.le_add_left 1 _) hfuel)
  have hclose : closeOn next start (fuel + 1) start [start] [] = o :=
    hsearch.foldl_attemptOn_eq (Nat.le_of_add_le_add_right hfuel)
  rw [closedWalkOnStack?, hclose]
  rcases o with walk | left <;> rfl

end GoAtlas.Walk
