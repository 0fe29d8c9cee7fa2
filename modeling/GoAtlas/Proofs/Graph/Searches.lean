import GoAtlas.Proofs.Graph.Walk

/-!
# Searches that find the same walk

There are several ways to look for a closed walk through a node, and they take the same branch at
every step:

* A search that tells the nodes on its stack from those that it is done with finds the same walk as
  one that only remembers the nodes that it has entered (`closedWalkOnStack?_eq`). A node leaves the
  stack when it is done, so together these are the nodes entered.
* A search of everything that `start` leads to finds the same walk as one that stays among the nodes
  that lead back to `start` (`closedWalk?_filter`). Outside of them the search is in vain, and it
  enters none of them there: whatever leads to such a node would lead back to `start` too.
-/

namespace GoAtlas.Walk

open Relation (ReflTransGen TransGen)

variable {α : Type} [DecidableEq α] {next : α → List α} {start : α}

/-! ## The stack and the nodes that are done -/

/-- What a search leaves when its stack is `stack`, and what a search leaves that only remembers the
nodes that it has entered: both find a walk, the first with the stack in front; or neither does, and
the nodes entered are those that are done and those on the stack. Whether `start` counts as entered
does not matter, since it is never tried. -/
inductive SameOutcome (start : α) (stack : List α) : Outcome α → Outcome α → Prop
  | closed (rest : List α) : SameOutcome start stack (.closed (stack ++ rest)) (.closed rest)
  | spent {done entered : List α} : (∀ x ≠ start, x ∈ entered ↔ x ∈ done ∨ x ∈ stack) →
    SameOutcome start stack (.spent done) (.spent entered)

section Stack

variable {onStack : α → List α → List α → Outcome α} {search : α → List α → Outcome α}
  {stack : List α} {o p : Outcome α}

/-- One successor is tried alike, if the searches from it are. -/
theorem SameOutcome.attempt (hsearch : ∀ {s done entered},
      (∀ x ≠ start, x ∈ entered ↔ x ∈ done ∨ x ∈ stack ++ [s]) →
        SameOutcome start (stack ++ [s]) (onStack s (stack ++ [s]) done) (search s entered))
    (h : SameOutcome start stack o p) (s : α) :
    SameOutcome start stack (attemptOn onStack start stack o s) (attempt search start p s) := by
  cases h with
  | closed rest => exact .closed rest
  | @spent done entered hsame =>
    rw [attemptOn, Walk.attempt]
    by_cases hs : s = start
    · rw [if_pos hs, if_pos hs]
      exact .closed [start]
    rw [if_neg hs, if_neg hs]
    by_cases hentered : s ∈ entered
    · rw [if_pos ((hsame s hs).mp hentered), if_pos hentered]
      exact .spent hsame
    rw [if_neg (mt (hsame s hs).mpr hentered), if_neg hentered]
    have hpushed : ∀ x ≠ start, x ∈ s :: entered ↔ x ∈ done ∨ x ∈ stack ++ [s] := by
      intro x hx
      rw [List.mem_cons, hsame x hx, List.mem_append, List.mem_singleton, or_comm, or_assoc]
    generalize ho : onStack s (stack ++ [s]) done = o
    generalize hp : search s (s :: entered) = p
    have hboth : SameOutcome start (stack ++ [s]) o p := ho ▸ hp ▸ hsearch hpushed
    cases hboth with
    | closed rest =>
      have hwalk : stack ++ [s] ++ rest = stack ++ s :: rest := by rw [List.append_assoc]; rfl
      dsimp only
      rw [hwalk]
      exact .closed (s :: rest)
    | @spent done' entered' hsame' =>
      -- the successor is popped: it is no longer on the stack, but done
      refine .spent fun x hx => ?_
      rw [hsame' x hx, List.mem_append, List.mem_singleton, List.mem_cons]
      tauto

/-- Several successors are tried alike. -/
theorem SameOutcome.foldl (hsearch : ∀ {s done entered},
      (∀ x ≠ start, x ∈ entered ↔ x ∈ done ∨ x ∈ stack ++ [s]) →
        SameOutcome start (stack ++ [s]) (onStack s (stack ++ [s]) done) (search s entered)) :
    ∀ {succs : List α} {o p : Outcome α}, SameOutcome start stack o p →
      SameOutcome start stack (succs.foldl (attemptOn onStack start stack) o)
        (succs.foldl (Walk.attempt search start) p) := by
  intro succs
  induction succs with
  | nil => intro o p h; exact h
  | cons s rest ih => intro o p h; exact ih (h.attempt hsearch s)

/-- The two searches go on alike from a node. -/
theorem sameOutcome_close : ∀ {fuel : Nat} {node : α} {stack done entered : List α},
    (∀ x ≠ start, x ∈ entered ↔ x ∈ done ∨ x ∈ stack) →
      SameOutcome start stack (closeOn next start fuel node stack done)
        (close next start fuel node entered) := by
  intro fuel
  induction fuel with
  | zero => intro node stack done entered h; exact .spent h
  | succ fuel ih => intro node stack done entered h; exact SameOutcome.foldl ih (.spent h)

/-- **A search on a stack** finds the walk that a search finds that remembers the nodes entered. -/
theorem closedWalkOnStack?_eq (next : α → List α) (fuel : Nat) (start : α) :
    closedWalkOnStack? next fuel start = closedWalk? next fuel start := by
  have hstart : ∀ x ≠ start, x ∈ ([] : List α) ↔ x ∈ ([] : List α) ∨ x ∈ [start] := by
    intro x hx
    simpa using hx
  rw [closedWalkOnStack?, closedWalk?]
  generalize ho : closeOn next start fuel start [start] [] = o
  generalize hp : close next start fuel start [] = p
  have hsame : SameOutcome start [start] o p := ho ▸ hp ▸ sameOutcome_close hstart
  cases hsame with
  | closed rest => rfl
  | spent _ => rfl

end Stack

/-! ## The nodes that lead back -/

section Within

/-- A search in vain enters what it is led to. -/
theorem reached_of_foldl_attempt {search : α → List α → Outcome α} {node : α}
    (hsearch : ∀ {x l left}, search x l = .spent left →
      ∀ y ∈ left, y ∈ l ∨ ReflTransGen (Leads next) x y) :
    ∀ {succs entered left : List α}, succs ⊆ next node →
      succs.foldl (attempt search start) (.spent entered) = .spent left →
      ∀ y ∈ left, y ∈ entered ∨ ReflTransGen (Leads next) node y := by
  intro succs
  induction succs with
  | nil =>
    intro entered left _ h y hy
    obtain rfl := Outcome.spent.inj h
    exact Or.inl hy
  | cons s rest ih =>
    intro entered left hnext h y hy
    obtain ⟨hs, hrest⟩ := List.cons_subset.mp hnext
    rw [List.foldl_cons] at h
    rcases ha : attempt search start (.spent entered) s with walk | mid
    · rw [ha, foldl_attempt_closed] at h
      cases h
    rw [ha] at h
    refine (ih hrest h y hy).elim (fun hy => ?_) Or.inr
    obtain ⟨-, ⟨-, rfl⟩ | ⟨-, hmid⟩⟩ := attempt_eq_spent ha
    · exact Or.inl hy
    · rcases hsearch hmid y hy with hy | hy
      · rcases List.mem_cons.mp hy with rfl | hy
        · exact Or.inr (.single hs)
        · exact Or.inl hy
      · exact Or.inr (hy.head hs)

/-- The nodes that a search enters in vain can be reached from its node. -/
theorem reached_of_close : ∀ {fuel : Nat} {node : α} {entered left : List α},
    close next start fuel node entered = .spent left →
      ∀ y ∈ left, y ∈ entered ∨ ReflTransGen (Leads next) node y := by
  intro fuel
  induction fuel with
  | zero =>
    intro node entered left h y hy
    obtain rfl := Outcome.spent.inj h
    exact Or.inl hy
  | succ fuel ih =>
    intro node entered left h
    exact reached_of_foldl_attempt ih (List.Subset.refl _) h

/-- Where a search finds a walk, its node leads to `start`. -/
theorem transGen_of_close {fuel : Nat} {node : α} {entered walk : List α}
    (h : close next start fuel node entered = .closed walk) :
    TransGen (Leads next) node start := by
  obtain ⟨inner, rfl, hchain, -⟩ := close_closes h
  exact transGen_of_isChain hchain

variable {within : α → Bool}

/-- What a search of everything leaves, and what a search leaves that stays among some nodes: both
find the same walk, or neither does and both have entered the same of these nodes. -/
inductive SameWithin (within : α → Bool) : Outcome α → Outcome α → Prop
  | closed (walk : List α) : SameWithin within (.closed walk) (.closed walk)
  | spent {entered few : List α} : (∀ x, within x = true → (x ∈ entered ↔ x ∈ few)) →
    SameWithin within (.spent entered) (.spent few)

variable {search : α → List α → Outcome α} {few : α → List α → Outcome α} {o p : Outcome α}

/-- One of the nodes is tried alike, if the searches from it are. -/
theorem SameWithin.attempt {s : α} (hs : within s = true)
    (hsearch : ∀ {l m}, (∀ x, within x = true → (x ∈ l ↔ x ∈ m)) →
      SameWithin within (search s l) (few s m))
    (h : SameWithin within o p) :
    SameWithin within (attempt search start o s) (Walk.attempt few start p s) := by
  cases h with
  | closed walk => exact .closed walk
  | @spent l m hsame =>
    rw [Walk.attempt, Walk.attempt]
    by_cases hstart : s = start
    · rw [if_pos hstart, if_pos hstart]
      exact .closed [start]
    rw [if_neg hstart, if_neg hstart]
    by_cases hmem : s ∈ l
    · rw [if_pos hmem, if_pos ((hsame s hs).mp hmem)]
      exact .spent hsame
    rw [if_neg hmem, if_neg (mt (hsame s hs).mpr hmem)]
    generalize ho : search s (s :: l) = o
    generalize hp : few s (s :: m) = p
    have hboth : SameWithin within o p := ho ▸ hp ▸ hsearch fun x hx => by
      rw [List.mem_cons, List.mem_cons, hsame x hx]
    cases hboth with
    | closed rest => exact .closed (s :: rest)
    | spent hsame' => exact .spent hsame'

/-- A node that does not lead back to `start` is tried in vain, and none of the nodes that do is
entered on the way. -/
theorem SameWithin.attempt_outside {fuel : Nat} {s : α}
    (hback : ∀ x, within x = true → ReflTransGen (Leads next) x start)
    (hs : ¬ ReflTransGen (Leads next) s start) (h : SameWithin within o p) :
    SameWithin within (Walk.attempt (close next start fuel) start o s) p := by
  cases h with
  | closed walk => exact .closed walk
  | @spent l m hsame =>
    have hstart : s ≠ start := fun heq => hs (heq ▸ .refl)
    rw [Walk.attempt, if_neg hstart]
    by_cases hmem : s ∈ l
    · rw [if_pos hmem]
      exact .spent hsame
    rw [if_neg hmem]
    rcases hc : close next start fuel s (s :: l) with walk | left
    · exact absurd (transGen_of_close hc).to_reflTransGen hs
    · refine .spent fun x hx => ?_
      rw [← hsame x hx]
      refine ⟨fun hleft => ?_, fun hl => close_subset hc (List.mem_cons_of_mem s hl)⟩
      rcases reached_of_close hc x hleft with hin | hreached
      · refine (List.mem_cons.mp hin).resolve_left ?_
        rintro rfl
        exact hs (hback x hx)
      · exact absurd (hreached.trans (hback x hx)) hs

/-- The two searches go on alike from a node that `start` leads to, when `within` tells the nodes
that `start` leads to and that lead back to it. -/
theorem sameWithin_close
    (hwithin : ∀ x, within x = true ↔
      ReflTransGen (Leads next) start x ∧ ReflTransGen (Leads next) x start) :
    ∀ {fuel : Nat} {node : α} {entered few : List α}, ReflTransGen (Leads next) start node →
      (∀ x, within x = true → (x ∈ entered ↔ x ∈ few)) →
      SameWithin within (close next start fuel node entered)
        (close (fun x => (next x).filter within) start fuel node few) := by
  intro fuel
  induction fuel with
  | zero => intro node entered few _ h; exact .spent h
  | succ fuel ih =>
    intro node entered few hnode h
    have hsuccs : ∀ {succs : List α} {o p : Outcome α}, succs ⊆ next node →
        SameWithin within o p →
        SameWithin within (succs.foldl (Walk.attempt (close next start fuel) start) o)
          ((succs.filter within).foldl
            (Walk.attempt (close (fun x => (next x).filter within) start fuel) start) p) := by
      intro succs
      induction succs with
      | nil => intro o p _ ho; exact ho
      | cons s rest ihs =>
        intro o p hnext ho
        obtain ⟨hs, hrest⟩ := List.cons_subset.mp hnext
        have hto : ReflTransGen (Leads next) start s := hnode.tail hs
        rw [List.foldl_cons]
        by_cases hin : within s = true
        · rw [List.filter_cons_of_pos hin, List.foldl_cons]
          exact ihs hrest (ho.attempt hin fun hl => ih hto hl)
        · rw [List.filter_cons_of_neg hin]
          refine ihs hrest (ho.attempt_outside (fun x hx => ((hwithin x).mp hx).2) ?_)
          exact fun hback => hin ((hwithin s).mpr ⟨hto, hback⟩)
    exact hsuccs (List.Subset.refl _) (.spent h)

/-- **A search of everything** finds the walk that a search finds that stays among the nodes that
lead back to `start`. -/
theorem closedWalk?_filter
    (hwithin : ∀ x, within x = true ↔
      ReflTransGen (Leads next) start x ∧ ReflTransGen (Leads next) x start) (fuel : Nat) :
    closedWalk? (fun x => (next x).filter within) fuel start = closedWalk? next fuel start := by
  rw [closedWalk?, closedWalk?]
  generalize ho : close next start fuel start [] = o
  generalize hp : close (fun x => (next x).filter within) start fuel start [] = p
  have hsame : SameWithin within o p :=
    ho ▸ hp ▸ sameWithin_close hwithin .refl fun _ _ => Iff.rfl
  cases hsame with
  | closed walk => rfl
  | spent _ => rfl

end Within

end GoAtlas.Walk
