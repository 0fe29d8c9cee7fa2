import GoAtlas.Graph.Walk
import Mathlib.Data.List.Chain
import Mathlib.Logic.Relation

/-!
# What the walks find

The two searches over a successor function, compared with the relation `Leads` that the function
describes:

* `closure` lists exactly the nodes that can be reached (`mem_closure_iff`), provided its fuel pays
  for every node waiting and every edge not yet followed;
* `closedWalk?` finds a walk exactly when a closed walk through the node exists
  (`closedWalk?_isSome_iff`), and what it finds repeats no node but the first
  (`closedWalk?_eq_some`).

The second search never forgets a node that it has entered. That loses nothing: a node abandoned
once has all its successors among the entered nodes (`Dead`), and `start` is never one of them.
-/

namespace GoAtlas.Walk

variable {α β : Type}

/-- One node leads to another in one step. -/
def Leads (next : α → List α) (a b : α) : Prop := b ∈ next a

/-! ## The closure -/

section Closure

variable [DecidableEq α] {next : α → List α}

/-- Whatever holds of the nodes waiting and seen, and passes on to successors, holds of the
closure. -/
theorem closure_sound {P : α → Prop} (step : ∀ {a b}, P a → Leads next a b → P b) :
    ∀ (fuel : Nat) (todo seen : List α), (∀ x ∈ todo, P x) → (∀ x ∈ seen, P x) →
      ∀ x ∈ closure next fuel todo seen, P x := by
  intro fuel
  induction fuel with
  | zero => intro todo seen _ hseen; exact hseen
  | succ fuel ih =>
    intro todo seen htodo hseen
    cases todo with
    | nil => exact hseen
    | cons node todo =>
      have hnode : P node := htodo node (List.mem_cons_self ..)
      have hrest : ∀ x ∈ todo, P x := fun x hx => htodo x (List.mem_cons_of_mem _ hx)
      rw [closure]
      split
      · exact ih todo seen hrest hseen
      · refine ih _ _ ?_ ?_
        · intro x hx
          rcases List.mem_append.mp hx with hx | hx
          · exact step hnode hx
          · exact hrest x hx
        · intro x hx
          rcases List.mem_cons.mp hx with rfl | hx
          · exact hnode
          · exact hseen x hx

/-- The closure keeps what was seen. -/
theorem subset_closure :
    ∀ (fuel : Nat) (todo seen : List α), seen ⊆ closure next fuel todo seen := by
  intro fuel
  induction fuel with
  | zero => intro todo seen; exact List.Subset.refl _
  | succ fuel ih =>
    intro todo seen
    cases todo with
    | nil => exact List.Subset.refl _
    | cons node todo =>
      rw [closure]
      split
      · exact ih todo seen
      · exact List.Subset.trans (List.subset_cons_self ..) (ih _ _)

variable {edges : List β} {owner : β → α}

/-- The edges not yet followed are, when a node is seen, fewer by the edges of that node. -/
theorem countP_not_mem_cons {node : α} {seen : List α} (h : node ∉ seen) :
    edges.countP (fun e => owner e ∉ node :: seen) + edges.countP (fun e => owner e = node) =
      edges.countP (fun e => owner e ∉ seen) := by
  induction edges with
  | nil => rfl
  | cons e rest ih =>
    simp only [List.countP_cons, List.mem_cons, not_or] at ih ⊢
    by_cases he : owner e = node
    · simp only [he, h, not_true_eq_false, false_and, decide_false, decide_true, not_false_eq_true]
      simpa [Nat.add_assoc, Nat.add_comm, Nat.add_left_comm] using ih
    · by_cases hs : owner e ∈ seen
      · simpa [he, hs] using ih
      · simp only [he, hs, not_false_eq_true, and_self, decide_true, decide_false]
        simp only [Bool.false_eq_true, if_true, if_false]
        omega

/-- **The fuel suffices**: when it pays for every node waiting and every edge not yet followed, the
closure holds the nodes waiting, and the successors of every node that it adds. -/
theorem closure_closed (hnext : ∀ x, (next x).length ≤ edges.countP fun e => owner e = x) :
    ∀ (fuel : Nat) (todo seen : List α),
      todo.length + edges.countP (fun e => owner e ∉ seen) ≤ fuel →
      todo ⊆ closure next fuel todo seen ∧
        ∀ x ∈ closure next fuel todo seen, x ∈ seen ∨ next x ⊆ closure next fuel todo seen := by
  intro fuel
  induction fuel with
  | zero =>
    intro todo seen hfuel
    obtain rfl : todo = [] := List.eq_nil_of_length_eq_zero (by omega)
    exact ⟨List.nil_subset _, fun x hx => Or.inl hx⟩
  | succ fuel ih =>
    intro todo seen hfuel
    cases todo with
    | nil => exact ⟨List.nil_subset _, fun x hx => Or.inl hx⟩
    | cons node todo =>
      rw [closure]
      rw [List.length_cons] at hfuel
      split
      · rename_i hmem
        obtain ⟨htodo, hclosed⟩ := ih todo seen (by omega)
        exact ⟨List.cons_subset.mpr ⟨subset_closure _ _ _ hmem, htodo⟩, hclosed⟩
      · rename_i hmem
        have hcount : edges.countP (fun e => owner e ∉ node :: seen) +
            edges.countP (fun e => owner e = node) = edges.countP fun e => owner e ∉ seen :=
          countP_not_mem_cons hmem
        have hlen := hnext node
        obtain ⟨htodo, hclosed⟩ := ih (next node ++ todo) (node :: seen) (by
          rw [List.length_append]
          omega)
        obtain ⟨hsucc, hrest⟩ := List.append_subset.mp htodo
        refine ⟨List.cons_subset.mpr ⟨subset_closure _ _ _ (List.mem_cons_self ..), hrest⟩, ?_⟩
        intro x hx
        rcases hclosed x hx with hx | hx
        · rcases List.mem_cons.mp hx with rfl | hx
          · exact Or.inr hsucc
          · exact Or.inl hx
        · exact Or.inr hx

/-- **The closure of a node** holds exactly the nodes that can be reached from it. -/
theorem mem_closure_iff (hnext : ∀ x, (next x).length ≤ edges.countP fun e => owner e = x)
    {fuel : Nat} (hfuel : edges.length < fuel) {a b : α} :
    b ∈ closure next fuel [a] [] ↔ Relation.ReflTransGen (Leads next) a b := by
  constructor
  · refine closure_sound (P := Relation.ReflTransGen (Leads next) a) (fun h hl => h.tail hl)
      fuel [a] [] ?_ (by simp) b
    intro x hx
    rw [List.mem_singleton.mp hx]
  · intro h
    have hle : edges.countP (fun e => owner e ∉ ([] : List α)) ≤ edges.length :=
      List.countP_le_length
    obtain ⟨hstart, hclosed⟩ := closure_closed hnext fuel [a] [] (by
      rw [List.length_singleton]
      omega)
    induction h with
    | refl => exact hstart (List.mem_singleton_self a)
    | tail _ hl ih =>
      rcases hclosed _ ih with hx | hx
      · cases hx
      · exact hx hl

end Closure

/-! ## The closed walk

A walk that is found is a chain whose inner nodes were entered on the way, each once. When none is
found, the nodes entered in vain are *dead*: all their successors were entered too, and none is
`start`. -/

section ClosedWalk

variable {next : α → List α} {start : α}

/-- The rest of a walk from `node` to `start`, with inner nodes that are not yet entered. -/
def Closes (next : α → List α) (start : α) (entered : List α) (node : α) (walk : List α) : Prop :=
  ∃ inner, walk = inner ++ [start] ∧ List.IsChain (Leads next) (node :: walk) ∧ inner.Nodup ∧
    ∀ x ∈ inner, x ≠ start ∧ x ∉ entered

/-- A node that leads to entered nodes only, and not to `start`. -/
def Dead (next : α → List α) (start : α) (entered : List α) (node : α) : Prop :=
  start ∉ next node ∧ next node ⊆ entered

theorem Dead.mono {entered left : List α} {node : α} (h : Dead next start entered node)
    (hsub : entered ⊆ left) : Dead next start left node :=
  ⟨h.1, List.Subset.trans h.2 hsub⟩

/-- Along a chain the first node leads to the last. -/
theorem transGen_of_isChain {r : α → α → Prop} {b : α} :
    ∀ {inner : List α} {a : α}, List.IsChain r (a :: (inner ++ [b])) → Relation.TransGen r a b := by
  intro inner
  induction inner with
  | nil =>
    intro a h
    exact .single (by simpa using h)
  | cons c rest ih =>
    intro a h
    obtain ⟨hac, hrest⟩ := List.isChain_cons_cons.mp h
    exact .head hac (ih hrest)

variable [DecidableEq α] {search : α → List α → Outcome α}

/-- Inversion for an attempt that ends the search. -/
theorem attempt_eq_closed {entered walk : List α} {s : α}
    (h : attempt search start (.spent entered) s = .closed walk) :
    (s = start ∧ walk = [start]) ∨
      (s ≠ start ∧ s ∉ entered ∧
        ∃ rest, search s (s :: entered) = .closed rest ∧ walk = s :: rest) := by
  simp only [attempt] at h
  split at h
  · rename_i hs
    exact Or.inl ⟨hs, (Outcome.closed.inj h).symm⟩
  · rename_i hs
    split at h
    · cases h
    · rename_i hmem
      split at h
      · rename_i rest hrest
        exact Or.inr ⟨hs, hmem, rest, hrest, (Outcome.closed.inj h).symm⟩
      · cases h

/-- Inversion for an attempt in vain. -/
theorem attempt_eq_spent {entered left : List α} {s : α}
    (h : attempt search start (.spent entered) s = .spent left) :
    s ≠ start ∧
      ((s ∈ entered ∧ left = entered) ∨ (s ∉ entered ∧ search s (s :: entered) = .spent left)) := by
  simp only [attempt] at h
  split at h
  · cases h
  · rename_i hs
    split at h
    · rename_i hmem
      exact ⟨hs, Or.inl ⟨hmem, (Outcome.spent.inj h).symm⟩⟩
    · rename_i hmem
      split at h
      · cases h
      · rename_i left' hleft
        obtain rfl := Outcome.spent.inj h
        exact ⟨hs, Or.inr ⟨hmem, hleft⟩⟩

/-- Once a walk is found, nothing more is attempted. -/
@[simp] theorem foldl_attempt_closed (succs walk : List α) :
    succs.foldl (attempt search start) (.closed walk) = .closed walk := by
  induction succs with
  | nil => rfl
  | cons s rest ih => exact ih

/-- The attempts on some successors forget no entered node, if the search forgets none. -/
theorem foldl_attempt_subset (hsearch : ∀ {x l left}, search x l = .spent left → l ⊆ left) :
    ∀ {succs entered left : List α},
      succs.foldl (attempt search start) (.spent entered) = .spent left → entered ⊆ left := by
  intro succs
  induction succs with
  | nil =>
    intro entered left h
    obtain rfl := Outcome.spent.inj h
    exact List.Subset.refl _
  | cons s rest ih =>
    intro entered left h
    rw [List.foldl_cons] at h
    rcases ha : attempt search start (.spent entered) s with walk | mid
    · rw [ha, foldl_attempt_closed] at h
      cases h
    · rw [ha] at h
      obtain ⟨-, ⟨-, rfl⟩ | ⟨-, hs⟩⟩ := attempt_eq_spent ha
      · exact ih h
      · exact List.Subset.trans (List.subset_cons_self ..)
          (List.Subset.trans (hsearch hs) (ih h))

/-- The search forgets no entered node. -/
theorem close_subset : ∀ {fuel : Nat} {node : α} {entered left : List α},
    close next start fuel node entered = .spent left → entered ⊆ left := by
  intro fuel
  induction fuel with
  | zero =>
    intro node entered left h
    obtain rfl := Outcome.spent.inj h
    exact List.Subset.refl _
  | succ fuel ih =>
    intro node entered left h
    exact foldl_attempt_subset ih h

/-! ### What is found -/

/-- A walk found among some successors starts with one of them. -/
theorem foldl_attempt_closes {node : α} (hsub : ∀ {x l left}, search x l = .spent left → l ⊆ left)
    (hsearch : ∀ {x l walk}, search x l = .closed walk → Closes next start l x walk) :
    ∀ {succs entered walk : List α}, succs ⊆ next node →
      succs.foldl (attempt search start) (.spent entered) = .closed walk →
      Closes next start entered node walk := by
  intro succs
  induction succs with
  | nil => intro entered walk _ h; cases h
  | cons s rest ih =>
    intro entered walk hnext h
    obtain ⟨hs, hrest⟩ := List.cons_subset.mp hnext
    rw [List.foldl_cons] at h
    rcases ha : attempt search start (.spent entered) s with found | mid
    · rw [ha, foldl_attempt_closed] at h
      obtain rfl := Outcome.closed.inj h
      rcases attempt_eq_closed ha with ⟨rfl, rfl⟩ | ⟨hne, hmem, rest, hfound, rfl⟩
      · exact ⟨[], rfl, by simpa [Leads] using hs, List.nodup_nil, by simp⟩
      · obtain ⟨inner, rfl, hchain, hnodup, hinner⟩ := hsearch hfound
        refine ⟨s :: inner, rfl, List.IsChain.cons_cons hs hchain, ?_, ?_⟩
        · refine List.nodup_cons.mpr ⟨fun hin => ?_, hnodup⟩
          exact (hinner s hin).2 (List.mem_cons_self ..)
        · intro x hx
          rcases List.mem_cons.mp hx with rfl | hx
          · exact ⟨hne, hmem⟩
          · exact ⟨(hinner x hx).1, fun hin => (hinner x hx).2 (List.mem_cons_of_mem _ hin)⟩
    · rw [ha] at h
      have hmid : entered ⊆ mid := by
        have hone : [s].foldl (attempt search start) (.spent entered) = .spent mid := ha
        exact foldl_attempt_subset hsub hone
      obtain ⟨inner, hwalk, hchain, hnodup, hinner⟩ := ih hrest h
      exact ⟨inner, hwalk, hchain, hnodup, fun x hx =>
        ⟨(hinner x hx).1, fun hin => (hinner x hx).2 (hmid hin)⟩⟩

/-- Whatever the search finds leads from the node to `start`. -/
theorem close_closes : ∀ {fuel : Nat} {node : α} {entered walk : List α},
    close next start fuel node entered = .closed walk →
      Closes next start entered node walk := by
  intro fuel
  induction fuel with
  | zero => intro node entered walk h; cases h
  | succ fuel ih =>
    intro node entered walk h
    exact foldl_attempt_closes close_subset ih (List.Subset.refl _) h

/-- **A walk that is found** is closed, follows the successors, and repeats no node but the
first. -/
theorem closedWalk?_eq_some {fuel : Nat} {walk : List α}
    (h : closedWalk? next fuel start = some walk) :
    ∃ inner, walk = start :: inner ++ [start] ∧ List.IsChain (Leads next) walk ∧
      (start :: inner).Nodup := by
  unfold closedWalk? at h
  split at h
  · rename_i rest hrest
    obtain rfl := Option.some.inj h
    obtain ⟨inner, rfl, hchain, hnodup, hinner⟩ := close_closes hrest
    exact ⟨inner, rfl, hchain, List.nodup_cons.mpr ⟨fun hin => (hinner start hin).1 rfl, hnodup⟩⟩
  · cases h

/-! ### What is missed -/

variable {nodes : List α}

theorem countP_not_mem_mono {entered left : List α} (h : entered ⊆ left) :
    nodes.countP (fun x => x ∉ left) ≤ nodes.countP fun x => x ∉ entered := by
  refine List.countP_mono_left fun x _ hx => ?_
  simp only [decide_eq_true_eq] at hx ⊢
  exact fun hin => hx (h hin)

theorem countP_not_mem_lt {entered : List α} {s : α} (hs : s ∈ nodes) (hmem : s ∉ entered) :
    nodes.countP (fun x => x ∉ s :: entered) < nodes.countP fun x => x ∉ entered := by
  have hcount : nodes.countP (fun x => id x ∉ s :: entered) + nodes.countP (fun x => id x = s) =
      nodes.countP fun x => id x ∉ entered := countP_not_mem_cons hmem
  have hpos : 0 < nodes.countP fun x => id x = s := List.countP_pos_iff.mpr ⟨s, hs, by simp⟩
  simp only [id] at hcount hpos
  omega

/-- The successors attempted in vain are entered and none is `start`, and the nodes entered on the
way are dead, if those that the search enters are. -/
theorem foldl_attempt_dead {fuel : Nat}
    (hsub : ∀ {x l left}, search x l = .spent left → l ⊆ left)
    (hsearch : ∀ {x l left}, nodes.countP (fun y => y ∉ l) < fuel →
      search x l = .spent left →
        Dead next start left x ∧ ∀ y ∈ left, y ∈ l ∨ Dead next start left y) :
    ∀ {succs entered left : List α}, succs ⊆ nodes → nodes.countP (fun y => y ∉ entered) ≤ fuel →
      succs.foldl (attempt search start) (.spent entered) = .spent left →
      (∀ s ∈ succs, s ≠ start ∧ s ∈ left) ∧ ∀ y ∈ left, y ∈ entered ∨ Dead next start left y := by
  intro succs
  induction succs with
  | nil =>
    intro entered left _ _ h
    obtain rfl := Outcome.spent.inj h
    exact ⟨by simp, fun y hy => Or.inl hy⟩
  | cons s rest ih =>
    intro entered left hnodes hfuel h
    obtain ⟨hs, hrest⟩ := List.cons_subset.mp hnodes
    rw [List.foldl_cons] at h
    rcases ha : attempt search start (.spent entered) s with walk | mid
    · rw [ha, foldl_attempt_closed] at h
      cases h
    · rw [ha] at h
      have hleft : mid ⊆ left := foldl_attempt_subset hsub h
      obtain ⟨hne, ⟨hmem, rfl⟩ | ⟨hmem, hmid⟩⟩ := attempt_eq_spent ha
      · obtain ⟨hin, hdead⟩ := ih hrest hfuel h
        exact ⟨List.forall_mem_cons.mpr ⟨⟨hne, hleft hmem⟩, hin⟩, hdead⟩
      · have hlt := countP_not_mem_lt hs hmem
        have hge : nodes.countP (fun y => y ∉ mid) ≤ nodes.countP fun y => y ∉ s :: entered :=
          countP_not_mem_mono (hsub hmid)
        obtain ⟨hdeads, hdeadm⟩ := hsearch (by omega) hmid
        obtain ⟨hin, hdead⟩ := ih hrest (by omega) h
        have hs : s ∈ left := hleft (hsub hmid (List.mem_cons_self ..))
        refine ⟨List.forall_mem_cons.mpr ⟨⟨hne, hs⟩, hin⟩, ?_⟩
        intro y hy
        rcases hdead y hy with hy | hy
        · rcases hdeadm y hy with hy | hy
          · rcases List.mem_cons.mp hy with rfl | hy
            · exact Or.inr (hdeads.mono hleft)
            · exact Or.inl hy
          · exact Or.inr (hy.mono hleft)
        · exact Or.inr hy

/-- **A search in vain** leaves its node and all nodes that it has entered dead, if the fuel pays
for every node that can be entered. -/
theorem close_dead (hnodes : ∀ x, next x ⊆ nodes) :
    ∀ {fuel : Nat} {node : α} {entered left : List α},
      nodes.countP (fun y => y ∉ entered) < fuel →
      close next start fuel node entered = .spent left →
      Dead next start left node ∧ ∀ y ∈ left, y ∈ entered ∨ Dead next start left y := by
  intro fuel
  induction fuel with
  | zero => intro node entered left hfuel _; omega
  | succ fuel ih =>
    intro node entered left hfuel h
    obtain ⟨hin, hdead⟩ :=
      foldl_attempt_dead close_subset ih (hnodes node) (Nat.le_of_lt_succ hfuel) h
    exact ⟨⟨fun hs => (hin start hs).1 rfl, fun s hs => (hin s hs).2⟩, hdead⟩

/-- **A closed walk is found** exactly when there is one, if the fuel pays for every node that can
be entered. -/
theorem closedWalk?_isSome_iff (hnodes : ∀ x, next x ⊆ nodes) {fuel : Nat}
    (hfuel : nodes.length < fuel) :
    (closedWalk? next fuel start).isSome ↔ Relation.TransGen (Leads next) start start := by
  constructor
  · intro h
    obtain ⟨walk, hwalk⟩ := Option.isSome_iff_exists.mp h
    obtain ⟨inner, rfl, hchain, -⟩ := closedWalk?_eq_some hwalk
    exact transGen_of_isChain hchain
  · intro h
    unfold closedWalk?
    rcases hc : close next start fuel start [] with walk | left
    · rfl
    · exfalso
      have hle : nodes.countP (fun y => y ∉ ([] : List α)) ≤ nodes.length := List.countP_le_length
      obtain ⟨hstart, hdead⟩ := close_dead hnodes (by omega) hc
      -- everything that `start` leads to is dead, but a closed walk ends with a step to `start`
      have hall : ∀ x, Relation.ReflTransGen (Leads next) start x → Dead next start left x := by
        intro x hx
        induction hx with
        | refl => exact hstart
        | tail _ hl ih => exact (hdead _ (ih.2 hl)).resolve_left (by simp)
      obtain ⟨c, hc, hl⟩ := Relation.TransGen.tail'_iff.mp h
      exact (hall c hc).1 hl

end ClosedWalk

end GoAtlas.Walk
