import GoAtlas.Proofs.Graph.Aliases
import GoAtlas.Proofs.Graph.Embedding
import Mathlib.Data.Nat.Find

/-!
# Chains of aliases

A declared alias whose target resolves leads to another declared name (`AliasStep`), and to no more
than one. So from each name there is one chain of such steps. It ends at a declared name that is no
alias, or at an alias whose target leads out of the graph, or it runs into a loop, since there are
only so many names.

`Chases` is the walk along the chain with a record of the names that it looks at, and without a
bound on its steps. Each walk comes to an end (`exists_chases`), looks at no more names than are
declared and one (`Chases.length_le`), and comes to what `followAliases` gives
(`Chases.followAliases_eq`). That a walk that starts on a loop comes back to its first name, and not
to another, is seen from the number of steps that are left to that name, which only ever gets
smaller (`exists_chases_back`). `followAliases_along_chain` puts the ends of the chains together.
-/

namespace GoAtlas.TypeGraph

open Relation (ReflTransGen TransGen)

variable {g : TypeGraph} {a b c e : String} {target : Reference} {seen more log others : List String}
  {r s : Except String String}

/-! ## Steps -/

/-- One step of a chain: a declared alias leads to the declared name that its target resolves to. -/
def AliasStep (g : TypeGraph) (a b : String) : Prop :=
  ∃ d target, g.find? a = some d ∧ d.shape = .aliasType target ∧ g.resolve target = .declared b

/-- A declared alias has a target that leads out of the graph. -/
def LeadsOut (g : TypeGraph) (a : String) (target : Reference) : Prop :=
  ∃ d reason, g.find? a = some d ∧ d.shape = .aliasType target ∧ g.resolve target = .external reason

/-- The chain from a name never ends. -/
def NeverEnds (g : TypeGraph) (a : String) : Prop :=
  ∀ b, ReflTransGen g.AliasStep a b → ∃ c, g.AliasStep b c

/-- The first name on the chain from a name that lies on a loop: the name itself if it does, or else
that on the chain from the next name. -/
inductive EntersLoop (g : TypeGraph) : String → String → Prop
  | here {a : String} : TransGen g.AliasStep a a → EntersLoop g a a
  | step {a b e : String} : ¬ TransGen g.AliasStep a a → g.AliasStep a b → EntersLoop g b e →
      EntersLoop g a e

/-- A name has one step at most. -/
theorem AliasStep.unique (hb : g.AliasStep a b) (hc : g.AliasStep a c) : b = c := by
  obtain ⟨d, target, hd, hshape, hresolve⟩ := hb
  obtain ⟨d', target', hd', hshape', hresolve'⟩ := hc
  obtain rfl := Option.some.inj (hd.symm.trans hd')
  obtain rfl := Shape.aliasType.inj (hshape.symm.trans hshape')
  exact Resolution.declared.inj (hresolve.symm.trans hresolve')

theorem AliasStep.mem_names (h : g.AliasStep a b) : b ∈ g.names := by
  obtain ⟨d, target, -, -, hresolve⟩ := h
  exact (resolve_eq_declared_iff.mp hresolve).2

theorem AliasStep.source_mem_names (h : g.AliasStep a b) : a ∈ g.names := by
  obtain ⟨d, target, hd, -⟩ := h
  exact mem_names_of_find? hd

theorem IsPlain.not_aliasStep (h : g.IsPlain a) : ¬ g.AliasStep a b := by
  rintro ⟨d, target, hd, hshape, -⟩
  obtain ⟨d', hd', hplain⟩ := h
  obtain rfl := Option.some.inj (hd.symm.trans hd')
  exact hplain target hshape

theorem LeadsOut.not_aliasStep (h : g.LeadsOut a target) : ¬ g.AliasStep a b := by
  obtain ⟨d, reason, hd, hshape, hresolve⟩ := h
  rintro ⟨d', target', hd', hshape', hresolve'⟩
  obtain rfl := Option.some.inj (hd.symm.trans hd')
  obtain rfl := Shape.aliasType.inj (hshape.symm.trans hshape')
  rw [hresolve] at hresolve'
  cases hresolve'

/-- What a name can be: not declared, declared and no alias, an alias that leads out of the graph,
or one that leads on. -/
theorem alias_cases (g : TypeGraph) (a : String) :
    a ∉ g.names ∨ g.IsPlain a ∨ (∃ target, g.LeadsOut a target) ∨ ∃ b, g.AliasStep a b := by
  rcases hd : g.find? a with _ | d
  · exact Or.inl (find?_eq_none_iff.mp hd)
  · refine Or.inr ?_
    by_cases halias : ∃ target, d.shape = .aliasType target
    · obtain ⟨target, hshape⟩ := halias
      rcases hresolve : g.resolve target with b | reason
      · exact Or.inr (Or.inr ⟨b, d, target, hd, hshape, hresolve⟩)
      · exact Or.inr (Or.inl ⟨target, d, reason, hd, hshape, hresolve⟩)
    · exact Or.inl ⟨d, hd, fun target hshape => halias ⟨target, hshape⟩⟩

/-! ## Loops -/

/-- The names after one that lies on a loop lie on it too. -/
theorem loop_of_reflTransGen (ha : TransGen g.AliasStep a a) (h : ReflTransGen g.AliasStep a b) :
    TransGen g.AliasStep b b := by
  induction h with
  | refl => exact ha
  | tail _ hstep ih =>
    obtain ⟨next, hnext, hback⟩ := TransGen.head'_iff.mp ih
    obtain rfl := hnext.unique hstep
    exact .tail' hback hstep

theorem neverEnds_of_loop (h : TransGen g.AliasStep a a) : g.NeverEnds a := by
  intro b hb
  obtain ⟨c, hc, -⟩ := TransGen.head'_iff.mp (loop_of_reflTransGen h hb)
  exact ⟨c, hc⟩

theorem EntersLoop.neverEnds (h : g.EntersLoop a e) : g.NeverEnds a := by
  induction h with
  | here hloop => exact neverEnds_of_loop hloop
  | step _ hstep _ ih =>
    intro b hb
    rcases hb.cases_head with rfl | ⟨next, hnext, hb⟩
    · exact ⟨_, hstep⟩
    · obtain rfl := hnext.unique hstep
      exact ih b hb

theorem EntersLoop.reaches (h : g.EntersLoop a e) : ReflTransGen g.AliasStep a e := by
  induction h with
  | here => exact .refl
  | step _ hstep _ ih => exact ih.head hstep

theorem EntersLoop.loop (h : g.EntersLoop a e) : TransGen g.AliasStep e e := by
  induction h with
  | here hloop => exact hloop
  | step _ _ _ ih => exact ih

/-- A chain that comes to a name on a loop has a first such name. -/
theorem exists_entersLoop (h : ReflTransGen g.AliasStep a b) (hb : TransGen g.AliasStep b b) :
    ∃ e, g.EntersLoop a e := by
  induction h using ReflTransGen.head_induction_on with
  | refl => exact ⟨b, .here hb⟩
  | @head a next hstep _ ih =>
    obtain ⟨e, he⟩ := ih
    by_cases hloop : TransGen g.AliasStep a a
    · exact ⟨a, .here hloop⟩
    · exact ⟨e, .step hloop hstep he⟩

/-! ## The walk along a chain -/

/-- The walk along the chain from a name when the names in `seen` have been passed: the names that
it looks at, in order, and what it comes to. -/
inductive Chases (g : TypeGraph) :
    List String → String → List String → Except String String → Prop
  | again {seen : List String} {a : String} : a ∈ seen → Chases g seen a [a] (.error a)
  | undeclared {seen : List String} {a : String} : a ∉ seen → a ∉ g.names →
      Chases g seen a [a] (.error a)
  | plain {seen : List String} {a : String} : a ∉ seen → g.IsPlain a → Chases g seen a [a] (.ok a)
  | out {seen : List String} {a : String} {target : Reference} : a ∉ seen → g.LeadsOut a target →
      Chases g seen a [a] (.error target.display)
  | step {seen log : List String} {a b : String} {r : Except String String} : a ∉ seen →
      g.AliasStep a b → Chases g (a :: seen) b log r → Chases g seen a (a :: log) r

theorem chase_of_aliasStep (hstep : g.AliasStep a b) (ha : a ∉ seen) (fuel : Nat) :
    g.chase (fuel + 1) seen a = g.chase fuel (a :: seen) b := by
  obtain ⟨d, target, hd, hshape, hresolve⟩ := hstep
  rw [chase, if_neg (mt List.contains_iff_mem.mp ha), hd]
  dsimp only
  rw [hshape]
  dsimp only
  rw [hresolve]

theorem chase_of_leadsOut (hout : g.LeadsOut a target) (ha : a ∉ seen) (fuel : Nat) :
    g.chase (fuel + 1) seen a = .error target.display := by
  obtain ⟨d, reason, hd, hshape, hresolve⟩ := hout
  rw [chase, if_neg (mt List.contains_iff_mem.mp ha), hd]
  dsimp only
  rw [hshape]
  dsimp only
  rw [hresolve]

/-- **A walk with a bound** on its steps comes to what the walk comes to, if the bound leaves room
for all the names that are looked at. -/
theorem Chases.chase_eq (h : g.Chases seen a log r) {fuel : Nat} (hfuel : log.length ≤ fuel) :
    g.chase fuel seen a = r := by
  induction h generalizing fuel with
  | again hmem =>
    obtain ⟨fuel, rfl⟩ := Nat.exists_eq_add_of_le' hfuel
    rw [List.length_singleton, chase, if_pos (List.contains_iff_mem.mpr hmem)]
  | undeclared hmem hnone =>
    obtain ⟨fuel, rfl⟩ := Nat.exists_eq_add_of_le' hfuel
    rw [List.length_singleton, chase, if_neg (mt List.contains_iff_mem.mp hmem),
      find?_eq_none_iff.mpr hnone]
  | plain hmem hplain =>
    obtain ⟨fuel, rfl⟩ := Nat.exists_eq_add_of_le' hfuel
    exact chase_succ_eq_ok_iff.mpr ⟨hmem, Or.inl ⟨rfl, hplain⟩⟩
  | out hmem hout =>
    obtain ⟨fuel, rfl⟩ := Nat.exists_eq_add_of_le' hfuel
    exact chase_of_leadsOut hout hmem fuel
  | step hmem hstep _ ih =>
    rw [List.length_cons] at hfuel
    obtain ⟨fuel, rfl⟩ := Nat.exists_eq_add_of_le' (Nat.le_trans (Nat.le_add_left 1 _) hfuel)
    rw [chase_of_aliasStep hstep hmem]
    exact ih (Nat.le_of_add_le_add_right hfuel)

/-- **A walk looks at** no more names than are declared and not yet passed, and one. -/
theorem Chases.length_le_countP (h : g.Chases seen a log r) :
    log.length ≤ g.names.countP (fun x => x ∉ seen) + 1 := by
  induction h with
  | again | undeclared | plain | out => exact Nat.le_add_left 1 _
  | step hmem hstep _ ih =>
    have hlt := Walk.countP_not_mem_lt hstep.source_mem_names hmem
    rw [List.length_cons]
    omega

theorem Chases.length_le (h : g.Chases [] a log r) : log.length ≤ g.declarations.length + 1 := by
  have hle := h.length_le_countP
  have hall : g.names.countP (fun x => x ∉ ([] : List String)) ≤ g.names.length :=
    List.countP_le_length
  rw [length_names] at hall
  omega

theorem Chases.followAliases_eq (h : g.Chases [] a log r) : g.followAliases a = r :=
  h.chase_eq h.length_le

/-- **Each walk comes to an end**: with every step there is one name less that has not been
passed. -/
theorem exists_chases (g : TypeGraph) : ∀ {n : Nat} {seen : List String} {a : String},
    g.names.countP (fun x => x ∉ seen) ≤ n → ∃ log r, g.Chases seen a log r := by
  intro n
  induction n with
  | zero =>
    intro seen a hn
    by_cases hmem : a ∈ seen
    · exact ⟨_, _, .again hmem⟩
    · -- all declared names have been passed, so this one is not declared
      refine ⟨_, _, .undeclared hmem fun hname => ?_⟩
      have hlt := Walk.countP_not_mem_lt hname hmem
      omega
  | succ n ih =>
    intro seen a hn
    by_cases hmem : a ∈ seen
    · exact ⟨_, _, .again hmem⟩
    · rcases g.alias_cases a with hnone | hplain | ⟨target, hout⟩ | ⟨b, hstep⟩
      · exact ⟨_, _, .undeclared hmem hnone⟩
      · exact ⟨_, _, .plain hmem hplain⟩
      · exact ⟨_, _, .out hmem hout⟩
      · have hlt := Walk.countP_not_mem_lt hstep.source_mem_names hmem
        obtain ⟨log, r, hrest⟩ := @ih (a :: seen) b (by omega)
        exact ⟨_, _, .step hmem hstep hrest⟩

/-- There is one walk from a name. -/
theorem Chases.unique (h : g.Chases seen a log r) (h' : g.Chases seen a others s) :
    others = log ∧ s = r := by
  have hsame : s = r := by
    rw [← h.chase_eq (Nat.le_max_left log.length others.length),
      h'.chase_eq (Nat.le_max_right log.length others.length)]
  refine ⟨?_, hsame⟩
  clear hsame
  induction h generalizing others with
  | again hmem =>
    cases h' with
    | again | undeclared | plain | out => rfl
    | step hmem' => exact absurd hmem hmem'
  | undeclared hmem hnone =>
    cases h' with
    | again | undeclared | plain | out => rfl
    | step _ hstep => exact absurd hstep.source_mem_names hnone
  | plain _ hplain =>
    cases h' with
    | again | undeclared | plain | out => rfl
    | step _ hstep => exact absurd hstep hplain.not_aliasStep
  | out _ hout =>
    cases h' with
    | again | undeclared | plain | out => rfl
    | step _ hstep => exact absurd hstep hout.not_aliasStep
  | step hmem hstep _ ih =>
    cases h' with
    | again hmem' => exact absurd hmem' hmem
    | undeclared _ hnone => exact absurd hstep.source_mem_names hnone
    | plain _ hplain => exact absurd hstep hplain.not_aliasStep
    | out _ hout => exact absurd hstep hout.not_aliasStep
    | step _ hstep' hrest =>
      obtain rfl := hstep.unique hstep'
      rw [ih hrest]

/-- Only those of the names that have been passed count that the chain can come to. -/
theorem Chases.congr (h : g.Chases seen a log r)
    (hsame : ∀ x, ReflTransGen g.AliasStep a x → (x ∈ more ↔ x ∈ seen)) :
    g.Chases more a log r := by
  induction h generalizing more with
  | again hmem => exact .again ((hsame _ .refl).mpr hmem)
  | undeclared hmem hnone => exact .undeclared (mt (hsame _ .refl).mp hmem) hnone
  | plain hmem hplain => exact .plain (mt (hsame _ .refl).mp hmem) hplain
  | out hmem hout => exact .out (mt (hsame _ .refl).mp hmem) hout
  | step hmem hstep _ ih =>
    refine .step (mt (hsame _ .refl).mp hmem) hstep (ih fun x hx => ?_)
    rw [List.mem_cons, List.mem_cons, hsame x (hx.head hstep)]

/-! ## Where the walk comes to -/

/-- **Off the loops** a step does not change where the walk comes to, since the chain does not come
back to the name that has been passed. -/
theorem followAliases_of_aliasStep (hstep : g.AliasStep a b) (ha : ¬ TransGen g.AliasStep a a) :
    g.followAliases a = g.followAliases b := by
  obtain ⟨log, r, h⟩ : ∃ log r, g.Chases [] b log r := g.exists_chases le_rfl
  have hpassed : g.Chases [a] b log r := by
    refine h.congr fun x hx => ?_
    rw [List.mem_singleton]
    refine ⟨?_, fun hnil => absurd hnil List.not_mem_nil⟩
    rintro rfl
    exact absurd (TransGen.head' hstep hx) ha
  rw [h.followAliases_eq, (Chases.step List.not_mem_nil hstep hpassed).followAliases_eq]

/-- One name leads to another in a number of steps. -/
inductive AliasSteps (g : TypeGraph) : Nat → String → String → Prop
  | zero {a : String} : AliasSteps g 0 a a
  | succ {k : Nat} {a b c : String} : g.AliasStep a b → AliasSteps g k b c →
      AliasSteps g (k + 1) a c

theorem exists_aliasSteps (h : ReflTransGen g.AliasStep a b) : ∃ k, g.AliasSteps k a b := by
  induction h using ReflTransGen.head_induction_on with
  | refl => exact ⟨0, .zero⟩
  | head hstep _ ih =>
    obtain ⟨k, hk⟩ := ih
    exact ⟨k + 1, .succ hstep hk⟩

/-- **The walk back** to a name that has been passed. The fewest steps to that name from where the
walk is are fewer than from any other name that it has passed, so it comes to none of these before.
-/
theorem exists_chases_back {k : Nat} (ha : a ∈ seen) (hk : g.AliasSteps k c a)
    (hleast : ∀ j < k, ¬ g.AliasSteps j c a)
    (hpassed : ∀ x ∈ seen, x ≠ a → ∀ j ≤ k, ¬ g.AliasSteps j x a) :
    ∃ log, g.Chases seen c log (.error a) := by
  induction k generalizing seen c with
  | zero =>
    cases hk
    exact ⟨_, .again ha⟩
  | succ k ih =>
    have hne : c ≠ a := by
      rintro rfl
      exact hleast 0 (Nat.succ_pos k) .zero
    have hmem : c ∉ seen := fun hmem => hpassed c hmem hne (k + 1) le_rfl hk
    obtain ⟨_, hstep, hrest⟩ : ∃ b, g.AliasStep c b ∧ g.AliasSteps k b a := by
      cases hk with
      | succ hstep hrest => exact ⟨_, hstep, hrest⟩
    obtain ⟨log, hlog⟩ := ih (List.mem_cons_of_mem c ha) hrest
      (fun j hj hj' => hleast (j + 1) (Nat.succ_lt_succ hj) (.succ hstep hj'))
      (by
        intro x hx hxa j hj
        rcases List.mem_cons.mp hx with rfl | hx
        · exact hleast j (Nat.lt_succ_of_le hj)
        · exact hpassed x hx hxa j (Nat.le_succ_of_le hj))
    exact ⟨_, .step hmem hstep hlog⟩

/-- **On a loop** the walk comes back to the name that it starts from. -/
theorem followAliases_of_loop (h : TransGen g.AliasStep a a) : g.followAliases a = .error a := by
  classical
  obtain ⟨b, hstep, hback⟩ := TransGen.head'_iff.mp h
  have hsteps := exists_aliasSteps hback
  obtain ⟨log, hlog⟩ := exists_chases_back (List.mem_singleton_self a) (Nat.find_spec hsteps)
    (fun _ => Nat.find_min hsteps)
    (fun x hx hne => absurd (List.mem_singleton.mp hx) hne)
  exact (Chases.step List.not_mem_nil hstep hlog).followAliases_eq

/-- A name with a chain that ends is on no loop. -/
theorem not_loop_of_reflTransGen (h : ReflTransGen g.AliasStep a b) (hb : ∀ c, ¬ g.AliasStep b c) :
    ¬ TransGen g.AliasStep a a := by
  intro hloop
  obtain ⟨c, hc⟩ := neverEnds_of_loop hloop b h
  exact hb c hc

/-- Along a chain that ends, the walk comes to the same from each name. -/
theorem followAliases_of_reflTransGen (h : ReflTransGen g.AliasStep a b)
    (hb : ∀ c, ¬ g.AliasStep b c) : g.followAliases a = g.followAliases b := by
  induction h using ReflTransGen.head_induction_on with
  | refl => rfl
  | head hstep hrest ih =>
    rw [followAliases_of_aliasStep hstep (not_loop_of_reflTransGen (hrest.head hstep) hb), ih]

theorem followAliases_of_leadsOut (h : g.LeadsOut a target) :
    g.followAliases a = .error target.display :=
  (Chases.out List.not_mem_nil h).followAliases_eq

theorem followAliases_of_not_mem (h : a ∉ g.names) : g.followAliases a = .error a :=
  (Chases.undeclared List.not_mem_nil h).followAliases_eq

theorem followAliases_of_entersLoop (h : g.EntersLoop a e) : g.followAliases a = .error e := by
  induction h with
  | here hloop => exact followAliases_of_loop hloop
  | step hne hstep _ ih => rw [followAliases_of_aliasStep hstep hne, ih]

/-- **A walk ends** where the chain ends, or on a loop. -/
theorem Chases.ends (h : g.Chases seen a log r) (hseen : ∀ x ∈ seen, TransGen g.AliasStep x a) :
    ∃ b, ReflTransGen g.AliasStep a b ∧
      (b ∉ g.names ∨ g.IsPlain b ∨ (∃ target, g.LeadsOut b target) ∨
        TransGen g.AliasStep b b) := by
  induction h with
  | again hmem => exact ⟨_, .refl, Or.inr (Or.inr (Or.inr (hseen _ hmem)))⟩
  | undeclared _ hnone => exact ⟨_, .refl, Or.inl hnone⟩
  | plain _ hplain => exact ⟨_, .refl, Or.inr (Or.inl hplain)⟩
  | out _ hout => exact ⟨_, .refl, Or.inr (Or.inr (Or.inl ⟨_, hout⟩))⟩
  | step _ hstep _ ih =>
    obtain ⟨b, hb, hend⟩ := ih fun x hx => by
      rcases List.mem_cons.mp hx with rfl | hx
      · exact .single hstep
      · exact (hseen x hx).tail hstep
    exact ⟨b, hb.head hstep, hend⟩

/-- Only the first name of a chain can be undeclared. -/
theorem eq_of_reflTransGen_of_not_mem (h : ReflTransGen g.AliasStep a b) (hb : b ∉ g.names) :
    b = a := by
  rcases h.cases_tail with rfl | ⟨c, -, hstep⟩
  · rfl
  · exact absurd hstep.mem_names hb

/-- **How a chain goes**: its first name is not declared, or it comes to a declared name that is no
alias, to an alias that leads out of the graph, or to a loop. -/
theorem chain_cases (g : TypeGraph) (a : String) :
    a ∉ g.names ∨ (∃ b, ReflTransGen g.AliasStep a b ∧ g.IsPlain b) ∨
      (∃ b target, ReflTransGen g.AliasStep a b ∧ g.LeadsOut b target) ∨
        ∃ e, g.EntersLoop a e := by
  obtain ⟨log, r, h⟩ : ∃ log r, g.Chases [] a log r := g.exists_chases le_rfl
  obtain ⟨b, hb, hnone | hplain | ⟨target, hout⟩ | hloop⟩ := h.ends fun _ hx => nomatch hx
  · exact Or.inl (eq_of_reflTransGen_of_not_mem hb hnone ▸ hnone)
  · exact Or.inr (Or.inl ⟨b, hb, hplain⟩)
  · exact Or.inr (Or.inr (Or.inl ⟨b, target, hb, hout⟩))
  · exact Or.inr (Or.inr (Or.inr (exists_entersLoop hb hloop)))

theorem followAliases_of_isPlain_of_reflTransGen (h : ReflTransGen g.AliasStep a b)
    (hb : g.IsPlain b) : g.followAliases a = .ok b := by
  rw [followAliases_of_reflTransGen h fun _ => hb.not_aliasStep, followAliases_of_isPlain hb]

theorem followAliases_of_leadsOut_of_reflTransGen (h : ReflTransGen g.AliasStep a b)
    (hb : g.LeadsOut b target) : g.followAliases a = .error target.display := by
  rw [followAliases_of_reflTransGen h fun _ => hb.not_aliasStep, followAliases_of_leadsOut hb]

/-- **A chain is followed to its end** exactly when it comes to a declared name that is no alias. -/
theorem followAliases_eq_ok_iff : g.followAliases a = .ok b ↔
    ReflTransGen g.AliasStep a b ∧ g.IsPlain b := by
  refine ⟨fun h => ?_, fun ⟨hb, hplain⟩ => followAliases_of_isPlain_of_reflTransGen hb hplain⟩
  rcases g.chain_cases a with hnone | ⟨c, hc, hplain⟩ | ⟨c, target, hc, hout⟩ | ⟨e, he⟩
  · rw [followAliases_of_not_mem hnone] at h
    cases h
  · rw [followAliases_of_isPlain_of_reflTransGen hc hplain] at h
    obtain rfl := Except.ok.inj h
    exact ⟨hc, hplain⟩
  · rw [followAliases_of_leadsOut_of_reflTransGen hc hout] at h
    cases h
  · rw [followAliases_of_entersLoop he] at h
    cases h

/-- A chain never ends exactly when it comes to a loop. -/
theorem neverEnds_iff : g.NeverEnds a ↔ ∃ e, g.EntersLoop a e := by
  refine ⟨fun h => ?_, fun ⟨_, he⟩ => he.neverEnds⟩
  rcases g.chain_cases a with hnone | ⟨b, hb, hplain⟩ | ⟨b, target, hb, hout⟩ | hloop
  · obtain ⟨b, hstep⟩ := h a .refl
    exact absurd hstep.source_mem_names hnone
  · obtain ⟨c, hstep⟩ := h b hb
    exact absurd hstep hplain.not_aliasStep
  · obtain ⟨c, hstep⟩ := h b hb
    exact absurd hstep hout.not_aliasStep
  · exact hloop

/-- **A chain cannot be followed** exactly when its first name is not declared, it leads out of the
graph, or it comes to a loop; and this tells what could not be followed. -/
theorem followAliases_eq_error_iff {text : String} : g.followAliases a = .error text ↔
    (a ∉ g.names ∧ text = a) ∨
      (∃ b target, ReflTransGen g.AliasStep a b ∧ g.LeadsOut b target ∧ text = target.display) ∨
        g.EntersLoop a text := by
  constructor
  · intro h
    rcases g.chain_cases a with hnone | ⟨c, hc, hplain⟩ | ⟨c, target, hc, hout⟩ | ⟨e, he⟩
    · rw [followAliases_of_not_mem hnone] at h
      exact Or.inl ⟨hnone, (Except.error.inj h).symm⟩
    · rw [followAliases_of_isPlain_of_reflTransGen hc hplain] at h
      cases h
    · rw [followAliases_of_leadsOut_of_reflTransGen hc hout] at h
      exact Or.inr (Or.inl ⟨c, target, hc, hout, (Except.error.inj h).symm⟩)
    · rw [followAliases_of_entersLoop he] at h
      obtain rfl := Except.error.inj h
      exact Or.inr (Or.inr he)
  · rintro (⟨hnone, rfl⟩ | ⟨b, target, hb, hout, rfl⟩ | hloop)
    · exact followAliases_of_not_mem hnone
    · exact followAliases_of_leadsOut_of_reflTransGen hb hout
    · exact followAliases_of_entersLoop hloop

/-- **Following aliases**, for every graph and every name. The chain of aliases is followed to a
name exactly when it comes to that name and the name is declared and no alias. Otherwise the name
itself is told if it is not declared, the target that leads out of the graph if the chain comes to
one, and the first name on a loop if the chain never ends. So off the loops one step makes no
difference, and on a loop each name is told of itself. -/
theorem followAliases_along_chain (g : TypeGraph) (a : String) :
    (∀ b, g.followAliases a = .ok b ↔ ReflTransGen g.AliasStep a b ∧ g.IsPlain b) ∧
      (∀ b, g.followAliases a = .ok b → g.followAliases b = .ok b) ∧
      (∀ text, g.followAliases a = .error text ↔
        (a ∉ g.names ∧ text = a) ∨
          (∃ b target, ReflTransGen g.AliasStep a b ∧ g.LeadsOut b target ∧
            text = target.display) ∨
          g.EntersLoop a text) ∧
      (g.NeverEnds a ↔ ∃ e, g.EntersLoop a e) ∧
      (∀ b, g.AliasStep a b → ¬ TransGen g.AliasStep a a →
        g.followAliases a = g.followAliases b) ∧
      (TransGen g.AliasStep a a → g.followAliases a = .error a) := by
  refine ⟨fun _ => followAliases_eq_ok_iff, fun b h => ?_, fun _ => followAliases_eq_error_iff,
    neverEnds_iff, fun _ => followAliases_of_aliasStep, followAliases_of_loop⟩
  exact followAliases_of_isPlain (isPlain_of_followAliases h)

/-- Three aliases: `A` of `B`, and `B` and `C` of each other. -/
def aliasedLoop : TypeGraph :=
  let renamed (name target : String) : Declaration :=
    { name
      doc := none
      typeParams := none
      isAlias := true
      position := default
      shape := .aliasType (.named none target false) }
  ofParts [renamed "A" "B", renamed "B" "C", renamed "C" "B"] []

/-- The loop is entered at `B`, and the name told of `A` is that of `B`. -/
theorem followAliases_along_chain_aliasedLoop :
    aliasedLoop.AliasStep "A" "B" ∧ ¬ TransGen aliasedLoop.AliasStep "A" "A" ∧
      TransGen aliasedLoop.AliasStep "B" "B" ∧ aliasedLoop.followAliases "B" = .error "B" ∧
        aliasedLoop.followAliases "A" = aliasedLoop.followAliases "B" := by
  have hstep : aliasedLoop.AliasStep "A" "B" := ⟨_, _, rfl, rfl, rfl⟩
  have hloop : TransGen aliasedLoop.AliasStep "B" "B" :=
    .tail (.single ⟨_, _, rfl, rfl, rfl⟩) (b := "C") ⟨_, _, rfl, rfl, rfl⟩
  obtain ⟨-, -, -, -, hstepA, hloopA⟩ := followAliases_along_chain aliasedLoop "A"
  obtain ⟨-, -, -, -, -, hloopB⟩ := followAliases_along_chain aliasedLoop "B"
  have hoff : ¬ TransGen aliasedLoop.AliasStep "A" "A" := by
    intro h
    have htold : aliasedLoop.followAliases "A" = .error "B" := by decide
    rw [hloopA h] at htold
    exact absurd htold (by decide)
  exact ⟨hstep, hoff, hloop, hloopB hloop, hstepA "B" hstep hoff⟩

end GoAtlas.TypeGraph
