import GoAtlas.Proofs.Graph.Aliases
import GoAtlas.View.Flattened
import Mathlib.Data.List.Shortlex
import Mathlib.Logic.Relation
import Mathlib.Order.Bounds.Basic

/-!
# Chains of embeddings

The flattened view of a struct goes along chains of embeddings, in which each embedding is followed
through aliases to the declaration at their end (`Expands`). A chain is told by the ranks of its
embeddings, each among the embeddings of the type that owns it (`Chain.unique`).

Shorter chains come first, and of two chains of one length the one that has the smaller rank where
they part. In this order (`Earlier`) a type has at most one first chain (`IsFirstChain.unique`), and
that is one of its shortest (`IsFirstChain.isDistance`).
-/

namespace GoAtlas.TypeGraph

open Relation (ReflTransGen)

/-! ## The order of chains -/

section Order

variable {ranks others more : List Nat} {r s : Nat}

/-- The ranks of a chain come earlier than those of another: they are fewer, or as many and smaller
where they part. -/
def Earlier : List Nat → List Nat → Prop :=
  List.Shortlex (· < ·)

/-- An earlier chain is a shorter one, or one of the same length that is earlier at the first
difference. -/
theorem earlier_iff : Earlier ranks others ↔
    ranks.length < others.length ∨
      ranks.length = others.length ∧ List.Lex (· < ·) ranks others :=
  List.shortlex_def

theorem Earlier.length_le (h : Earlier ranks others) : ranks.length ≤ others.length := by
  rcases earlier_iff.mp h with hlt | ⟨heq, -⟩
  · exact Nat.le_of_lt hlt
  · exact Nat.le_of_eq heq

theorem Earlier.trans (h : Earlier ranks others) (h' : Earlier others more) :
    Earlier ranks more := by
  have hle := h.length_le
  have hle' := h'.length_le
  rcases earlier_iff.mp h with hlt | ⟨heq, hlex⟩
  · exact earlier_iff.mpr (Or.inl (by omega))
  · rcases earlier_iff.mp h' with hlt' | ⟨heq', hlex'⟩
    · exact earlier_iff.mpr (Or.inl (by omega))
    · exact earlier_iff.mpr
        (Or.inr ⟨heq.trans heq', List.lex_trans (fun h h' => Nat.lt_trans h h') hlex hlex'⟩)

theorem Earlier.asymm (h : Earlier ranks others) : ¬ Earlier others ranks :=
  Std.Asymm.asymm (r := List.Shortlex (· < ·)) _ _ h

theorem Earlier.irrefl : ¬ Earlier ranks ranks :=
  fun h => h.asymm h

/-- Lists of one length that part do so whatever follows. -/
theorem lex_append_of_length_eq {xs ys us vs : List Nat} (hlength : xs.length = ys.length)
    (h : List.Lex (· < ·) xs ys) : List.Lex (· < ·) (xs ++ us) (ys ++ vs) := by
  induction h with
  | nil => cases hlength
  | cons _ ih => exact .cons (ih (Nat.succ.inj hlength))
  | rel h => exact .rel h

/-- One more embedding on each side keeps the order, whatever its rank. -/
theorem Earlier.snoc (h : Earlier ranks others) : Earlier (ranks ++ [r]) (others ++ [s]) := by
  rw [earlier_iff, List.length_append, List.length_append]
  rcases earlier_iff.mp h with hlt | ⟨heq, hlex⟩
  · exact Or.inl (Nat.add_lt_add_right hlt 1)
  · exact Or.inr ⟨congrArg (· + 1) heq, lex_append_of_length_eq heq hlex⟩

/-- The smaller rank of the last embedding comes first. -/
theorem earlier_snoc_of_lt (h : r < s) : Earlier (ranks ++ [r]) (ranks ++ [s]) := by
  refine earlier_iff.mpr (Or.inr ⟨by rw [List.length_append, List.length_append]; rfl, ?_⟩)
  exact List.Lex.append_left _ (.rel h) ranks

end Order

/-! ## Chains -/

variable {g : TypeGraph} {root x y : String} {ranks others : List Nat} {via viaOthers : List String}

/-- One type is expanded to another: it owns an embedding that resolves to a declared name, and the
aliases from this name lead to the other type. -/
def Expands (g : TypeGraph) (x y : String) : Prop :=
  ∃ e ∈ g.embeddingsFrom x, ∃ name, g.resolve e.target = .declared name ∧
    g.followAliases name = .ok y

/-- A chain of embeddings from `root`: the ranks of the embeddings, the names that they resolve to,
and the type at the end. -/
inductive Chain (g : TypeGraph) (root : String) : List Nat → List String → String → Prop
  | nil : Chain g root [] [] root
  | snoc {ranks : List Nat} {via : List String} {x : String} {r : Nat} {e : Embedding}
      {name y : String} : Chain g root ranks via x → (g.embeddingsFrom x)[r]? = some e →
      g.resolve e.target = .declared name → g.followAliases name = .ok y →
      Chain g root (ranks ++ [r]) (via ++ [name]) y

/-- A chain is the first to its type. -/
structure IsFirstChain (g : TypeGraph) (root y : String) (ranks : List Nat) (via : List String) :
    Prop where
  chain : g.Chain root ranks via y
  first : ∀ {others viaOthers}, g.Chain root others viaOthers y →
    ranks = others ∨ Earlier ranks others

/-- The length of the shortest chains to a type. -/
def IsDistance (g : TypeGraph) (root y : String) (k : Nat) : Prop :=
  IsLeast {k | ∃ ranks via, g.Chain root ranks via y ∧ ranks.length = k} k

/-- What an embedding leads to, in two steps. -/
theorem embedded_eq_ok_iff {e : Embedding} {name : String} :
    g.embedded e = .ok (name, y) ↔
      g.resolve e.target = .declared name ∧ g.followAliases name = .ok y := by
  rw [embedded]
  split
  · rename_i reason hresolve
    rw [hresolve]
    simp
  · rename_i declared hresolve
    rw [hresolve, Resolution.declared.injEq]
    split
    · rename_i last hlast
      rw [Except.ok.injEq, Prod.mk.injEq]
      constructor
      · rintro ⟨rfl, rfl⟩
        exact ⟨rfl, hlast⟩
      · rintro ⟨rfl, hy⟩
        exact ⟨rfl, Except.ok.inj (hlast.symm.trans hy)⟩
    · rename_i text htext
      constructor
      · intro h
        cases h
      · rintro ⟨rfl, hy⟩
        rw [htext] at hy
        cases hy

/-- A chain from a declared name that is no alias leads to such a name. -/
theorem Chain.isPlain (h : g.Chain root ranks via y) (hroot : g.IsPlain root) : g.IsPlain y := by
  cases h with
  | nil => exact hroot
  | snoc _ _ _ hfollow => exact isPlain_of_followAliases hfollow

/-- Inversion for chains, by their ranks. -/
theorem Chain.inv (h : g.Chain root ranks via y) : (ranks = [] ∧ via = [] ∧ y = root) ∨
    ∃ before passed x r e name, ranks = before ++ [r] ∧ via = passed ++ [name] ∧
      g.Chain root before passed x ∧ (g.embeddingsFrom x)[r]? = some e ∧
      g.resolve e.target = .declared name ∧ g.followAliases name = .ok y := by
  cases h with
  | nil => exact Or.inl ⟨rfl, rfl, rfl⟩
  | snoc hchain hrank hresolve hfollow =>
    exact Or.inr ⟨_, _, _, _, _, _, rfl, rfl, hchain, hrank, hresolve, hfollow⟩

/-- The ranks of a chain tell everything else about it. -/
theorem Chain.unique (h : g.Chain root ranks via x) (h' : g.Chain root ranks viaOthers y) :
    via = viaOthers ∧ x = y := by
  induction h generalizing viaOthers y with
  | nil =>
    rcases h'.inv with ⟨-, rfl, rfl⟩ | ⟨before, passed, z, r, e, name, hranks, -⟩
    · exact ⟨rfl, rfl⟩
    · exact absurd hranks.symm (by simp)
  | snoc _ hrank hresolve hfollow ih =>
    rcases h'.inv with ⟨hranks, -⟩ | ⟨before, passed, z, r, e, name, hranks, rfl, hchain, hrest⟩
    · exact absurd hranks (by simp)
    · -- both chains end with the embedding of one rank of one type
      obtain ⟨rfl, hr⟩ := List.append_inj' hranks rfl
      obtain rfl := List.singleton_injective hr
      obtain ⟨rfl, rfl⟩ := ih hchain
      obtain ⟨hrank', hresolve', hfollow'⟩ := hrest
      obtain rfl := Option.some.inj (hrank.symm.trans hrank')
      obtain rfl := Resolution.declared.inj (hresolve.symm.trans hresolve')
      exact ⟨rfl, Except.ok.inj (hfollow.symm.trans hfollow')⟩

/-- **There are chains** to the types that are expanded to, in any number of steps. -/
theorem exists_chain_iff : (∃ ranks via, g.Chain root ranks via y) ↔
    ReflTransGen g.Expands root y := by
  constructor
  · rintro ⟨ranks, via, h⟩
    induction h with
    | nil => exact .refl
    | snoc _ hrank hresolve hfollow ih =>
      exact ih.tail ⟨_, List.mem_of_getElem? hrank, _, hresolve, hfollow⟩
  · intro h
    induction h with
    | refl => exact ⟨[], [], .nil⟩
    | tail _ hstep ih =>
      obtain ⟨ranks, via, hchain⟩ := ih
      obtain ⟨e, he, name, hresolve, hfollow⟩ := hstep
      obtain ⟨r, hr⟩ := List.mem_iff_getElem?.mp he
      exact ⟨_, _, hchain.snoc hr hresolve hfollow⟩

/-! ## First chains -/

/-- A type has one first chain. -/
theorem IsFirstChain.unique (h : g.IsFirstChain root y ranks via)
    (h' : g.IsFirstChain root y others viaOthers) : ranks = others ∧ via = viaOthers := by
  have hranks : ranks = others := by
    rcases h.first h'.chain with heq | hlt
    · exact heq
    · rcases h'.first h.chain with heq | hlt'
      · exact heq.symm
      · exact absurd hlt' hlt.asymm
  subst hranks
  exact ⟨rfl, (h.chain.unique h'.chain).1⟩

/-- The first chain to a type is as long as the type is far. -/
theorem IsFirstChain.isDistance (h : g.IsFirstChain root y ranks via) :
    g.IsDistance root y ranks.length := by
  refine ⟨⟨ranks, via, h.chain, rfl⟩, ?_⟩
  rintro k ⟨others, viaOthers, hchain, rfl⟩
  rcases h.first hchain with heq | hlt
  · rw [heq]
  · exact hlt.length_le

theorem IsFirstChain.length_eq {k : Nat} (h : g.IsFirstChain root y ranks via)
    (hk : g.IsDistance root y k) : ranks.length = k :=
  h.isDistance.unique hk

end GoAtlas.TypeGraph
