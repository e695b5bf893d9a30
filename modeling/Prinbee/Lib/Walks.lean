import Mathlib.Data.List.Chain
import Mathlib.Logic.Relation

/-!
# Walks of bounded length

A search that follows every edge from a node and gives up at a depth succeeds when the walks from
that node are short.  Then no cycle can be reached from it: a walk around a cycle has no bound.

## Main definitions

* `Walks.Bounded next n a` — every walk from `a` has fewer than `n` nodes after `a`.

## Main results

* `Walks.bounded_succ` — the bound of a node is that of the nodes after it, and one more.
* `Walks.Bounded.acyclic` — no cycle can be reached.
-/

namespace Walks

variable {α : Type*} {next : α → α → Prop} {n : ℕ} {a b : α}

/-- Every walk from `a` has fewer than `n` nodes after `a`. -/
def Bounded (next : α → α → Prop) (n : ℕ) (a : α) : Prop :=
  ∀ walk, (a :: walk).IsChain next → walk.length < n

theorem not_bounded_zero : ¬ Bounded next 0 a :=
  fun h => Nat.not_lt_zero _ (h [] (.singleton a))

/-- **The bound of a node is that of the nodes after it, and one more.** -/
theorem bounded_succ : Bounded next (n + 1) a ↔ ∀ b, next a b → Bounded next n b := by
  constructor
  · intro h b hab walk hwalk
    exact Nat.lt_of_succ_lt_succ (h (b :: walk) (.cons_cons hab hwalk))
  · intro h walk hwalk
    cases hwalk with
    | singleton => exact Nat.succ_pos n
    | cons_cons hab hrest => exact Nat.succ_lt_succ (h _ hab _ hrest)

/-- A bound is kept along a walk. -/
theorem Bounded.reach (h : Bounded next n a) (hab : Relation.ReflTransGen next a b) :
    ∃ m, Bounded next m b := by
  induction hab with
  | refl => exact ⟨n, h⟩
  | tail _ hbc ih =>
    obtain ⟨m, hm⟩ := ih
    cases m with
    | zero => exact absurd hm not_bounded_zero
    | succ m => exact ⟨m, bounded_succ.1 hm _ hbc⟩

/-- There is no bound on a cycle: the induction goes around it. -/
theorem not_bounded_of_cycle (h : Relation.TransGen next a a) (n : ℕ) : ¬ Bounded next n a := by
  induction n generalizing a with
  | zero => exact not_bounded_zero
  | succ n ih =>
    intro hn
    obtain ⟨b, hab, hba⟩ := Relation.TransGen.head'_iff.1 h
    exact ih (Relation.TransGen.tail' hba hab) (bounded_succ.1 hn b hab)

/-- **No cycle can be reached.** -/
theorem Bounded.acyclic (h : Bounded next n a) (hab : Relation.ReflTransGen next a b) :
    ¬ Relation.TransGen next b b := by
  intro hcycle
  obtain ⟨m, hm⟩ := h.reach hab
  exact not_bounded_of_cycle hcycle m hm

end Walks
