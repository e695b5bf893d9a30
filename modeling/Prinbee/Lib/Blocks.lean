import Mathlib.Tactic.Common

/-!
# Data taken by blocks

A state is updated with each whole block of the data.  The items that are left over, fewer than a
block, are kept in front of the data that comes next.

## Main definitions

* `Blocks.absorb` — the state after the whole blocks, and what is left over.

## Main results

* `Blocks.absorb_append` — how the data is cut does not matter.
-/

namespace Blocks

variable {σ α : Type} (n : ℕ) (f : σ → List α → σ)

/-- The state after the whole blocks, and what is left over. -/
def absorb (s : σ) (l : List α) : σ × List α :=
  if 0 < n ∧ n ≤ l.length then absorb (f s (l.take n)) (l.drop n) else (s, l)
termination_by l.length
decreasing_by
  rw [List.length_drop]
  omega

variable {n f}

theorem absorb_of_lt (s : σ) {l : List α} (h : l.length < n) : absorb n f s l = (s, l) := by
  rw [absorb, if_neg (by omega)]

theorem absorb_block (hn : 0 < n) (s : σ) {b : List α} (hb : b.length = n) (l : List α) :
    absorb n f s (b ++ l) = absorb n f (f s b) l := by
  rw [absorb, if_pos ⟨hn, by rw [List.length_append]; omega⟩, List.take_left' hb,
    List.drop_left' hb]

theorem length_absorb_lt (hn : 0 < n) (s : σ) (l : List α) : (absorb n f s l).2.length < n := by
  fun_induction absorb n f s l with
  | case1 s l h ih => exact ih
  | case2 s l h =>
    change l.length < n
    omega

theorem length_absorb_le (s : σ) (l : List α) : (absorb n f s l).2.length ≤ l.length := by
  fun_induction absorb n f s l with
  | case1 s l h ih =>
    rw [List.length_drop] at ih
    omega
  | case2 s l h => exact Nat.le_refl _

/-- **How the data is cut does not matter.** -/
theorem absorb_append (s : σ) (l l' : List α) :
    absorb n f s (l ++ l') = absorb n f (absorb n f s l).1 ((absorb n f s l).2 ++ l') := by
  fun_induction absorb n f s l with
  | case1 s l h ih =>
    have hsplit : l ++ l' = l.take n ++ (l.drop n ++ l') := by
      rw [← List.append_assoc, List.take_append_drop]
    rw [hsplit, absorb_block h.1 s (List.length_take_of_le h.2), ih]
  | case2 s l h => rfl

end Blocks
