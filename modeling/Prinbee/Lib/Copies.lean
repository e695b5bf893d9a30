import Mathlib.Logic.Function.Basic
import Mathlib.Tactic.Common

/-!
# Copies of a versioned value

Each node holds a copy of a value that has a version, or none.  The copies agree when two nodes that
hold the same version hold the same value.  A node that is the only one to write makes its version
greater each time it writes another value, so the copies agree.

## Main definitions

* `Copies`, `Copies.Agree` — what the nodes hold, and their agreement.
* `Copies.Written` — only one node holds something else than what they all started with.

## Main results

* `Copies.Written.agree` — the copies agree when only one node has written.
* `Copies.Written.write` — that node writes once more.
-/

/-- What each node holds: a version and its value, or nothing. -/
abbrev Copies (ι δ : Type*) := ι → Option (ℕ × δ)

namespace Copies

variable {ι δ : Type*} {start : Option (ℕ × δ)} {x : Copies ι δ} {a : ι}

/-- **Agreement**: two nodes that hold the same version hold the same value. -/
def Agree (x : Copies ι δ) : Prop :=
  ∀ a b v d d', x a = some (v, d) → x b = some (v, d') → d = d'

/-- All the nodes but one hold what they started with; that one may be at a later version. -/
structure Written (start : Option (ℕ × δ)) (x : Copies ι δ) (a : ι) : Prop where
  others : ∀ b, b ≠ a → x b = start
  ahead : ∀ v₀ d₀, start = some (v₀, d₀) → ∃ v d, x a = some (v, d) ∧ v₀ ≤ v ∧
    (v = v₀ → ∀ b, b ≠ a → d = d₀)

theorem written_start (h : ∀ b, x b = start) : Written start x a where
  others b _ := h b
  ahead v₀ d₀ hstart := ⟨v₀, d₀, (h a).trans hstart, Nat.le_refl v₀, fun _ _ _ => rfl⟩

/-- **The copies agree** when only one node has written. -/
theorem Written.agree (h : Written start x a) : Agree x := by
  -- the writer and another node
  have hpair : ∀ b v d d', b ≠ a → x a = some (v, d) → x b = some (v, d') → d = d' := by
    intro b v d d' hb ha hother
    rw [h.others b hb] at hother
    obtain ⟨v₁, d₁, hsame, -, hvalue⟩ := h.ahead v d' hother
    rw [ha] at hsame
    cases hsame
    exact hvalue rfl b hb
  intro b c v d d' hb hc
  by_cases hba : b = a
  · subst hba
    by_cases hca : c = b
    · subst hca
      rw [hb] at hc
      cases hc
      rfl
    · exact hpair c v d d' hca hb hc
  · by_cases hca : c = a
    · subst hca
      exact (hpair b v d' d hba hc hb).symm
    · rw [h.others b hba] at hb
      rw [h.others c hca, hb] at hc
      cases hc
      rfl

/-- A node may write when the others hold what they started with. -/
theorem Written.writer (h : Written start x a) {b : ι} (hb : ∀ c, c ≠ b → x c = start) :
    Written start x b := by
  by_cases hab : a = b
  · exact hab ▸ h
  · refine written_start fun c => ?_
    by_cases hc : c = b
    · exact h.others c fun hca => hab (hca.symm.trans hc)
    · exact hb c hc

variable [DecidableEq ι]

/-- **The writer writes once more**: its version does not decrease, and its value stays the same
under a version that another node holds. -/
theorem Written.write (h : Written start x a) {y : Option (ℕ × δ)}
    (hy : ∀ v d, x a = some (v, d) → ∃ v' d', y = some (v', d') ∧ v ≤ v' ∧
      (v' = v → (∃ b, b ≠ a ∧ ∃ d₁, x b = some (v, d₁)) → d' = d)) :
    Written start (Function.update x a y) a where
  others b hb := by
    rw [Function.update_of_ne hb]
    exact h.others b hb
  ahead v₀ d₀ hstart := by
    obtain ⟨v, d, ha, hle, hvalue⟩ := h.ahead v₀ d₀ hstart
    obtain ⟨v', d', hto, hle', hsame⟩ := hy v d ha
    refine ⟨v', d', by rw [Function.update_self, hto], Nat.le_trans hle hle', fun heq b hb => ?_⟩
    have hv : v = v₀ := Nat.le_antisymm (heq ▸ hle') hle
    have hother : x b = some (v, d₀) := by rw [h.others b hb, hstart, hv]
    rw [hsame (heq.trans hv.symm) ⟨b, hb, d₀, hother⟩]
    exact hvalue hv b hb

end Copies
