import Mathlib.Tactic.Common

/-!
# Nested comments

A comment that nests: a pair of symbols opens one more level, the reversed pair closes one, and
the pairs are found from left to right, without overlap.

## Main definitions

* `NestedComment.after` — what stands behind the end of a comment.
* `NestedComment.holdsEmpty` — a comment holds an opening pair directly followed by a closing one.

## Main results

* `NestedComment.scan_cases` — a text starts with a pair, or with a symbol that is skipped.
* `NestedComment.after_suffix` — what stands behind a comment is an end of the text.
-/

namespace NestedComment

variable {α : Type} [DecidableEq α] (a b : α)

/-- What stands behind the end of a comment; `a b` opens a level, `b a` closes one. -/
def after : ℕ → List α → Option (List α)
  | _, [] => none
  | _, [_] => none
  | level, c :: d :: cs =>
    if c = a ∧ d = b then after (level + 1) cs
    else if c = b ∧ d = a then if level ≤ 1 then some cs else after (level - 1) cs
    else after level (d :: cs)

/-- A comment holds an empty comment. -/
def holdsEmpty : ℕ → List α → Bool
  | _, [] => false
  | _, [_] => false
  | level, c :: d :: cs =>
    if c = a ∧ d = b then cs.take 2 = [b, a] || holdsEmpty (level + 1) cs
    else if c = b ∧ d = a then if level ≤ 1 then false else holdsEmpty (level - 1) cs
    else holdsEmpty level (d :: cs)

variable {a b} {level : ℕ} {cs : List α}

/-- The text does not start with a pair. -/
def Skipped (a b : α) (c : α) (cs : List α) : Prop :=
  ¬ (c = a ∧ cs.head? = some b) ∧ ¬ (c = b ∧ cs.head? = some a)

theorem scan_cases (cs : List α) :
    cs = [] ∨ (∃ ds, cs = a :: b :: ds) ∨ (∃ ds, cs = b :: a :: ds) ∨
      ∃ c ds, cs = c :: ds ∧ Skipped a b c ds := by
  cases cs with
  | nil => exact Or.inl rfl
  | cons c cs =>
    by_cases ho : c = a ∧ cs.head? = some b
    · obtain ⟨ds, rfl⟩ := List.head?_eq_some_iff.1 ho.2
      exact Or.inr (Or.inl ⟨ds, by rw [ho.1]⟩)
    by_cases hc : c = b ∧ cs.head? = some a
    · obtain ⟨ds, rfl⟩ := List.head?_eq_some_iff.1 hc.2
      exact Or.inr (Or.inr (Or.inl ⟨ds, by rw [hc.1]⟩))
    exact Or.inr (Or.inr (Or.inr ⟨c, cs, rfl, ho, hc⟩))

/-! ### The end of a comment -/

theorem after_cons_cons {c d : α} : after a b level (c :: d :: cs) =
    if c = a ∧ d = b then after a b (level + 1) cs
    else if c = b ∧ d = a then if level ≤ 1 then some cs else after a b (level - 1) cs
    else after a b level (d :: cs) := rfl

theorem after_open : after a b level (a :: b :: cs) = after a b (level + 1) cs := by
  simp [after_cons_cons]

theorem after_close (hab : a ≠ b) (h : 1 < level) :
    after a b level (b :: a :: cs) = after a b (level - 1) cs := by
  simp [after_cons_cons, hab, hab.symm, Nat.not_le.2 h]

theorem after_close_one (hab : a ≠ b) : after a b 1 (b :: a :: cs) = some cs := by
  simp [after_cons_cons, hab, hab.symm]

theorem after_skipped {c : α} (h : Skipped a b c cs) :
    after a b level (c :: cs) = after a b level cs := by
  cases cs with
  | nil => rfl
  | cons d cs =>
    simp only [Skipped, List.head?_cons, Option.some.injEq] at h
    rw [after_cons_cons, if_neg h.1, if_neg h.2]

/-- The comment ends inside the text, behind a closing pair. -/
theorem after_suffix {rest : List α} (h : after a b level cs = some rest) : rest <:+ cs := by
  fun_induction after a b level cs with
  | case1 | case2 => cases h
  | case3 level c d cs _ ih =>
    exact ((ih h).trans (List.suffix_cons d cs)).trans (List.suffix_cons c _)
  | case4 level c d cs =>
    cases h
    exact (List.suffix_cons d _).trans (List.suffix_cons c _)
  | case5 level c d cs _ _ _ ih =>
    exact ((ih h).trans (List.suffix_cons d cs)).trans (List.suffix_cons c _)
  | case6 level c d cs _ _ ih => exact (ih h).trans (List.suffix_cons c _)

/-! ### Empty comments -/

theorem holdsEmpty_cons_cons {c d : α} : holdsEmpty a b level (c :: d :: cs) =
    if c = a ∧ d = b then cs.take 2 = [b, a] || holdsEmpty a b (level + 1) cs
    else if c = b ∧ d = a then if level ≤ 1 then false else holdsEmpty a b (level - 1) cs
    else holdsEmpty a b level (d :: cs) := rfl

theorem holdsEmpty_open :
    holdsEmpty a b level (a :: b :: cs) =
      (decide (cs.take 2 = [b, a]) || holdsEmpty a b (level + 1) cs) := by
  simp [holdsEmpty_cons_cons]

theorem holdsEmpty_close (hab : a ≠ b) (h : 1 < level) :
    holdsEmpty a b level (b :: a :: cs) = holdsEmpty a b (level - 1) cs := by
  simp [holdsEmpty_cons_cons, hab, hab.symm, Nat.not_le.2 h]

theorem holdsEmpty_close_one (hab : a ≠ b) : holdsEmpty a b 1 (b :: a :: cs) = false := by
  simp [holdsEmpty_cons_cons, hab, hab.symm]

theorem holdsEmpty_skipped {c : α} (h : Skipped a b c cs) :
    holdsEmpty a b level (c :: cs) = holdsEmpty a b level cs := by
  cases cs with
  | nil => rfl
  | cons d cs =>
    simp only [Skipped, List.head?_cons, Option.some.injEq] at h
    rw [holdsEmpty_cons_cons, if_neg h.1, if_neg h.2]

end NestedComment
