import Mathlib.Data.List.Basic
import Mathlib.Tactic.Common

/-!
# Linked lists in memory

Memory is a function from addresses to words.  A node of a list is an address; its two links
are the words at the fixed distances `n` and `p` from it, and the address 0 ends a list.  A list
may also be linked forward only.

## Main definitions

* `LinkedList.Chain mem n a l` — the nodes of `l` are linked forward in this order, from `a` on.

* `LinkedList.Links mem n p before l` — the nodes of `l` are linked in this order, the first one
  back to `before`.
* `LinkedList.first l` — the first node, or 0.

## Main results

* `LinkedList.chain_range'` — nodes at equal distances.
* `LinkedList.Links.relink` — a list whose first node is linked back to somewhere else.
* `LinkedList.Links.cons` — a node put in front of a list.
-/

namespace LinkedList

variable {mem mem' : ℕ → ℕ} {n p before before' : ℕ} {l : List ℕ}

/-- The first node of a list, or the null address. -/
def first (l : List ℕ) : ℕ := l.headD 0

@[simp] theorem first_nil : first [] = 0 := rfl

@[simp] theorem first_cons (a : ℕ) (l : List ℕ) : first (a :: l) = a := rfl

/-- The nodes of `l` follow one another from the address `a`. -/
def Chain (mem : ℕ → ℕ) (n : ℕ) : ℕ → List ℕ → Prop
  | a, [] => a = 0
  | a, b :: l => a = b ∧ Chain mem n (mem (b + n)) l

/-- Memory that keeps the links of the nodes keeps the list. -/
theorem Chain.congr {a : ℕ} (h : Chain mem n a l) (hmem : ∀ b ∈ l, mem' (b + n) = mem (b + n)) :
    Chain mem' n a l := by
  induction l generalizing a with
  | nil => exact h
  | cons b l ih =>
    refine ⟨h.1, ?_⟩
    rw [hmem b List.mem_cons_self]
    exact ih h.2 fun c hc => hmem c (List.mem_cons_of_mem b hc)

/-- The nodes are determined by the links. -/
theorem Chain.unique {a : ℕ} {l' : List ℕ} (h : Chain mem n a l) (h' : Chain mem n a l')
    (hl : 0 ∉ l) (hl' : 0 ∉ l') : l = l' := by
  induction l generalizing a l' with
  | nil =>
    cases l' with
    | nil => rfl
    | cons b l' => exact absurd (h.symm.trans h'.1 ▸ List.mem_cons_self) hl'
  | cons b l ih =>
    cases l' with
    | nil => exact absurd (Eq.symm h' |>.trans h.1 ▸ List.mem_cons_self) hl
    | cons c l' =>
      obtain rfl : b = c := h.1.symm.trans h'.1
      rw [List.mem_cons, not_or] at hl hl'
      rw [ih h.2 h'.2 hl.2 hl'.2]

/-- Nodes at equal distances, linked one to the next. -/
theorem chain_range' {f : ℕ → ℕ} (k : ℕ) {i a : ℕ} (ha : a = if k = 0 then 0 else f i)
    (hmem : ∀ j, i ≤ j → j < i + k → mem (f j + n) = if j + 1 = i + k then 0 else f (j + 1)) :
    Chain mem n a ((List.range' i k).map f) := by
  induction k generalizing i a with
  | zero => exact ha
  | succ k ih =>
    rw [List.range'_succ, List.map_cons]
    refine ⟨ha, ih ?_ fun j hj hlt => ?_⟩
    · rw [hmem i (Nat.le_refl i) (by omega)]
      by_cases hk : k = 0
      · rw [if_pos (by omega), if_pos hk]
      · rw [if_neg (by omega), if_neg hk]
    · rw [hmem j (by omega) (by omega)]
      by_cases hlast : j + 1 = i + 1 + k
      · rw [if_pos (by omega), if_pos hlast]
      · rw [if_neg (by omega), if_neg hlast]

/-- The nodes of `l` are linked one to the next and back, the first one back to `before`. -/
def Links (mem : ℕ → ℕ) (n p : ℕ) : ℕ → List ℕ → Prop
  | _, [] => True
  | before, a :: l => mem (a + n) = first l ∧ mem (a + p) = before ∧ Links mem n p a l

/-- Memory that keeps the links of the nodes keeps the list. -/
theorem Links.congr (h : Links mem n p before l)
    (hmem : ∀ a ∈ l, mem' (a + n) = mem (a + n) ∧ mem' (a + p) = mem (a + p)) :
    Links mem' n p before l := by
  induction l generalizing before with
  | nil => trivial
  | cons a l ih =>
    obtain ⟨hn, hp, hl⟩ := h
    obtain ⟨hn', hp'⟩ := hmem a (by simp)
    exact ⟨hn'.trans hn, hp'.trans hp, ih hl fun b hb => hmem b (by simp [hb])⟩

/-- Only the back link of the first node changes. -/
theorem Links.relink (h : Links mem n p before l)
    (hn : ∀ a ∈ l, mem' (a + n) = mem (a + n)) (hfirst : ∀ a ∈ l.head?, mem' (a + p) = before')
    (htail : ∀ a ∈ l.tail, mem' (a + p) = mem (a + p)) : Links mem' n p before' l := by
  cases l with
  | nil => trivial
  | cons a l =>
    obtain ⟨hna, -, hl⟩ := h
    refine ⟨(hn a (by simp)).trans hna, hfirst a (by simp), hl.congr fun b hb => ?_⟩
    exact ⟨hn b (by simp [hb]), htail b (by simpa using hb)⟩

/-- A node put in front of a list. -/
theorem Links.cons {a : ℕ} (h : Links mem n p before l) (ha : mem' (a + n) = first l)
    (hb : mem' (a + p) = before') (hn : ∀ b ∈ l, mem' (b + n) = mem (b + n))
    (hfirst : ∀ b ∈ l.head?, mem' (b + p) = a)
    (htail : ∀ b ∈ l.tail, mem' (b + p) = mem (b + p)) : Links mem' n p before' (a :: l) :=
  ⟨ha, hb, h.relink hn hfirst htail⟩

/-- The list without its first node. -/
theorem Links.tail {a : ℕ} (h : Links mem n p before (a :: l)) : Links mem n p a l := h.2.2

end LinkedList
