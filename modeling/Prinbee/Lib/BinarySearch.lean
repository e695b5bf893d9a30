import Mathlib.Order.Interval.Set.Basic
import Mathlib.Order.Monotone.Defs

/-!
# Binary search

A search by halves in a table sorted in decreasing order.  An element is greater than the one that
is searched for when it comes before it.

## Main definitions

* `BinarySearch.search` — the search, given how each element compares with the one searched for.

## Main results

* `BinarySearch.search_eq_some` — what is found is equal.
* `BinarySearch.search_of_sorted` — an element is found when those before it are greater and those
  after it are lower.
* `BinarySearch.search_of_increasing` — in a table sorted the other way, only the middle is found.
* `BinarySearch.search_iff` — all the elements are found exactly when the table is sorted.
-/

namespace BinarySearch

/-- The index that is found from `i` on and below `j`. -/
def search (cmp : ℕ → Ordering) (i j : ℕ) : Option ℕ :=
  if i < j then
    let p := (j - i) / 2 + i
    match cmp p with
    | .gt => search cmp (p + 1) j
    | .lt => search cmp i p
    | .eq => some p
  else none
termination_by j - i

/-- What is found is equal. -/
theorem search_eq_some {cmp : ℕ → Ordering} {i j p : ℕ} (h : search cmp i j = some p) :
    i ≤ p ∧ p < j ∧ cmp p = .eq := by
  fun_induction search cmp i j with
  | case1 i j hlt q hcmp ih =>
    obtain ⟨hi, hj, heq⟩ := ih h
    exact ⟨by omega, hj, heq⟩
  | case2 i j hlt q hcmp ih =>
    obtain ⟨hi, hj, heq⟩ := ih h
    exact ⟨hi, by omega, heq⟩
  | case3 i j hlt q hcmp =>
    obtain rfl := Option.some.inj h
    exact ⟨by omega, by omega, hcmp⟩
  | case4 => cases h

/-- An element is found when those before it are greater and those after it are lower. -/
theorem search_of_sorted {cmp : ℕ → Ordering} {i j m : ℕ} (hi : i ≤ m) (hj : m < j)
    (hbefore : ∀ p, i ≤ p → p < m → cmp p = .gt) (heq : cmp m = .eq)
    (hafter : ∀ p, m < p → p < j → cmp p = .lt) : search cmp i j = some m := by
  fun_induction search cmp i j with
  | case1 i j hlt q hcmp ih =>
    -- neither the element nor one after it is greater
    have hq : q < m := by
      by_contra hge
      rcases Nat.lt_or_eq_of_le (Nat.not_lt.1 hge) with hmq | rfl
      · rw [hafter q hmq (by omega)] at hcmp
        cases hcmp
      · rw [heq] at hcmp
        cases hcmp
    exact ih hq hj (fun p hp => hbefore p (by omega)) hafter
  | case2 i j hlt q hcmp ih =>
    have hq : m < q := by
      by_contra hge
      rcases Nat.lt_or_eq_of_le (Nat.not_lt.1 hge) with hqm | rfl
      · rw [hbefore q (by omega) hqm] at hcmp
        cases hcmp
      · rw [heq] at hcmp
        cases hcmp
    exact ih hi hq hbefore (fun p hp hlt => hafter p hp (by omega))
  | case3 i j hlt q hcmp =>
    rcases Nat.lt_trichotomy q m with h | h | h
    · rw [hbefore q (by omega) h] at hcmp
      cases hcmp
    · rw [h]
    · rw [hafter q h (by omega)] at hcmp
      cases hcmp
  | case4 => omega

/-- In a table sorted the other way, the element in the middle is the only one that is found: the
search of any other goes to the wrong half. -/
theorem search_of_increasing {cmp : ℕ → Ordering} {i j m : ℕ} (hi : i ≤ m) (hj : m < j)
    (hbefore : ∀ p, i ≤ p → p < m → cmp p = .lt) (heq : cmp m = .eq)
    (hafter : ∀ p, m < p → p < j → cmp p = .gt) :
    search cmp i j = if m = (j - i) / 2 + i then some m else none := by
  rw [search, if_pos (hi.trans_lt hj)]
  dsimp only
  rcases Nat.lt_trichotomy ((j - i) / 2 + i) m with h | h | h
  · rw [hbefore _ (by omega) h, if_neg h.ne']
    cases hsearch : search cmp i ((j - i) / 2 + i) with
    | none => rfl
    | some p =>
      obtain ⟨hip, hlt, hp⟩ := search_eq_some hsearch
      rw [hbefore p hip (hlt.trans h)] at hp
      cases hp
  · rw [h, heq, if_pos rfl]
  · rw [hafter _ h (by omega), if_neg h.ne]
    cases hsearch : search cmp ((j - i) / 2 + i + 1) j with
    | none => rfl
    | some p =>
      obtain ⟨hip, hlt, hp⟩ := search_eq_some hsearch
      rw [hafter p (by omega) hlt] at hp
      cases hp

section

variable {κ : Type} [LinearOrder κ] {f : ℕ → κ}

/-- A table is sorted if all its elements are found. -/
theorem sorted_of_search {i j : ℕ}
    (h : ∀ m, i ≤ m → m < j → search (fun p => compare (f p) (f m)) i j = some m) {a b : ℕ}
    (hia : i ≤ a) (hab : a < b) (hbj : b < j) : f b < f a := by
  induction hn : j - i using Nat.strong_induction_on generalizing i j a b with
  | _ n ih =>
    subst hn
    have hlt : i < j := by omega
    obtain ⟨p, hp⟩ : ∃ p, p = (j - i) / 2 + i := ⟨_, rfl⟩
    -- the search of an element goes to the half it is in
    have hstep (m : ℕ) (hm : i ≤ m) (hmj : m < j) :
        (m < p → f p < f m ∧ search (fun p => compare (f p) (f m)) i p = some m) ∧
          (p < m → f m < f p ∧ search (fun p => compare (f p) (f m)) (p + 1) j = some m) := by
      have hsearch := h m hm hmj
      rw [search, if_pos hlt] at hsearch
      dsimp only at hsearch
      rw [← hp] at hsearch
      split at hsearch
      · next hcmp =>
        have hle := (search_eq_some hsearch).1
        exact ⟨fun hmp => absurd hle (by omega), fun _ => ⟨compare_gt_iff_gt.1 hcmp, hsearch⟩⟩
      · next hcmp =>
        have hle := (search_eq_some hsearch).2.1
        exact ⟨fun _ => ⟨compare_lt_iff_lt.1 hcmp, hsearch⟩, fun hmp => absurd hle (by omega)⟩
      · obtain rfl := Option.some.inj hsearch
        exact ⟨fun hmp => absurd hmp (lt_irrefl _), fun hmp => absurd hmp (lt_irrefl _)⟩
    have hbelow {a b : ℕ} (hia : i ≤ a) (hab : a < b) (hbp : b < p) : f b < f a := by
      apply ih (p - i) (by omega) _ hia hab hbp rfl
      intro m hm hmp
      exact ((hstep m hm (by omega)).1 hmp).2
    have habove {a b : ℕ} (hpa : p < a) (hab : a < b) (hbj : b < j) : f b < f a := by
      apply ih (j - (p + 1)) (by omega) _ hpa hab hbj rfl
      intro m hm hmj
      exact ((hstep m (by omega) hmj).2 hm).2
    rcases Nat.lt_trichotomy b p with hbp | rfl | hpb
    · exact hbelow hia hab hbp
    · exact ((hstep a hia (by omega)).1 hab).1
    · have hpivot := ((hstep b (by omega) hbj).2 hpb).1
      rcases Nat.lt_trichotomy a p with hap | rfl | hpa
      · exact hpivot.trans ((hstep a hia (by omega)).1 hap).1
      · exact hpivot
      · exact habove hpa hab hbj

/-- **All the elements are found exactly when the table is sorted.** -/
theorem search_iff {i j : ℕ} :
    (∀ m, i ≤ m → m < j → search (fun p => compare (f p) (f m)) i j = some m) ↔
      StrictAntiOn f (Set.Ico i j) := by
  constructor
  · intro h a ha b hb hab
    exact sorted_of_search h ha.1 hab hb.2
  · intro h m him hmj
    apply search_of_sorted him hmj
    · intro p hip hpm
      exact compare_gt_iff_gt.2 (h ⟨hip, hpm.trans hmj⟩ ⟨him, hmj⟩ hpm)
    · exact compare_eq_iff_eq.2 rfl
    · intro p hmp hpj
      exact compare_lt_iff_lt.2 (h ⟨him, hmj⟩ ⟨him.trans hmp.le, hpj⟩ hmp)

end

end BinarySearch
