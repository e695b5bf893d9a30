import Mathlib.Data.List.MinMax
import Mathlib.Data.Set.Insert

/-!
# Traversing a container that changes

A container whose elements are ordered by their keys is traversed with an iterator that stays where
it is when other elements are added or removed.  The iterator is the key of its element, or `⊤` at
the end.

## Main definitions

* `Traversal.first`, `Traversal.next` — the iterator at the start, and behind an element.
* `Traversal.Follows` — the invariant of a traversal.

## Main results

* `Traversal.Follows.read`, `Traversal.Follows.add`, `Traversal.Follows.remove`,
  `Traversal.Follows.rewind` — what the operations keep.
* `Traversal.Follows.finished` — at the end everything that was there at the start was read.
-/

namespace Traversal

variable {ι κ : Type*} [LinearOrder κ]

/-- The iterator at the start of a container with these keys. -/
def first (keys : List κ) : WithTop κ := keys.minimum

/-- The iterator behind the element with the key `k`. -/
def next (keys : List κ) (k : κ) : WithTop κ := (keys.filter (k < ·)).minimum

variable {keys : List κ} {k : κ}

theorem first_le (hk : k ∈ keys) : first keys ≤ k := List.minimum_le_of_mem' hk

theorem mem_of_first (h : first keys = k) : k ∈ keys := List.minimum_mem h

theorem next_le {j : κ} (hk : k ∈ keys) (hlt : j < k) : next keys j ≤ k :=
  List.minimum_le_of_mem' (List.mem_filter.2 ⟨hk, decide_eq_true hlt⟩)

theorem mem_of_next {j : κ} (h : next keys j = k) : k ∈ keys ∧ j < k := by
  obtain ⟨hk, hlt⟩ := List.mem_filter.1 (List.minimum_mem h)
  exact ⟨hk, of_decide_eq_true hlt⟩

theorem lt_of_next_le {j : κ} (h : next keys j ≤ k) : j < k := by
  obtain ⟨k', heq⟩ := WithTop.ne_top_iff_exists.1 (ne_top_of_le_ne_top WithTop.coe_ne_top h)
  rw [← heq] at h
  exact (mem_of_next heq.symm).2.trans_le (WithTop.coe_le_coe.1 h)

/-- The elements that are `start` at the start of a traversal are read in order: those that were not
read are in the container, not before the iterator.  `seen` are those that were read and are
still there. -/
structure Follows (key : ι → κ) (start live : Set ι) (it : WithTop κ) (returned : List ι)
    (seen : Set ι) : Prop where
  present : ∀ k : κ, it = k → ∃ i ∈ live, key i = k
  unread : ∀ i ∈ start, i ∉ returned → i ∈ live ∧ it ≤ key i
  fresh : ∀ i ∈ live, it ≤ key i → i ∉ seen
  seen_subset : seen ⊆ live
  ordered : ∀ i ∈ start, i ∉ returned → ∀ j ∈ returned, j ∈ start → key j < key i

variable {key : ι → κ} {start live : Set ι} {it : WithTop κ} {returned : List ι} {seen : Set ι}

/-- The keys of the elements. -/
def IsKeys (key : ι → κ) (live : Set ι) (keys : List κ) : Prop :=
  ∀ k, k ∈ keys ↔ ∃ i ∈ live, key i = k

theorem follows_start (hkeys : IsKeys key live keys) :
    Follows key live live (first keys) [] ∅ where
  present k h := (hkeys k).1 (mem_of_first h)
  unread i hi _ := ⟨hi, first_le ((hkeys _).2 ⟨i, hi, rfl⟩)⟩
  fresh _ _ _ := Set.notMem_empty _
  seen_subset := Set.empty_subset _
  ordered _ _ _ _ hj := absurd hj List.not_mem_nil

theorem Follows.finished (h : Follows key start live ⊤ returned seen) :
    ∀ i ∈ start, i ∈ returned := by
  intro i hi
  by_contra hnot
  exact absurd (h.unread i hi hnot).2 (not_le.2 (WithTop.coe_lt_top _))

/-- An element is read; what was not is behind it. -/
theorem Follows.read (h : Follows key start live k returned seen) (hinj : Set.InjOn key live)
    (hkeys : IsKeys key live keys) {i : ι} (hi : i ∈ live) (hk : key i = k) :
    Follows key start live (next keys k) (returned ++ [i]) (insert i seen) where
  present j hj := (hkeys j).1 (mem_of_next hj).1
  unread j hj hnot := by
    obtain ⟨hnotIn, hne⟩ := not_or.1 (mt List.mem_append.2 hnot)
    obtain ⟨hlive, hle⟩ := h.unread j hj hnotIn
    refine ⟨hlive, next_le ((hkeys _).2 ⟨j, hlive, rfl⟩) (lt_of_le_of_ne ?_ ?_)⟩
    · exact WithTop.coe_le_coe.1 hle
    · rw [← hk]
      exact fun heq => hne (List.mem_singleton.2 (hinj hlive hi heq.symm))
  fresh j hj hle := by
    have hlt := lt_of_next_le hle
    rintro (rfl | hseen)
    · exact hlt.ne' hk
    · exact h.fresh j hj (WithTop.coe_le_coe.2 hlt.le) hseen
  seen_subset := Set.insert_subset hi h.seen_subset
  ordered j hj hnot m hm hstart := by
    obtain ⟨hnotIn, hne⟩ := not_or.1 (mt List.mem_append.2 hnot)
    rcases List.mem_append.1 hm with hm | hm
    · exact h.ordered j hj hnotIn m hm hstart
    · obtain ⟨hlive, hle⟩ := h.unread j hj hnotIn
      rw [List.mem_singleton.1 hm, hk]
      refine lt_of_le_of_ne (WithTop.coe_le_coe.1 hle) fun heq => ?_
      exact hne (List.mem_singleton.2 (hinj hlive hi (heq.symm.trans hk.symm)))

/-- The element that is read was not read since it is there. -/
theorem Follows.notMem_seen (h : Follows key start live k returned seen) {i : ι} (hi : i ∈ live)
    (hk : key i = k) : i ∉ seen := h.fresh i hi (WithTop.coe_le_coe.2 hk.ge)

theorem Follows.add (h : Follows key start live it returned seen) {i : ι} (hi : i ∉ live) :
    Follows key start (insert i live) it returned seen where
  present k hk := by
    obtain ⟨j, hj, heq⟩ := h.present k hk
    exact ⟨j, Set.mem_insert_of_mem i hj, heq⟩
  unread j hj hnot := ⟨Set.mem_insert_of_mem i (h.unread j hj hnot).1, (h.unread j hj hnot).2⟩
  fresh j hj hle := by
    rcases hj with rfl | hj
    · exact fun hseen => hi (h.seen_subset hseen)
    · exact h.fresh j hj hle
  seen_subset := h.seen_subset.trans (Set.subset_insert i live)
  ordered := h.ordered

/-- An element that was read may be removed. -/
theorem Follows.remove (h : Follows key start live it returned seen) {i : ι} (hi : i ∈ seen) :
    Follows key start (live \ {i}) it returned (seen \ {i}) where
  present k hk := by
    obtain ⟨j, hj, heq⟩ := h.present k hk
    refine ⟨j, ⟨hj, ?_⟩, heq⟩
    rintro rfl
    exact h.fresh j hj (by rw [hk, heq]) hi
  unread j hj hnot := by
    obtain ⟨hlive, hle⟩ := h.unread j hj hnot
    refine ⟨⟨hlive, ?_⟩, hle⟩
    rintro rfl
    exact h.fresh j hlive hle hi
  fresh j hj hle hseen := h.fresh j hj.1 hle hseen.1
  seen_subset _ hj := ⟨h.seen_subset hj.1, hj.2⟩
  ordered := h.ordered

/-- The iterator may go back to the start when nothing that was read is still there. -/
theorem Follows.rewind (h : Follows key start live it returned seen)
    (hkeys : IsKeys key live keys) (hseen : ∀ i ∈ live, i ∉ seen) :
    Follows key start live (first keys) returned seen where
  present k hk := (hkeys k).1 (mem_of_first hk)
  unread i hi hnot := by
    obtain ⟨hlive, -⟩ := h.unread i hi hnot
    exact ⟨hlive, first_le ((hkeys _).2 ⟨i, hlive, rfl⟩)⟩
  fresh i hi _ := hseen i hi
  seen_subset := h.seen_subset
  ordered := h.ordered

end Traversal
