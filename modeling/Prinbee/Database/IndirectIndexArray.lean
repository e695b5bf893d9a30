import Prinbee.Database.IndirectIndex
import Mathlib.Data.Set.Lattice
import Mathlib.Order.CompletePartialOrder
import Mathlib.Tactic.Ring

/-!
# What the indirect index holds

The blocks of the index are a tree.  `Holds` says that the block at an offset, at some height of
that tree, leads to the references from `base` up to `n`, of which it may hold `count ^ (height + 1)`,
and which blocks it uses for it.  Height and level differ: at any height an `INDR` may stand for a
whole subtree, as long as that one has no more references than fit in it.

## Main definitions

* `OidTable.Holds` — the references a block leads to.

## Main results

* `OidTable.HoldsTind.step` — one more reference under a block.
* `OidTable.findReference_eq` — a reference that is held is found.
-/

namespace Prinbee

namespace OidTable

/-! ### Positions -/

theorem powerLoop_eq {c : ℕ} (l : ℕ) (h : c ^ (l + 1) < 2 ^ 64) (hc : 0 < c) :
    powerLoop c l = c ^ (l + 1) := by
  induction l with
  | zero => rw [powerLoop, Nat.zero_add, Nat.pow_one]
  | succ l ih =>
    have hle : c ^ (l + 1) ≤ c ^ (l + 1 + 1) := Nat.pow_le_pow_right hc (Nat.le_succ _)
    rw [powerLoop, ih (lt_of_le_of_lt hle h), ← Nat.pow_succ, Nat.mod_eq_of_lt h]

/-- The position of row `q * count ^ level + r`, and its number at the next level. -/
theorem tindPosition_eq {c level q r : ℕ} (hc : 0 < c) (hlevel : 0 < level)
    (hpow : c ^ level < 2 ^ 64) (hr : r < c ^ level) :
    tindPosition c level (q * c ^ level + r + 1) =
      .ok (if c ≤ q then none else some q, r + 1) := by
  obtain ⟨l, rfl⟩ := Nat.exists_eq_succ_of_ne_zero hlevel.ne'
  have hpos : 0 < c ^ (l + 1) := Nat.pow_pos hc
  have hdiv : (q * c ^ (l + 1) + r) / c ^ (l + 1) = q := by
    rw [Nat.mul_comm, Nat.mul_add_div hpos, Nat.div_eq_of_lt hr, Nat.add_zero]
  have hmod : (q * c ^ (l + 1) + r) % c ^ (l + 1) = r := by
    rw [Nat.mul_comm, Nat.mul_add_mod, Nat.mod_eq_of_lt hr]
  rw [tindPosition]
  simp only [Nat.succ_eq_add_one, Nat.add_sub_cancel, powerLoop_eq l hpow hc, hpos.ne', if_false,
    sub64_of_le (Nat.le_add_left 1 _), hdiv, hmod]

theorem tindGetReference_eq {c level q r : ℕ} (hc : 0 < c) (hlevel : 0 < level)
    (hpow : c ^ level < 2 ^ 64) (hr : r < c ^ level) (hq : q < c) (refs : ℕ → ℕ)
    (mustExist : Bool) :
    tindGetReference c level refs (q * c ^ level + r + 1) mustExist = .ok (refs q, r + 1) := by
  rw [tindGetReference, tindPosition_eq hc hlevel hpow hr, if_neg (Nat.not_le.2 hq)]
  rfl

/-- The position of a row under a block of height `k + 1`. -/
theorem exists_position {c k base x : ℕ} (hc : 2 ≤ c) (hlo : base ≤ x)
    (hhi : x < base + c ^ (k + 1 + 1)) :
    ∃ q < c, ∃ r < c ^ (k + 1), x = base + (q * c ^ (k + 1) + r) := by
  have hpos : 0 < c ^ (k + 1) := Nat.pow_pos (by omega)
  have hmul : c ^ (k + 1 + 1) = c * c ^ (k + 1) := Nat.pow_succ'
  refine ⟨(x - base) / c ^ (k + 1), (Nat.div_lt_iff_lt_mul hpos).2 (by omega),
    (x - base) % c ^ (k + 1), Nat.mod_lt _ hpos, ?_⟩
  rw [Nat.div_add_mod', Nat.add_sub_cancel' hlo]

/-! ### What a block holds -/

variable {c : ℕ} {F : ℕ → ℕ} {blocks blocks' : ℕ → Option IndexBlock}

/-- The `INDR` block at `off` holds the references from `base` up to `n`. -/
def HoldsIndr (c : ℕ) (F : ℕ → ℕ) (blocks : ℕ → Option IndexBlock) (off base n : ℕ) : Prop :=
  ∃ refs, blocks off = some (.indr refs) ∧ ∀ i < c, base + i < n → refs i = F (base + i)

/-- The `TIND` block at `off` leads to blocks that hold, each one, the next `size` references:
those that have some are in use, and use blocks of their own. -/
structure HoldsTind (c : ℕ) (blocks : ℕ → Option IndexBlock) (holds : ℕ → ℕ → Set ℕ → Prop)
    (level size off base n : ℕ) (refs : ℕ → ℕ) (sub : ℕ → Set ℕ) (S : Set ℕ) : Prop where
  block : blocks off = some (.tind level refs)
  used : ∀ j < c, base + j * size < n → holds (refs j) (base + j * size) (sub j)
  unused : ∀ j < c, n ≤ base + j * size → refs j = nullFileAddr
  own : ∀ j < c, base + j * size < n → off ∉ sub j
  disjoint : ∀ i < c, ∀ j < c, base + i * size < n → base + j * size < n → i ≠ j →
    Disjoint (sub i) (sub j)
  footprint : ∀ x, x ∈ S ↔ x = off ∨ ∃ j < c, base + j * size < n ∧ x ∈ sub j

/-- The block at `off`, at a height of the tree, leads to the references from `base` up to `n`, and
uses the blocks `S`. -/
def Holds (c : ℕ) (F : ℕ → ℕ) (blocks : ℕ → Option IndexBlock) :
    ℕ → ℕ → ℕ → ℕ → Set ℕ → Prop
  | 0, off, base, n, S => HoldsIndr c F blocks off base n ∧ S = {off}
  | k + 1, off, base, n, S =>
    (HoldsIndr c F blocks off base n ∧ n ≤ base + c ∧ S = {off}) ∨
    ∃ refs sub, HoldsTind c blocks (fun r b s => Holds c F blocks k r b n s) (k + 1) (c ^ (k + 1))
      off base n refs sub S

theorem HoldsIndr.congr {off base n : ℕ} (h : HoldsIndr c F blocks off base n)
    (heq : blocks' off = blocks off) : HoldsIndr c F blocks' off base n := by
  obtain ⟨refs, hblock, hrefs⟩ := h
  exact ⟨refs, heq.trans hblock, hrefs⟩

theorem Holds.mem {k off base n : ℕ} {S : Set ℕ} (h : Holds c F blocks k off base n S) :
    off ∈ S := by
  cases k with
  | zero => rw [h.2]; exact Set.mem_singleton off
  | succ k =>
    rcases h with ⟨-, -, hS⟩ | ⟨refs, sub, h⟩
    · rw [hS]; exact Set.mem_singleton off
    · exact (h.footprint off).2 (.inl rfl)

/-- Only the blocks in use matter. -/
theorem Holds.congr {k off base n : ℕ} {S : Set ℕ} (h : Holds c F blocks k off base n S)
    (heq : ∀ x ∈ S, blocks' x = blocks x) : Holds c F blocks' k off base n S := by
  induction k generalizing off base S with
  | zero => exact ⟨h.1.congr (heq off (Holds.mem (k := 0) h)), h.2⟩
  | succ k ih =>
    have hoff : blocks' off = blocks off := heq off (Holds.mem (k := k + 1) h)
    rcases h with ⟨hindr, hn, hS⟩ | ⟨refs, sub, h⟩
    · exact .inl ⟨hindr.congr hoff, hn, hS⟩
    · refine .inr ⟨refs, sub, hoff.trans h.block, fun j hj hlt => ?_, h.unused, h.own, h.disjoint,
        h.footprint⟩
      exact ih (h.used j hj hlt) fun x hx => heq x ((h.footprint x).2 (.inr ⟨j, hj, hlt, hx⟩))

/-- A block that is full holds what it holds when more references follow. -/
theorem Holds.succ_of_full (hc : 2 ≤ c) {k off base n : ℕ} {S : Set ℕ}
    (h : Holds c F blocks k off base n S) (hfull : base + c ^ (k + 1) ≤ n) :
    Holds c F blocks k off base (n + 1) S := by
  induction k generalizing off base S with
  | zero =>
    obtain ⟨⟨refs, hblock, hrefs⟩, hS⟩ := h
    rw [Nat.zero_add, Nat.pow_one] at hfull
    exact ⟨⟨refs, hblock, fun i hi _ => hrefs i hi (by omega)⟩, hS⟩
  | succ k ih =>
    have hmul : c ^ (k + 1 + 1) = c * c ^ (k + 1) := Nat.pow_succ'
    have hpos : 0 < c ^ (k + 1) := Nat.pow_pos (by omega)
    rcases h with ⟨-, hn, -⟩ | ⟨refs, sub, h⟩
    · -- an `INDR` in the place of a subtree cannot be full
      exfalso
      have hge : c * 2 ≤ c * c ^ (k + 1) := by
        refine Nat.mul_le_mul_left c ?_
        calc 2 ≤ c := hc
          _ = c ^ 1 := (Nat.pow_one c).symm
          _ ≤ c ^ (k + 1) := Nat.pow_le_pow_right (by omega) (by omega)
      omega
    · -- all the positions are used, and their blocks are full
      have hlast : ∀ j < c, base + j * c ^ (k + 1) + c ^ (k + 1) ≤ n := fun j hj => by
        have hle : (j + 1) * c ^ (k + 1) ≤ c * c ^ (k + 1) := Nat.mul_le_mul_right _ hj
        rw [Nat.add_mul, Nat.one_mul] at hle
        omega
      have hused : ∀ j < c, base + j * c ^ (k + 1) < n := fun j hj => by
        have := hlast j hj
        omega
      refine .inr ⟨refs, sub, h.block, fun j hj _ => ih (h.used j hj (hused j hj)) (hlast j hj),
        fun j hj hle => ?_, fun j hj _ => h.own j hj (hused j hj),
        fun i hi j hj _ _ hne => h.disjoint i hi j hj (hused i hi) (hused j hj) hne, fun x => ?_⟩
      · have := hused j hj
        omega
      · rw [h.footprint x]
        constructor
        · rintro (hx | ⟨j, hj, hlt, hx⟩)
          · exact .inl hx
          · exact .inr ⟨j, hj, by omega, hx⟩
        · rintro (hx | ⟨j, hj, -, hx⟩)
          · exact .inl hx
          · exact .inr ⟨j, hj, hused j hj, hx⟩

/-- One more reference under a `TIND`: the block at position `q` takes it, or a new one there. -/
theorem HoldsTind.step (hc : 2 ≤ c) {k off base n q r : ℕ} {refs : ℕ → ℕ} {sub : ℕ → Set ℕ}
    {S Sq : Set ℕ}
    (h : HoldsTind c blocks (fun r b s => Holds c F blocks k r b n s) (k + 1) (c ^ (k + 1)) off base
      n refs sub S)
    (hq : q < c) (hlo : base + q * c ^ (k + 1) ≤ n) (hhi : n < base + (q + 1) * c ^ (k + 1))
    (hblock : blocks' off = some (.tind (k + 1) (Function.update refs q r)))
    (hframe : ∀ j < c, j ≠ q → base + j * c ^ (k + 1) < n → ∀ x ∈ sub j, blocks' x = blocks x)
    (hholds : Holds c F blocks' k r (base + q * c ^ (k + 1)) (n + 1) Sq)
    (hown : off ∉ Sq)
    (hdisj : ∀ j < c, j ≠ q → base + j * c ^ (k + 1) < n → Disjoint (sub j) Sq) :
    ∃ sub' S', HoldsTind c blocks' (fun r b s => Holds c F blocks' k r b (n + 1) s) (k + 1)
        (c ^ (k + 1)) off base (n + 1) (Function.update refs q r) sub' S' ∧ S' ⊆ S ∪ Sq := by
  -- the positions before `q` are full, those after it are not used
  have hbefore : ∀ j < c, j < q → base + j * c ^ (k + 1) + c ^ (k + 1) ≤ n := fun j _ hjq => by
    have hle : (j + 1) * c ^ (k + 1) ≤ q * c ^ (k + 1) := Nat.mul_le_mul_right _ hjq
    rw [Nat.add_mul, Nat.one_mul] at hle
    omega
  have hafter : ∀ j < c, q < j → n + 1 ≤ base + j * c ^ (k + 1) := fun j _ hjq => by
    have hle : (q + 1) * c ^ (k + 1) ≤ j * c ^ (k + 1) := Nat.mul_le_mul_right _ hjq
    omega
  have hpos : 0 < c ^ (k + 1) := Nat.pow_pos (by omega)
  have hother : ∀ j < c, j ≠ q → base + j * c ^ (k + 1) < n + 1 → base + j * c ^ (k + 1) < n ∧
      j < q := fun j hj hne hlt => by
    rcases Nat.lt_or_gt_of_ne hne with hjq | hjq
    · have := hbefore j hj hjq
      exact ⟨by omega, hjq⟩
    · have := hafter j hj hjq
      omega
  refine ⟨Function.update sub q Sq,
    {x | x = off ∨ ∃ j < c, base + j * c ^ (k + 1) < n + 1 ∧ x ∈ Function.update sub q Sq j},
    ⟨hblock, fun j hj hlt => ?_, fun j hj hle => ?_, fun j hj hlt => ?_,
      fun i hi j hj hilt hjlt hne => ?_, fun x => Iff.rfl⟩, ?_⟩
  · by_cases hjq : j = q
    · subst hjq
      rw [Function.update_self, Function.update_self]
      exact hholds
    · obtain ⟨hjn, hjlt⟩ := hother j hj hjq hlt
      rw [Function.update_of_ne hjq, Function.update_of_ne hjq]
      exact (h.used j hj hjn).succ_of_full hc (hbefore j hj hjlt) |>.congr (hframe j hj hjq hjn)
  · have hjq : j ≠ q := fun he => by
      subst he
      omega
    rw [Function.update_of_ne hjq]
    exact h.unused j hj (by omega)
  · by_cases hjq : j = q
    · subst hjq
      rw [Function.update_self]
      exact hown
    · rw [Function.update_of_ne hjq]
      exact h.own j hj (hother j hj hjq hlt).1
  · by_cases hiq : i = q
    · subst hiq
      rw [Function.update_self, Function.update_of_ne hne.symm]
      exact (hdisj j hj hne.symm (hother j hj hne.symm hjlt).1).symm
    · by_cases hjq : j = q
      · subst hjq
        rw [Function.update_self, Function.update_of_ne hiq]
        exact hdisj i hi hiq (hother i hi hiq hilt).1
      · rw [Function.update_of_ne hiq, Function.update_of_ne hjq]
        exact h.disjoint i hi j hj (hother i hi hiq hilt).1 (hother j hj hjq hjlt).1 hne
  · rintro x (hx | ⟨j, hj, hlt, hx⟩)
    · exact .inl ((h.footprint x).2 (.inl hx))
    · by_cases hjq : j = q
      · subst hjq
        rw [Function.update_self] at hx
        exact .inr hx
      · rw [Function.update_of_ne hjq] at hx
        exact .inl ((h.footprint x).2 (.inr ⟨j, hj, (hother j hj hjq hlt).1, hx⟩))

/-! ### Lookup -/

variable {p : OidPages}

theorem getBlock_eq (hget : p.getBlock = .ok ()) {t : OidTable} {off : ℕ} {b : IndexBlock}
    (h : t.blocks off = some b) : t.getBlock p off = .ok b := by
  rw [getBlock, hget, ok_bind, h]

/-- **A reference that is held is found.** -/
theorem findReference_eq (hget : p.getBlock = .ok ()) (hc : 2 ≤ maxCount p.pageSize)
    {t : OidTable} {k off base n x fuel : ℕ} {S : Set ℕ}
    (h : Holds (maxCount p.pageSize) F t.blocks k off base n S)
    (hS : ∀ x ∈ S, x ≠ nullFileAddr) (hpow : maxCount p.pageSize ^ k < 2 ^ 64)
    (hlo : base ≤ x) (hn : x < n) (hhi : x < base + maxCount p.pageSize ^ (k + 1))
    (hfuel : k < fuel) :
    t.findReference p fuel off (x - base + 1) = .ok (F x) := by
  induction k generalizing off base S fuel with
  | zero =>
    obtain ⟨⟨refs, hblock, hrefs⟩, -⟩ := h
    obtain ⟨fuel, rfl⟩ := Nat.exists_eq_succ_of_ne_zero (Nat.ne_of_gt hfuel)
    rw [Nat.zero_add, Nat.pow_one] at hhi
    rw [findReference, getBlock_eq hget hblock, ok_bind]
    simp only [indrGetReference]
    rw [sub64_of_le (Nat.le_add_left 1 _), Nat.add_sub_cancel, if_neg (by omega),
      hrefs _ (by omega) (by omega), Nat.add_sub_cancel' hlo]
  | succ k ih =>
    obtain ⟨fuel, rfl⟩ := Nat.exists_eq_succ_of_ne_zero (Nat.ne_of_gt (Nat.zero_lt_of_lt hfuel))
    set c := maxCount p.pageSize with hcdef
    rcases h with ⟨⟨refs, hblock, hrefs⟩, hle, -⟩ | ⟨refs, sub, h⟩
    · rw [findReference, getBlock_eq hget hblock, ok_bind]
      simp only [indrGetReference]
      rw [← hcdef, sub64_of_le (Nat.le_add_left 1 _), Nat.add_sub_cancel, if_neg (by omega),
        hrefs _ (by omega) (by omega), Nat.add_sub_cancel' hlo]
    · obtain ⟨q, hq, r, hr, hx⟩ := exists_position hc hlo hhi
      have hused : base + q * c ^ (k + 1) < n := by omega
      have hnext := h.used q hq hused
      have hne : refs q ≠ nullFileAddr :=
        hS _ ((h.footprint _).2 (.inr ⟨q, hq, hused, hnext.mem⟩))
      rw [findReference, getBlock_eq hget h.block, ok_bind]
      simp only
      rw [← hcdef, show x - base = q * c ^ (k + 1) + r by omega,
        tindGetReference_eq (by omega) (Nat.succ_pos k) hpow hr hq, ok_bind, if_neg hne,
        show r = x - (base + q * c ^ (k + 1)) by omega]
      have hmono : c ^ k ≤ c ^ (k + 1) := Nat.pow_le_pow_right (by omega) (Nat.le_succ k)
      exact ih hnext (fun y hy => hS y ((h.footprint y).2 (.inr ⟨q, hq, hused, hy⟩)))
        (lt_of_le_of_lt hmono hpow) (by omega) (by omega) (Nat.lt_of_succ_lt_succ hfuel)

end OidTable

end Prinbee
