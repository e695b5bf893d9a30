import Mathlib.Tactic.Common
import Mathlib.Data.BitVec
import Mathlib.Data.List.GetD

/-!
# Cyclic redundancy checks

The check value of a sequence of bits is what is left of it after a division by a polynomial over
the field of two elements.  In the reflected form the coefficients are in a register with the
highest power in the low bit: to divide by one more power the low bit goes out, and the polynomial
is subtracted, which is an exclusive or, when that bit was set.

The division is linear, and it can be undone when the polynomial has a constant term.  So bits that
are altered within a window as wide as the register change the check value.

## Main definitions

* `Crc.shift`, `Crc.shifts` — one step of the division, and several.
* `Crc.remainder` — what is left of a sequence of bits.
* `Crc.ofBits` — the register that holds a sequence of bits.

## Main results

* `Crc.remainder_xor` — the division is linear.
* `Crc.remainder_eq_shifts` — a sequence that fits the register is divided there.
* `Crc.remainder_ne_of_burst` — **a burst is detected**.
-/

namespace Crc

variable {w : ℕ} (poly : BitVec w)

/-! ### Steps -/

/-- One step of the division. -/
def shift (c : BitVec w) : BitVec w := if c.getLsbD 0 then (c >>> 1) ^^^ poly else c >>> 1

/-- Several steps. -/
def shifts : ℕ → BitVec w → BitVec w
  | 0, c => c
  | n + 1, c => shifts n (shift poly c)

@[simp] theorem shifts_zero_steps (c : BitVec w) : shifts poly 0 c = c := rfl

theorem shifts_succ (n : ℕ) (c : BitVec w) : shifts poly (n + 1) c = shifts poly n (shift poly c) :=
  rfl

/-- A step is linear. -/
theorem shift_xor (a b : BitVec w) : shift poly (a ^^^ b) = shift poly a ^^^ shift poly b := by
  unfold shift
  rw [BitVec.getLsbD_xor, BitVec.ushiftRight_xor_distrib]
  -- the polynomial is subtracted twice when both low bits are set
  have hcancel : ∀ x y : BitVec w, x ^^^ poly ^^^ (y ^^^ poly) = x ^^^ y := fun x y => by
    rw [BitVec.xor_assoc, ← BitVec.xor_assoc poly, BitVec.xor_comm poly, BitVec.xor_assoc y,
      BitVec.xor_self, BitVec.xor_zero]
  cases a.getLsbD 0 <;> cases b.getLsbD 0
  · rfl
  · exact BitVec.xor_assoc _ _ _
  · change a >>> 1 ^^^ b >>> 1 ^^^ poly = a >>> 1 ^^^ poly ^^^ b >>> 1
    rw [BitVec.xor_assoc, BitVec.xor_comm (b >>> 1), BitVec.xor_assoc]
  · exact (hcancel _ _).symm

theorem shifts_xor (n : ℕ) (a b : BitVec w) :
    shifts poly n (a ^^^ b) = shifts poly n a ^^^ shifts poly n b := by
  induction n generalizing a b with
  | zero => rfl
  | succ n ih => rw [shifts_succ, shifts_succ, shifts_succ, shift_xor, ih]

@[simp] theorem shift_zero : shift poly 0#w = 0#w := by
  have h := shift_xor poly 0#w 0#w
  rwa [BitVec.xor_self, BitVec.xor_self] at h

@[simp] theorem shifts_zero (n : ℕ) : shifts poly n 0#w = 0#w := by
  induction n with
  | zero => rfl
  | succ n ih => rw [shifts_succ, shift_zero, ih]

/-- A step from a register whose low bit is clear only moves it down. -/
theorem shift_of_low {c : BitVec w} (h : c.getLsbD 0 = false) : shift poly c = c >>> 1 := by
  rw [shift, h]
  rfl

/-- Steps from a register whose low bits are clear only move it down. -/
theorem shifts_of_low {n : ℕ} {c : BitVec w} (h : ∀ i, i < n → c.getLsbD i = false) :
    shifts poly n c = c >>> n := by
  induction n generalizing c with
  | zero => rw [shifts_zero_steps, BitVec.ushiftRight_zero]
  | succ n ih =>
    have hnext : ∀ i, i < n → (c >>> 1).getLsbD i = false := fun i hi => by
      rw [BitVec.getLsbD_ushiftRight, Nat.add_comm]
      exact h (i + 1) (Nat.succ_lt_succ hi)
    rw [shifts_succ, shift_of_low poly (h 0 (Nat.succ_pos n)), ih hnext, ← BitVec.shiftRight_add,
      Nat.add_comm]

variable {poly}

/-- The step that is divided away can be read off its result: the polynomial has a constant term, so
the high bit says whether it was subtracted. -/
theorem eq_zero_of_shift_eq_zero (hpoly : poly.getLsbD (w - 1) = true) {c : BitVec w}
    (h : shift poly c = 0#w) : c = 0#w := by
  have hw : 0 < w := by
    have := BitVec.lt_of_getLsbD hpoly
    omega
  have hhigh : (c >>> 1).getLsbD (w - 1) = false := by
    rw [BitVec.getLsbD_ushiftRight]
    exact BitVec.getLsbD_of_ge c _ (by omega)
  -- the polynomial was not subtracted, so the low bit was clear
  have hlow : c.getLsbD 0 = false := by
    by_contra hset
    rw [Bool.not_eq_false] at hset
    rw [shift, if_pos hset] at h
    have hbit := congrArg (fun x : BitVec w => x.getLsbD (w - 1)) h
    simp only [BitVec.getLsbD_xor, hhigh, hpoly, BitVec.getLsbD_zero] at hbit
    cases hbit
  rw [shift_of_low poly hlow] at h
  apply BitVec.eq_of_getLsbD_eq
  intro i hi
  rw [BitVec.getLsbD_zero]
  cases i with
  | zero => exact hlow
  | succ i =>
    have hbit := congrArg (fun x : BitVec w => x.getLsbD i) h
    simpa only [BitVec.getLsbD_ushiftRight, BitVec.getLsbD_zero, Nat.add_comm 1 i] using hbit

theorem eq_zero_of_shifts_eq_zero (hpoly : poly.getLsbD (w - 1) = true) {n : ℕ} {c : BitVec w}
    (h : shifts poly n c = 0#w) : c = 0#w := by
  induction n generalizing c with
  | zero => exact h
  | succ n ih => exact eq_zero_of_shift_eq_zero hpoly (ih h)

variable (poly)

/-! ### Sequences of bits -/

/-- A bit in the low place of the register. -/
def bit (b : Bool) : BitVec w := if b then 1#w else 0#w

/-- Take one more bit. -/
def feed (c : BitVec w) (b : Bool) : BitVec w := shift poly (c ^^^ bit b)

/-- What is left of a sequence of bits, from what was left before. -/
def remainder (c : BitVec w) (bits : List Bool) : BitVec w := bits.foldl (feed poly) c

@[simp] theorem remainder_nil (c : BitVec w) : remainder poly c [] = c := rfl

@[simp] theorem remainder_cons (c : BitVec w) (b : Bool) (bits : List Bool) :
    remainder poly c (b :: bits) = remainder poly (feed poly c b) bits := rfl

theorem remainder_append (c : BitVec w) (bits bits' : List Bool) :
    remainder poly c (bits ++ bits') = remainder poly (remainder poly c bits) bits' :=
  List.foldl_append

theorem bit_xor (a b : Bool) : (bit (xor a b) : BitVec w) = bit a ^^^ bit b := by
  cases a <;> cases b <;> simp [bit]

/-- **The division is linear.** -/
theorem remainder_xor (c c' : BitVec w) {bits bits' : List Bool}
    (h : bits.length = bits'.length) :
    remainder poly (c ^^^ c') (List.zipWith xor bits bits')
      = remainder poly c bits ^^^ remainder poly c' bits' := by
  induction bits generalizing c c' bits' with
  | nil =>
    cases bits' with
    | nil => rfl
    | cons b' bits' => cases h
  | cons b bits ih =>
    cases bits' with
    | nil => cases h
    | cons b' bits' =>
      have hfeed : feed poly (c ^^^ c') (xor b b') = feed poly c b ^^^ feed poly c' b' := by
        rw [feed, feed, feed, ← shift_xor, bit_xor]
        congr 1
        ac_rfl
      rw [List.zipWith_cons_cons, remainder_cons, hfeed, ih _ _ (Nat.succ.inj h), remainder_cons,
        remainder_cons]

/-- Bits that are clear only shift what is left. -/
theorem remainder_replicate (c : BitVec w) (n : ℕ) :
    remainder poly c (List.replicate n false) = shifts poly n c := by
  induction n generalizing c with
  | zero => rfl
  | succ n ih =>
    have hfeed : feed poly c false = shift poly c := by
      rw [feed, bit, if_neg Bool.false_ne_true]
      exact congrArg _ BitVec.xor_zero
    rw [List.replicate_succ, remainder_cons, hfeed, ih, shifts_succ]

/-! ### A register of bits -/

/-- The register that holds a sequence of bits, the first one in the low place. -/
def ofBits : List Bool → BitVec w
  | [] => 0#w
  | b :: bits => (ofBits bits <<< 1) ^^^ bit b

theorem getLsbD_bit (b : Bool) (i : ℕ) :
    (bit b : BitVec w).getLsbD i = (decide (i = 0 ∧ 0 < w) && b) := by
  cases b with
  | false => rw [bit, if_neg Bool.false_ne_true, BitVec.getLsbD_zero, Bool.and_false]
  | true =>
    rw [bit, if_pos rfl, Bool.and_true]
    rw [BitVec.getLsbD_one]
    by_cases hi : i = 0
    · simp [hi]
    · simp [hi]

theorem getLsbD_ofBits (bits : List Bool) {i : ℕ} (hi : i < w) :
    (ofBits bits : BitVec w).getLsbD i = bits.getD i false := by
  induction bits generalizing i with
  | nil => rw [ofBits, BitVec.getLsbD_zero, List.getD_nil]
  | cons b bits ih =>
    rw [ofBits, BitVec.getLsbD_xor, BitVec.getLsbD_shiftLeft, getLsbD_bit]
    cases i with
    | zero => simp [hi]
    | succ i =>
      rw [Nat.add_sub_cancel, ih (by omega), List.getD_cons_succ]
      simp [hi]

/-- A sequence of bits that fits the register is held as it is. -/
theorem ofBits_eq_zero {bits : List Bool} (hlen : bits.length ≤ w)
    (h : (ofBits bits : BitVec w) = 0#w) : ∀ b ∈ bits, b = false := by
  intro b hb
  obtain ⟨i, hi, rfl⟩ := List.mem_iff_getElem.1 hb
  have hbit := getLsbD_ofBits bits (Nat.lt_of_lt_of_le hi hlen)
  rw [h, BitVec.getLsbD_zero, List.getD_eq_getElem _ _ hi] at hbit
  exact hbit.symm

/-- **A sequence that fits the register is divided there.** -/
theorem remainder_eq_shifts (c : BitVec w) {bits : List Bool} (hlen : bits.length ≤ w) :
    remainder poly c bits = shifts poly bits.length (c ^^^ ofBits bits) := by
  induction bits generalizing c with
  | nil =>
    rw [remainder_nil, List.length_nil, shifts_zero_steps, ofBits]
    exact BitVec.xor_zero.symm
  | cons b bits ih =>
    rw [List.length_cons] at hlen
    have hlow : (ofBits bits <<< 1 : BitVec w).getLsbD 0 = false := by
      rw [BitVec.getLsbD_shiftLeft]
      simp
    -- the bits that are left are short of the high place of the register
    have hback : (ofBits bits <<< 1 : BitVec w) >>> 1 = ofBits bits := by
      apply BitVec.eq_of_getLsbD_eq
      intro i hi
      rw [BitVec.getLsbD_ushiftRight, BitVec.getLsbD_shiftLeft, getLsbD_ofBits bits hi,
        Nat.add_sub_cancel_left]
      by_cases hnext : 1 + i < w
      · rw [getLsbD_ofBits bits hi]
        simp [hnext]
      · rw [List.getD_eq_default _ _ (by omega)]
        simp [hnext]
    have hshift : shift poly (c ^^^ ofBits (b :: bits)) = feed poly c b ^^^ ofBits bits := by
      rw [ofBits, BitVec.xor_comm (ofBits bits <<< 1), ← BitVec.xor_assoc, shift_xor,
        shift_of_low poly hlow, hback, feed]
    rw [remainder_cons, ih _ (by omega), List.length_cons, shifts_succ, hshift]

/-! ### Bursts -/

variable {poly}

/-- Bits that are not all clear, within a window as wide as the register, leave something. -/
theorem remainder_ne_zero (hpoly : poly.getLsbD (w - 1) = true) {e : List Bool} (hne : true ∈ e)
    {p : ℕ} (hburst : ∀ i, e.getD i false = true → p ≤ i ∧ i < p + w) :
    remainder poly 0#w e ≠ 0#w := by
  intro hzero
  have hclear : ∀ (l : List Bool), (∀ i, l.getD i false ≠ true) →
      l = List.replicate l.length false := fun l hl => by
    refine List.eq_replicate_iff.2 ⟨rfl, fun b hb => ?_⟩
    obtain ⟨i, hi, rfl⟩ := List.mem_iff_getElem.1 hb
    have := hl i
    rw [List.getD_eq_getElem _ _ hi] at this
    simpa using this
  -- the bits before the window, those in it, and those after it
  have hbefore := hclear (e.take p) fun i hi => by
    rw [List.getD_eq_getElem?_getD, List.getElem?_take] at hi
    split at hi
    · next hlt =>
      have := (hburst i (by rwa [List.getD_eq_getElem?_getD])).1
      omega
    · cases hi
  have hafter := hclear (e.drop (p + w)) fun i hi => by
    rw [List.getD_eq_getElem?_getD, List.getElem?_drop, ← List.getD_eq_getElem?_getD] at hi
    have := (hburst _ hi).2
    omega
  have hsplit : e = e.take p ++ ((e.drop p).take w ++ e.drop (p + w)) := by
    rw [← List.drop_drop, List.take_append_drop, List.take_append_drop]
  have hfit : ((e.drop p).take w).length ≤ w := List.length_take_le _ _
  have hall : ∀ b ∈ (e.drop p).take w, b = false := by
    refine ofBits_eq_zero hfit ?_
    rw [hsplit, remainder_append, hbefore, remainder_replicate, shifts_zero, remainder_append,
      hafter, remainder_replicate] at hzero
    have hwindow := eq_zero_of_shifts_eq_zero hpoly hzero
    rw [remainder_eq_shifts poly 0#w hfit] at hwindow
    have hbits := eq_zero_of_shifts_eq_zero hpoly hwindow
    rwa [BitVec.zero_xor] at hbits
  rw [hsplit] at hne
  rcases List.mem_append.1 hne with hmem | hmem
  · rw [hbefore] at hmem
    exact absurd (List.eq_of_mem_replicate hmem) Bool.true_eq_false_eq_False
  · rcases List.mem_append.1 hmem with hmem | hmem
    · exact absurd (hall true hmem) Bool.true_eq_false_eq_False
    · rw [hafter] at hmem
      exact absurd (List.eq_of_mem_replicate hmem) Bool.true_eq_false_eq_False

/-- **A burst is detected**: two sequences that differ, and only within a window as wide as the
register, leave something else. -/
theorem remainder_ne_of_burst (hpoly : poly.getLsbD (w - 1) = true) {bits bits' : List Bool}
    (hlen : bits.length = bits'.length) (hne : bits ≠ bits') {p : ℕ}
    (hburst : ∀ i, bits.getD i false ≠ bits'.getD i false → p ≤ i ∧ i < p + w) :
    remainder poly 0#w bits ≠ remainder poly 0#w bits' := by
  intro heq
  have hxor : ∀ i, (List.zipWith xor bits bits').getD i false
      = xor (bits.getD i false) (bits'.getD i false) := fun i => by
    rw [List.getD_eq_getElem?_getD, List.getElem?_zipWith, List.getD_eq_getElem?_getD,
      List.getD_eq_getElem?_getD]
    by_cases hi : i < bits.length
    · rw [List.getElem?_eq_getElem hi, List.getElem?_eq_getElem (hlen ▸ hi)]
      rfl
    · rw [List.getElem?_eq_none (by omega), List.getElem?_eq_none (by omega)]
      rfl
  refine remainder_ne_zero (e := List.zipWith xor bits bits') hpoly ?_ (fun i hi => hburst i ?_) ?_
  · by_contra hnone
    refine hne (List.ext_getElem hlen fun i hi hi' => ?_)
    have hbit := hxor i
    have hmem : (List.zipWith xor bits bits').getD i false ≠ true := fun htrue => by
      rw [List.getD_eq_getElem _ _ (by rw [List.length_zipWith]; omega)] at htrue
      exact hnone (htrue ▸ List.getElem_mem _)
    rw [List.getD_eq_getElem _ _ hi, List.getD_eq_getElem _ _ hi'] at hbit
    rw [hbit] at hmem
    simpa using hmem
  · rw [hxor] at hi
    intro hsame
    rw [hsame, Bool.xor_self] at hi
    cases hi
  · have hlin := remainder_xor poly 0#w 0#w hlen
    rw [BitVec.xor_zero, heq, BitVec.xor_self] at hlin
    exact hlin

end Crc
