import Prinbee.Basic
import Prinbee.Lib.Limbs

/-!
# Unsigned numbers of 512 bits

`uint512.cpp`: eight words of 64 bits, the least significant one first.  Addition and subtraction
are the carry chains of `add512.s` and `sub512.s`, the division is bit by bit, and the other
functions are loops over the words.

## Main definitions

* `UInt512` — the eight words.
* `UInt512.add`, `UInt512.sub`, `UInt512.lsl`, `UInt512.lsr`, `UInt512.compare`,
  `UInt512.divide`, `UInt512.bitSize` — the arithmetic.
* `UInt512.toText` — `to_string()`.

## Main results

* `UInt512.toNat_add`, `UInt512.toNat_sub`, `UInt512.toNat_lsl`, `UInt512.toNat_lsr`,
  `UInt512.compare_eq`, `UInt512.divide_spec`, `UInt512.bitSize_eq` — what each one computes.
* `UInt512.toText_eq` — the digits of the number in each base.
-/

namespace Prinbee

open Nat (ofDigits)

/-- `uint512_t`. -/
structure UInt512 where
  limbs : List ℕ
  fits : Limbs.Fits (2 ^ 64) 8 limbs

namespace UInt512

/-- The number. -/
def toNat (v : UInt512) : ℕ := ofDigits (2 ^ 64) v.limbs

/-- The number of values. -/
def modulus : ℕ := (2 ^ 64) ^ 8

/-- The number of bits. -/
def bits : ℕ := 64 * 8

theorem modulus_eq : modulus = 2 ^ bits := by rw [modulus, bits, Nat.pow_mul]

theorem le_bits {count : ℕ} (h : ¬ count < 512) : bits ≤ count := Nat.not_lt.1 h

theorem toNat_lt (v : UInt512) : v.toNat < modulus := v.fits.ofDigits_lt (by decide)

theorem toNat_inj {a b : UInt512} (h : a.toNat = b.toNat) : a = b := by
  obtain ⟨la, ha⟩ := a
  obtain ⟨lb, hb⟩ := b
  obtain rfl := ha.eq_of_ofDigits_eq (by decide) hb h
  rfl

/-- The number given by a 64-bit value. -/
def ofUInt64 (rhs : ℕ) : UInt512 where
  limbs := rhs % 2 ^ 64 :: List.replicate 7 0
  fits := .cons (Nat.mod_lt _ (by decide)) ⟨rfl, by simp⟩

theorem toNat_ofUInt64 {rhs : ℕ} (h : rhs < 2 ^ 64) : (ofUInt64 rhs).toNat = rhs := by
  rw [toNat, ofUInt64, Nat.ofDigits_cons, Nat.ofDigits_replicate_zero, Nat.mod_eq_of_lt h]
  simp

/-- `zero()`. -/
def zero : UInt512 := ofUInt64 0

@[simp] theorem toNat_zero : zero.toNat = 0 := toNat_ofUInt64 (by decide)

/-- The least significant word, `f_value[0]`. -/
def low (v : UInt512) : ℕ := v.limbs.headD 0

theorem low_eq (v : UInt512) : v.low = v.toNat % 2 ^ 64 := by
  obtain ⟨l, hl⟩ := v
  cases l with
  | nil => exact absurd hl.length (by decide)
  | cons x xs =>
    have hx := hl.of_cons.1
    rw [low, toNat, Nat.ofDigits_cons, Nat.add_mul_mod_self_left, Nat.mod_eq_of_lt hx]
    rfl

/-- `is_zero()`. -/
def isZero (v : UInt512) : Bool := v.limbs.all (· == 0)

theorem ofDigits_eq_zero {b : ℕ} (hb : 0 < b) (l : List ℕ) :
    ofDigits b l = 0 ↔ l.all (· == 0) = true := by
  induction l with
  | nil => simp
  | cons x xs ih =>
    rw [Nat.ofDigits_cons, List.all_cons, Bool.and_eq_true, ← ih, Nat.add_eq_zero_iff,
      Nat.mul_eq_zero, beq_iff_eq]
    constructor
    · rintro ⟨hx, hb' | hxs⟩
      · omega
      · exact ⟨hx, hxs⟩
    · rintro ⟨hx, hxs⟩
      exact ⟨hx, .inr hxs⟩

theorem isZero_iff (v : UInt512) : v.isZero = true ↔ v.toNat = 0 :=
  (ofDigits_eq_zero (by decide) v.limbs).symm

/-! ### Arithmetic -/

/-- `operator +=`, the carry chain of `add512()`. -/
def add (lhs rhs : UInt512) : UInt512 :=
  ⟨Limbs.add (2 ^ 64) 0 lhs.limbs rhs.limbs, Limbs.fits_add (by decide) 0 lhs.fits rhs.fits⟩

theorem toNat_add (a b : UInt512) : (a.add b).toNat = (a.toNat + b.toNat) % modulus := by
  rw [toNat, add, Limbs.ofDigits_add (by decide) 0 a.fits b.fits]
  rfl

/-- `operator -=`, the borrow chain of `sub512()`. -/
def sub (lhs rhs : UInt512) : UInt512 :=
  ⟨Limbs.sub (2 ^ 64) 0 lhs.limbs rhs.limbs, Limbs.fits_sub (by decide) 0 lhs.fits rhs.fits⟩

theorem toNat_sub (a b : UInt512) :
    (a.sub b).toNat = (a.toNat + modulus - b.toNat) % modulus := by
  rw [toNat, sub, Limbs.ofDigits_sub (by decide) a.fits b.fits]
  rfl

theorem toNat_sub_of_le {a b : UInt512} (h : b.toNat ≤ a.toNat) :
    (a.sub b).toNat = a.toNat - b.toNat := by
  have ha := a.toNat_lt
  rw [toNat_sub, show a.toNat + modulus - b.toNat = a.toNat - b.toNat + modulus by omega,
    Nat.add_mod_right, Nat.mod_eq_of_lt (by omega)]

/-- `operator - ()`. -/
def neg (v : UInt512) : UInt512 := zero.sub v

theorem toNat_neg (v : UInt512) : v.neg.toNat = (modulus - v.toNat) % modulus := by
  rw [neg, toNat_sub, toNat_zero, Nat.zero_add]

protected theorem neg_neg (v : UInt512) : v.neg.neg = v := by
  have hlt := v.toNat_lt
  apply toNat_inj
  rw [toNat_neg, toNat_neg]
  rcases Nat.eq_zero_or_pos v.toNat with hzero | hpos
  · rw [hzero]
    rfl
  · rw [Nat.mod_eq_of_lt (show modulus - v.toNat < modulus by omega),
      Nat.sub_sub_self hlt.le, Nat.mod_eq_of_lt hlt]

/-- `compare()`. -/
def compare (lhs rhs : UInt512) : Ordering := Limbs.cmp lhs.limbs rhs.limbs

theorem compare_eq (a b : UInt512) : a.compare b = Ord.compare a.toNat b.toNat :=
  Limbs.cmp_eq a.fits b.fits

/-- `bit_size()`. -/
def bitSize (v : UInt512) : ℕ := Limbs.sizeFrom 64 v.limbs.reverse 512

theorem bitSize_eq (v : UInt512) : v.bitSize = v.toNat.size := by
  have hrev : Limbs.Fits (2 ^ 64) 8 v.limbs.reverse :=
    ⟨by rw [List.length_reverse, v.fits.length],
      fun x hx => v.fits.lt x (List.mem_reverse.1 hx)⟩
  rw [bitSize, show 512 = 8 * 64 from rfl, Limbs.sizeFrom_eq hrev, List.reverse_reverse]
  rfl

/-! ### Shifts -/

/-- The words moved up by a whole number of words. -/
theorem fits_moveUp {move : ℕ} (h : move ≤ 8) {l : List ℕ}
    (hl : Limbs.Fits (2 ^ 64) (8 - move) l) :
    Limbs.Fits (2 ^ 64) 8 (List.replicate move 0 ++ l) := by
  have happ := (Limbs.fits_replicate (Nat.two_pow_pos 64) move).append hl
  rwa [Nat.add_sub_cancel' h] at happ

theorem fits_take (v : UInt512) {k : ℕ} (h : k ≤ 8) : Limbs.Fits (2 ^ 64) k (v.limbs.take k) :=
  v.fits.take h

theorem fits_drop (v : UInt512) (k : ℕ) : Limbs.Fits (2 ^ 64) (8 - k) (v.limbs.drop k) :=
  v.fits.drop k

/-- The words of `lsl()`, for a count under 512. -/
def lslLimbs (l : List ℕ) (count : ℕ) : List ℕ :=
  List.replicate (count / 64) 0 ++
    if count % 64 ≠ 0 then Limbs.shiftLeft 64 (count % 64) 0 (l.take (8 - count / 64))
    else l.take (8 - count / 64)

theorem fits_lslLimbs (v : UInt512) {count : ℕ} (h : count < 512) :
    Limbs.Fits (2 ^ 64) 8 (lslLimbs v.limbs count) := by
  refine fits_moveUp (by omega) ?_
  have htake := v.fits_take (Nat.sub_le 8 (count / 64))
  split
  · exact Limbs.fits_shiftLeft (by omega) (Nat.two_pow_pos _) htake
  · exact htake

/-- `lsl()`, for a count that is not negative. -/
def lsl (v : UInt512) (count : ℕ) : UInt512 :=
  if h : count < 512 then ⟨lslLimbs v.limbs count, fits_lslLimbs v h⟩ else zero

/-- The words of `lsr()`, for a count under 512. -/
def lsrLimbs (l : List ℕ) (count : ℕ) : List ℕ :=
  (if count % 64 ≠ 0 then Limbs.shiftRight 64 (count % 64) (l.drop (count / 64))
    else l.drop (count / 64)) ++ List.replicate (count / 64) 0

theorem fits_lsrLimbs (v : UInt512) {count : ℕ} (h : count < 512) :
    Limbs.Fits (2 ^ 64) 8 (lsrLimbs v.limbs count) := by
  have hdrop := v.fits_drop (count / 64)
  have hzero : Limbs.Fits (2 ^ 64) (count / 64) (List.replicate (count / 64) 0) :=
    ⟨List.length_replicate, fun x hx => by rw [List.eq_of_mem_replicate hx]; decide⟩
  have hsum : 8 - count / 64 + count / 64 = 8 := by omega
  rw [lsrLimbs]
  split
  · have happ := (Limbs.fits_shiftRight (by omega : count % 64 ≤ 64) hdrop).append hzero
    rwa [hsum] at happ
  · have happ := hdrop.append hzero
    rwa [hsum] at happ

/-- `lsr()`, for a count that is not negative. -/
def lsr (v : UInt512) (count : ℕ) : UInt512 :=
  if h : count < 512 then ⟨lsrLimbs v.limbs count, fits_lsrLimbs v h⟩ else zero

theorem ofDigits_take_mod (v : UInt512) {k : ℕ} (h : k ≤ 8) :
    ofDigits (2 ^ 64) (v.limbs.take k) = v.toNat % (2 ^ 64) ^ k :=
  v.fits.ofDigits_take (by decide) h

theorem ofDigits_drop_div (v : UInt512) {k : ℕ} (h : k ≤ 8) :
    ofDigits (2 ^ 64) (v.limbs.drop k) = v.toNat / (2 ^ 64) ^ k :=
  v.fits.ofDigits_drop (by decide) h

theorem pow_count (count : ℕ) : 2 ^ count = (2 ^ 64) ^ (count / 64) * 2 ^ (count % 64) := by
  rw [← Nat.pow_mul, ← Nat.pow_add, Nat.div_add_mod]

/-- **`lsl()`** multiplies. -/
theorem toNat_lsl (v : UInt512) (count : ℕ) :
    (v.lsl count).toNat = v.toNat * 2 ^ count % modulus := by
  rw [lsl]
  split
  · rename_i hlt
    have htake := v.fits_take (Nat.sub_le 8 (count / 64))
    -- the words that stay, shifted by less than a word
    have hwords : ofDigits (2 ^ 64) (if count % 64 ≠ 0
          then Limbs.shiftLeft 64 (count % 64) 0 (v.limbs.take (8 - count / 64))
          else v.limbs.take (8 - count / 64)) =
        v.toNat * 2 ^ (count % 64) % (2 ^ 64) ^ (8 - count / 64) := by
      split
      · rw [Limbs.ofDigits_shiftLeft (by omega) (Nat.two_pow_pos _) htake,
          v.ofDigits_take_mod (Nat.sub_le _ _), Nat.add_zero, Nat.mod_mul_mod]
      · rename_i hzero
        rw [v.ofDigits_take_mod (Nat.sub_le _ _), not_not.1 hzero, Nat.pow_zero, Nat.mul_one]
    have hsplit : modulus = (2 ^ 64) ^ (count / 64) * (2 ^ 64) ^ (8 - count / 64) := by
      rw [modulus, ← Nat.pow_add, Nat.add_sub_cancel' (by omega)]
    show ofDigits (2 ^ 64) (lslLimbs v.limbs count) = _
    rw [lslLimbs, Nat.ofDigits_append, Nat.ofDigits_replicate_zero, List.length_replicate,
      hwords, Nat.zero_add, hsplit, ← Nat.mul_mod_mul_left, pow_count count]
    congr 1
    ring
  · rename_i hge
    have hdvd : modulus ∣ v.toNat * 2 ^ count := by
      rw [modulus_eq]
      exact Dvd.dvd.mul_left (Nat.pow_dvd_pow 2 (le_bits hge)) _
    rw [toNat_zero, Nat.mod_eq_zero_of_dvd hdvd]

/-- **`lsr()`** divides. -/
theorem toNat_lsr (v : UInt512) (count : ℕ) : (v.lsr count).toNat = v.toNat / 2 ^ count := by
  rw [lsr]
  split
  · rename_i hlt
    have hwords : ofDigits (2 ^ 64) (if count % 64 ≠ 0
          then Limbs.shiftRight 64 (count % 64) (v.limbs.drop (count / 64))
          else v.limbs.drop (count / 64)) =
        v.toNat / (2 ^ 64) ^ (count / 64) / 2 ^ (count % 64) := by
      split
      · rw [Limbs.ofDigits_shiftRight (by omega) (v.fits_drop _),
          v.ofDigits_drop_div (by omega)]
      · rename_i hzero
        rw [v.ofDigits_drop_div (by omega), not_not.1 hzero, Nat.pow_zero, Nat.div_one]
    show ofDigits (2 ^ 64) (lsrLimbs v.limbs count) = _
    rw [lsrLimbs, Nat.ofDigits_append, Nat.ofDigits_replicate_zero, hwords, Nat.mul_zero,
      Nat.add_zero, Nat.div_div_eq_div_mul, ← pow_count]
  · rename_i hge
    have hlt : v.toNat < 2 ^ count :=
      (modulus_eq ▸ v.toNat_lt).trans_le (Nat.pow_le_pow_right (by decide) (le_bits hge))
    rw [toNat_zero, Nat.div_eq_of_lt hlt]

/-! ### Division -/

/-- One turn of the loop of `div()`: the quotient and the remainder. -/
def divStep (quotient remainder divisor : UInt512) : UInt512 × UInt512 :=
  let quotient := quotient.lsl 1
  if remainder.compare divisor ≠ .lt then
    (quotient.add (ofUInt64 1), remainder.sub divisor)
  else (quotient, remainder)

/-- The loop of `div()`. -/
def divLoop : ℕ → UInt512 → UInt512 → UInt512 → UInt512 × UInt512
  | 0, quotient, remainder, _ => (quotient, remainder)
  | gap + 1, quotient, remainder, divisor =>
    let (quotient, remainder) := divStep quotient remainder divisor
    divLoop gap quotient remainder (divisor.lsr 1)

/-- `div()` after its check: the quotient and the remainder. -/
def divide (lhs rhs : UInt512) : UInt512 × UInt512 :=
  match lhs.compare rhs with
  | .lt => (zero, lhs)
  | .eq => (ofUInt64 1, zero)
  | .gt =>
    let gap := lhs.bitSize - rhs.bitSize
    divLoop (gap + 1) zero lhs (rhs.lsl gap)

/-- `div()`. -/
def div (lhs rhs : UInt512) : Except Failure (UInt512 × UInt512) :=
  if rhs.isZero then .error (.thrown .logicError "uint512_t: division by zero not allowed.")
  else .ok (lhs.divide rhs)

/-- One turn keeps the quotient, times the divisor, plus the remainder. -/
theorem divStep_spec {quotient remainder divisor : UInt512} (hd : 0 < divisor.toNat)
    (hlt : remainder.toNat < 2 * divisor.toNat)
    (hfits : quotient.toNat * (2 * divisor.toNat) + remainder.toNat < modulus) :
    (divStep quotient remainder divisor).1.toNat * divisor.toNat +
        (divStep quotient remainder divisor).2.toNat =
      quotient.toNat * (2 * divisor.toNat) + remainder.toNat ∧
    (divStep quotient remainder divisor).2.toNat < divisor.toNat := by
  have hle : quotient.toNat * 2 ≤ quotient.toNat * (2 * divisor.toNat) :=
    Nat.mul_le_mul_left _ (by omega)
  have hdouble : (quotient.lsl 1).toNat = quotient.toNat * 2 := by
    rw [toNat_lsl, Nat.pow_one, Nat.mod_eq_of_lt (by omega)]
  have hcmp : remainder.compare divisor ≠ .lt ↔ divisor.toNat ≤ remainder.toNat := by
    rw [compare_eq, Ne, Nat.compare_eq_lt, Nat.not_lt]
  rw [divStep]
  by_cases hge : divisor.toNat ≤ remainder.toNat
  · rw [if_pos (hcmp.2 hge)]
    have hone : (ofUInt64 1).toNat = 1 := toNat_ofUInt64 (by decide)
    have hquotient : ((quotient.lsl 1).add (ofUInt64 1)).toNat = quotient.toNat * 2 + 1 := by
      rw [toNat_add, hdouble, hone, Nat.mod_eq_of_lt (by omega)]
    rw [hquotient, toNat_sub_of_le hge]
    constructor
    · rw [Nat.add_mul, Nat.one_mul, Nat.mul_assoc]
      omega
    · omega
  · rw [if_neg (mt hcmp.1 hge), hdouble, Nat.mul_assoc]
    exact ⟨rfl, Nat.not_le.1 hge⟩

/-- The loop ends with the quotient and the remainder of a division by `d`. -/
theorem divLoop_spec (gap : ℕ) (quotient remainder divisor : UInt512) {d : ℕ} (hd : 0 < d)
    (hdivisor : divisor.toNat = d * 2 ^ gap) (hlt : remainder.toNat < 2 * divisor.toNat)
    (hfits : quotient.toNat * (2 * divisor.toNat) + remainder.toNat < modulus) :
    (divLoop (gap + 1) quotient remainder divisor).1.toNat * d +
        (divLoop (gap + 1) quotient remainder divisor).2.toNat =
      quotient.toNat * (2 * divisor.toNat) + remainder.toNat ∧
    (divLoop (gap + 1) quotient remainder divisor).2.toNat < d := by
  induction gap generalizing quotient remainder divisor with
  | zero =>
    rw [Nat.pow_zero, Nat.mul_one] at hdivisor
    have hstep := divStep_spec (hdivisor ▸ hd) hlt hfits
    rw [hdivisor] at hstep ⊢
    exact hstep
  | succ gap ih =>
    have hpos : 0 < divisor.toNat := hdivisor ▸ Nat.mul_pos hd (Nat.two_pow_pos _)
    obtain ⟨hkeep, hrest⟩ := divStep_spec hpos hlt hfits
    have hhalf : 2 * (divisor.lsr 1).toNat = divisor.toNat := by
      rw [toNat_lsr, hdivisor, Nat.pow_succ, ← Nat.mul_assoc, Nat.pow_one,
        Nat.mul_div_cancel _ (by decide), Nat.mul_comm]
    have hnext : (divisor.lsr 1).toNat = d * 2 ^ gap := by
      rw [hdivisor, Nat.pow_succ, ← Nat.mul_assoc] at hhalf
      omega
    rw [← hkeep, ← hhalf]
    rw [← hhalf] at hrest hkeep
    exact ih _ _ _ hnext hrest (hkeep ▸ hhalf ▸ hfits)

/-- **`div()`** is the division of the numbers. -/
theorem divide_spec (lhs : UInt512) {rhs : UInt512} (h : rhs.toNat ≠ 0) :
    (lhs.divide rhs).1.toNat = lhs.toNat / rhs.toNat ∧
      (lhs.divide rhs).2.toNat = lhs.toNat % rhs.toNat := by
  have hdivmod : ∀ q r : ℕ, q * rhs.toNat + r = lhs.toNat → r < rhs.toNat →
      q = lhs.toNat / rhs.toNat ∧ r = lhs.toNat % rhs.toNat := by
    intro q r heq hr
    have := (Nat.div_mod_unique (Nat.pos_of_ne_zero h) (d := q)).2
      ⟨(by rw [Nat.mul_comm, Nat.add_comm]; exact heq : r + rhs.toNat * q = lhs.toNat), hr⟩
    exact ⟨this.1.symm, this.2.symm⟩
  rw [divide, compare_eq]
  rcases Nat.lt_trichotomy lhs.toNat rhs.toNat with hlt | heq | hgt
  · rw [Nat.compare_eq_lt.2 hlt]
    exact hdivmod _ _ (by simp) hlt
  · rw [Nat.compare_eq_eq.2 heq]
    refine hdivmod _ _ ?_ ?_
    · rw [toNat_ofUInt64 (by decide), toNat_zero, heq]
      omega
    · rw [toNat_zero]
      omega
  · rw [Nat.compare_eq_gt.2 hgt]
    dsimp only
    -- the divisor has as many bits as the number that is divided
    have hsize : rhs.toNat.size ≤ lhs.toNat.size := Nat.size_le_size hgt.le
    have hpow : 2 ^ lhs.toNat.size = 2 ^ rhs.toNat.size * 2 ^ (lhs.bitSize - rhs.bitSize) := by
      rw [bitSize_eq, bitSize_eq, ← Nat.pow_add, Nat.add_sub_cancel' hsize]
    generalize lhs.bitSize - rhs.bitSize = gap at hpow ⊢
    have hfits : 2 ^ lhs.toNat.size ≤ modulus := by
      rw [modulus_eq]
      exact Nat.pow_le_pow_right (by decide) (Nat.size_le.2 (modulus_eq ▸ lhs.toNat_lt))
    have hshift : (rhs.lsl gap).toNat = rhs.toNat * 2 ^ gap := by
      rw [toNat_lsl, Nat.mod_eq_of_lt]
      refine lt_of_lt_of_le ?_ hfits
      rw [hpow]
      exact Nat.mul_lt_mul_of_pos_right (Nat.lt_size_self _) (Nat.two_pow_pos _)
    have hhalf : 2 ^ rhs.toNat.size ≤ 2 * rhs.toNat := by
      obtain ⟨k, hk⟩ := Nat.exists_eq_succ_of_ne_zero (Nat.size_eq_zero.not.2 h)
      have hle : 2 ^ k ≤ rhs.toNat := Nat.lt_size.1 (by omega)
      rw [hk, Nat.pow_succ]
      omega
    have hlt : lhs.toNat < 2 * (rhs.lsl gap).toNat := by
      calc lhs.toNat < 2 ^ lhs.toNat.size := Nat.lt_size_self _
        _ = 2 ^ rhs.toNat.size * 2 ^ gap := hpow
        _ ≤ 2 * rhs.toNat * 2 ^ gap := Nat.mul_le_mul_right _ hhalf
        _ = 2 * (rhs.lsl gap).toNat := by rw [hshift, Nat.mul_assoc]
    obtain ⟨hkeep, hrest⟩ := divLoop_spec gap zero _ _ (Nat.pos_of_ne_zero h) hshift hlt
      (by rw [toNat_zero, Nat.zero_mul, Nat.zero_add]; exact lhs.toNat_lt)
    rw [toNat_zero, Nat.zero_mul, Nat.zero_add] at hkeep
    exact hdivmod _ _ hkeep hrest

/-! ### The words in memory -/

/-- The number that bytes hold, the least significant one first. -/
def ofBytes (bytes : List UInt8) : ℕ := ofDigits 256 (bytes.map UInt8.toNat)

/-- The `k` low bytes of a number. -/
def toBytes (k n : ℕ) : List UInt8 := (Limbs.digits 256 k n).map UInt8.ofNat

theorem fits_toNat (bytes : List UInt8) :
    Limbs.Fits 256 bytes.length (bytes.map UInt8.toNat) := by
  refine ⟨List.length_map _, fun x hx => ?_⟩
  obtain ⟨b, -, rfl⟩ := List.mem_map.1 hx
  exact b.toNat_lt

theorem ofBytes_lt (bytes : List UInt8) : ofBytes bytes < 256 ^ bytes.length :=
  (fits_toNat bytes).ofDigits_lt (by decide)

@[simp] theorem length_toBytes (k n : ℕ) : (toBytes k n).length = k := by
  rw [toBytes, List.length_map, (Limbs.fits_digits (by decide) k n).length]

/-- Bytes are those of their number. -/
theorem toBytes_ofBytes (bytes : List UInt8) : toBytes bytes.length (ofBytes bytes) = bytes := by
  rw [toBytes, ofBytes, Limbs.digits_ofDigits (by decide) (fits_toNat bytes), List.map_map]
  exact (List.map_congr_left fun b _ => UInt8.ofNat_toNat).trans (List.map_id _)

theorem map_toNat_toBytes (k n : ℕ) : (toBytes k n).map UInt8.toNat = Limbs.digits 256 k n := by
  rw [toBytes, List.map_map]
  refine (List.map_congr_left fun x hx => ?_).trans (List.map_id _)
  exact UInt8.toNat_ofNat_of_lt' ((Limbs.fits_digits (by decide) k n).lt x hx)

theorem ofBytes_toBytes (k n : ℕ) : ofBytes (toBytes k n) = n % 256 ^ k := by
  rw [ofBytes, map_toNat_toBytes, Limbs.ofDigits_digits]

theorem ofBytes_append (bytes bytes' : List UInt8) :
    ofBytes (bytes ++ bytes') = ofBytes bytes + 256 ^ bytes.length * ofBytes bytes' := by
  rw [ofBytes, List.map_append, Nat.ofDigits_append, List.length_map]
  rfl

theorem ofBytes_replicate_zero (m : ℕ) : ofBytes (List.replicate m 0) = 0 := by
  rw [ofBytes, List.map_replicate]
  exact Nat.ofDigits_replicate_zero

/-- The low bytes depend on the low part of the number. -/
theorem toBytes_mod (k n : ℕ) : toBytes k (n % 256 ^ k) = toBytes k n := by
  have h := toBytes_ofBytes (toBytes k n)
  rwa [length_toBytes, ofBytes_toBytes] at h

theorem word_eq : (2 ^ 64 : ℕ) = 256 ^ 8 := by decide

/-- The eight words as bytes in memory. -/
def memory (v : UInt512) : List UInt8 := (v.limbs.flatMap (Limbs.digits 256 8)).map UInt8.ofNat

theorem fits_group (bytes : List UInt8) :
    Limbs.Fits (2 ^ 64) 8 (Limbs.group 256 8 8 (bytes.map UInt8.toNat)) := by
  rw [word_eq]
  exact Limbs.fits_group (by decide) (fits_toNat bytes).lt

/-- The eight words that bytes in memory are. -/
def ofMemory (bytes : List UInt8) : UInt512 :=
  ⟨Limbs.group 256 8 8 (bytes.map UInt8.toNat), fits_group bytes⟩

theorem toNat_ofMemory {bytes : List UInt8} (h : bytes.length ≤ 64) :
    (ofMemory bytes).toNat = ofBytes bytes := by
  have hlen : (bytes.map UInt8.toNat).length ≤ 8 * 8 := by rw [List.length_map]; exact h
  rw [toNat, word_eq]
  exact Limbs.ofDigits_group hlen

theorem memory_eq (v : UInt512) : v.memory = toBytes 64 v.toNat := by
  have hfits : Limbs.Fits 256 64 (v.limbs.flatMap (Limbs.digits 256 8)) := by
    refine ⟨?_, fun x hx => ?_⟩
    · rw [List.length_flatMap, List.map_congr_left fun x _ =>
        (Limbs.fits_digits (by decide : 0 < 256) 8 x).length, List.map_const', List.sum_replicate,
        v.fits.length]
      rfl
    · obtain ⟨y, -, hx⟩ := List.mem_flatMap.1 hx
      exact (Limbs.fits_digits (by decide) 8 y).lt x hx
  have hvalue : v.toNat = ofDigits 256 (v.limbs.flatMap (Limbs.digits 256 8)) := by
    rw [toNat, word_eq]
    exact (Limbs.ofDigits_flatMap (word_eq ▸ v.fits)).symm
  rw [memory, toBytes, hvalue, Limbs.digits_ofDigits (by decide) hfits]

/-- The first bytes of the words in memory. -/
theorem take_memory (v : UInt512) {k : ℕ} (hk : k ≤ 64) : v.memory.take k = toBytes k v.toNat := by
  rw [memory_eq, toBytes, ← List.map_take, Limbs.take_digits hk, toBytes]

/-! ### Text -/

/-- The character of a digit. -/
def digitChar (uppercase : Bool) (d : ℕ) : UInt8 :=
  UInt8.ofNat (if 10 ≤ d then d + ((if uppercase then 65 else 97) - 10) else d + 48)

/-- What stands before the digits to tell the base. -/
def introducerOf (base : ℤ) (uppercase : Bool) : List UInt8 :=
  if base = 2 then [48, if uppercase then 66 else 98]
  else if base = 8 then [48]
  else if base = 16 then [48, if uppercase then 88 else 120]
  else []

/-- The digits of a number, the most significant one first. -/
def digitsText (base : ℕ) (uppercase : Bool) (n : ℕ) : List UInt8 :=
  (Nat.digits base n).reverse.map (digitChar uppercase)

/-- A loop of `to_string()`: the digits, the least significant one first, until the number that
is left is zero. -/
def digitsLoop (next : UInt512 → UInt512) (digit : UInt512 → ℕ) (uppercase : Bool)
    (hnext : ∀ v, v.toNat ≠ 0 → (next v).toNat < v.toNat) (v : UInt512) : List UInt8 :=
  if h : v.isZero = true then []
  else
    have : (next v).toNat < v.toNat := hnext v (mt (isZero_iff v).2 h)
    digitChar uppercase (digit v) :: digitsLoop next digit uppercase hnext (next v)
termination_by v.toNat

theorem toNat_lsr_lt (count : ℕ) (h : 0 < count) (v : UInt512) (hv : v.toNat ≠ 0) :
    (v.lsr count).toNat < v.toNat := by
  rw [toNat_lsr]
  exact Nat.div_lt_self (Nat.pos_of_ne_zero hv) (Nat.one_lt_two_pow (by omega))

/-- The loop for a base that is a power of two: the low bits, then a shift. -/
def bitsLoop (count mask : ℕ) (h : 0 < count) (uppercase : Bool) (v : UInt512) : List UInt8 :=
  digitsLoop (lsr · count) (·.low &&& mask) uppercase (toNat_lsr_lt count h) v

theorem toNat_divide_lt {base : ℕ} (h : 2 ≤ base) (hlt : base < 2 ^ 64) (v : UInt512)
    (hv : v.toNat ≠ 0) : (v.divide (ofUInt64 base)).1.toNat < v.toNat := by
  have hbase := toNat_ofUInt64 hlt
  rw [(v.divide_spec (by omega)).1, hbase]
  exact Nat.div_lt_self (Nat.pos_of_ne_zero hv) h

/-- `to_string()` of a number that is not a single word, or in another base than those of a
stream. -/
def largeText (v : UInt512) (base : ℤ) (introducer uppercase : Bool) :
    Except Failure (List UInt8) := do
  let digits ←
    if base = 2 then .ok (bitsLoop 1 1 (by decide) uppercase v)
    else if base = 8 then .ok (bitsLoop 3 7 (by decide) uppercase v)
    else if base = 16 then .ok (bitsLoop 4 15 (by decide) uppercase v)
    else if h : base < 2 ∨ 36 < base then
      .error (.thrown .conversionUnavailable ("base " ++ toString base ++ " not supported."))
    else
      .ok (digitsLoop (fun v => (v.divide (ofUInt64 base.toNat)).1)
        (fun v => (v.divide (ofUInt64 base.toNat)).2.low) uppercase
        (toNat_divide_lt (by omega) (by omega)) v)
  .ok ((if introducer then introducerOf base uppercase else []) ++ digits.reverse)

/-- `to_string()`. -/
def toText (v : UInt512) (base : ℤ) (introducer uppercase : Bool) : Except Failure (List UInt8) :=
  if v.limbs.tail.all (· == 0) = true then
    if v.low = 0 then .ok [48]
    else if base = 8 ∨ base = 10 ∨ base = 16 then
      -- a stream, with the flags `showbase` and `uppercase`
      .ok ((if introducer then introducerOf base uppercase else []) ++
        digitsText base.toNat uppercase v.low)
    else largeText v base introducer uppercase
  else largeText v base introducer uppercase

/-- A loop of `to_string()` gives the digits of the number. -/
theorem digitsLoop_eq {base : ℕ} (hbase : 1 < base) {next : UInt512 → UInt512}
    {digit : UInt512 → ℕ} {uppercase : Bool}
    {hnext : ∀ v, v.toNat ≠ 0 → (next v).toNat < v.toNat}
    (hdiv : ∀ v, v.toNat ≠ 0 → (next v).toNat = v.toNat / base)
    (hmod : ∀ v, v.toNat ≠ 0 → digit v = v.toNat % base) (v : UInt512) :
    digitsLoop next digit uppercase hnext v =
      (Nat.digits base v.toNat).map (digitChar uppercase) := by
  induction h : v.toNat using Nat.strong_induction_on generalizing v with
  | _ n ih =>
    subst h
    rw [digitsLoop]
    split
    · rename_i hz
      rw [(isZero_iff v).1 hz, Nat.digits_zero, List.map_nil]
    · rename_i hz
      have hv : v.toNat ≠ 0 := mt (isZero_iff v).2 hz
      dsimp only
      rw [ih _ (hnext v hv) (next v) rfl, hdiv v hv, hmod v hv,
        Nat.digits_def' hbase (Nat.pos_of_ne_zero hv), List.map_cons]

/-- The loop on bits: a power of two as the base. -/
theorem low_and (v : UInt512) {k : ℕ} (hk : k ≤ 64) :
    v.low &&& (2 ^ k - 1) = v.toNat % 2 ^ k := by
  rw [Nat.and_two_pow_sub_one_eq_mod, low_eq, Nat.mod_mod_of_dvd _ (Nat.pow_dvd_pow 2 hk)]

theorem bitsLoop_eq {count mask : ℕ} (h : 0 < count) (hle : count ≤ 64)
    (hmask : mask = 2 ^ count - 1) (uppercase : Bool) (v : UInt512) :
    bitsLoop count mask h uppercase v =
      (Nat.digits (2 ^ count) v.toNat).map (digitChar uppercase) :=
  digitsLoop_eq (Nat.one_lt_two_pow (by omega)) (fun v _ => v.toNat_lsr count)
    (fun v _ => hmask ▸ v.low_and hle) v

/-- The bases the callers ask for. -/
def bases : List ℤ := [2, 8, 10, 16]

theorem largeText_eq {v : UInt512} {base : ℤ} {uppercase : Bool} (hbase : base ∈ bases) :
    largeText v base true uppercase =
      .ok (introducerOf base uppercase ++ digitsText base.toNat uppercase v.toNat) := by
  have hdigits : ∀ b : ℕ, (digitsText b uppercase v.toNat) =
      ((Nat.digits b v.toNat).map (digitChar uppercase)).reverse := by
    intro b
    rw [digitsText, List.map_reverse]
  rw [hdigits, largeText]
  simp only [bases, List.mem_cons, List.not_mem_nil, or_false] at hbase
  rcases hbase with rfl | rfl | rfl | rfl
  · rw [if_pos rfl, ok_bind, bitsLoop_eq _ (by decide) (by decide)]
    rfl
  · rw [if_neg (by decide), if_pos rfl, ok_bind, bitsLoop_eq _ (by decide) (by decide)]
    rfl
  · have hten : (ofUInt64 10).toNat = 10 := toNat_ofUInt64 (by decide)
    have hloop : digitsLoop (fun v => (v.divide (ofUInt64 10)).1)
        (fun v => (v.divide (ofUInt64 10)).2.low) uppercase
        (toNat_divide_lt (by decide : 2 ≤ 10) (by decide)) v =
          (Nat.digits 10 v.toNat).map (digitChar uppercase) :=
      digitsLoop_eq (by decide) (fun v _ => by rw [(v.divide_spec (by omega)).1, hten])
        (fun v _ => by rw [low_eq, (v.divide_spec (by omega)).2, hten]; omega) v
    rw [if_neg (by decide), if_neg (by decide), if_neg (by decide), dif_neg (by decide), ok_bind]
    exact congrArg (fun l => Except.ok (introducerOf 10 uppercase ++ List.reverse l)) hloop
  · rw [if_neg (by decide), if_neg (by decide), if_pos rfl, ok_bind,
      bitsLoop_eq _ (by decide) (by decide)]
    rfl

/-- **`to_string()`** of a number that is not zero: the digits, after what tells the base. -/
theorem toText_eq {v : UInt512} {base : ℤ} {uppercase : Bool} (hbase : base ∈ bases)
    (hv : v.toNat ≠ 0) :
    toText v base true uppercase =
      .ok (introducerOf base uppercase ++ digitsText base.toNat uppercase v.toNat) := by
  rw [toText]
  split
  · rename_i htail
    -- a single word: it is the number
    have hlow : v.low = v.toNat := by
      obtain ⟨l, hl⟩ := v
      cases l with
      | nil => exact absurd hl.length (by decide)
      | cons x xs =>
        have hxs := (ofDigits_eq_zero (by decide : 0 < 2 ^ 64) xs).2 htail
        rw [toNat, Nat.ofDigits_cons, hxs, Nat.mul_zero, Nat.add_zero]
        rfl
    rw [if_neg (hlow ▸ hv)]
    split
    · rw [if_pos rfl, hlow]
    · exact largeText_eq hbase
  · exact largeText_eq hbase

theorem toText_zero {v : UInt512} (base : ℤ) {uppercase : Bool} (hv : v.toNat = 0) :
    toText v base true uppercase = .ok [48] := by
  obtain ⟨l, hl⟩ := v
  cases l with
  | nil => exact absurd hl.length (by decide)
  | cons x xs =>
    rw [toNat, ofDigits_eq_zero (by decide), List.all_cons, Bool.and_eq_true, beq_iff_eq] at hv
    simp only [toText, low, List.tail_cons, List.headD_cons, hv.2, hv.1, if_true]

end UInt512

end Prinbee
