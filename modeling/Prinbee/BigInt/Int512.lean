import Prinbee.BigInt.UInt512

/-!
# Signed numbers of 512 bits

`int512.cpp`: seven words of 64 bits and a signed one, in two's complement.  In memory they are
the eight words of an unsigned number.

## Main definitions

* `Int512` — the eight words.
* `Int512.isNegative`, `Int512.neg`, `Int512.bitSize`.
* `Int512.toInt` — the number, in two's complement.

## Main results

* `Int512.bitSize_eq`, `Int512.bitSize_eq_size` — the number of bits of the absolute value.
-/

namespace Prinbee

open Nat (ofDigits)

/-- `int512_t`. -/
structure Int512 where
  words : UInt512

namespace Int512

open UInt512 (modulus)

/-- `f_high_value`, as an unsigned word. -/
def high (v : Int512) : ℕ := v.words.limbs.getD 7 0

/-- `is_negative()`. -/
def isNegative (v : Int512) : Bool := 2 ^ 63 ≤ v.high

/-- `operator - ()`: the subtraction includes the high word. -/
def neg (v : Int512) : Int512 := ⟨UInt512.zero.sub v.words⟩

/-- The loop of `bit_size()` over the seven low words, from the most significant one. -/
def bitSizeLoop : List ℕ → ℕ → ℕ
  | x :: xs, result => if x ≠ 0 then (x.size - 1) + (result - 64) else bitSizeLoop xs (result - 64)
  | [], _ => 0

/-- `bit_size()`. -/
def bitSize (v : Int512) : ℕ :=
  let p := if v.isNegative then v.neg else v
  if v.isNegative ∧ p.isNegative then 512
  else if p.high ≠ 0 then p.high.size + 7 * 64
  else bitSizeLoop (p.words.limbs.take 7).reverse (512 - 63)

/-! ### What they compute -/

theorem limbs_eq (v : Int512) : v.words.limbs = v.words.limbs.take 7 ++ [v.high] := by
  have hlen := v.words.fits.length
  conv_lhs => rw [← List.take_append_drop 7 v.words.limbs]
  congr 1
  rw [List.drop_eq_getElem_cons (by omega), List.drop_eq_nil_of_le (by omega), high,
    List.getD_eq_getElem _ _ (by omega)]

theorem high_eq (v : Int512) : v.high = v.words.toNat / (2 ^ 64) ^ 7 := by
  have hdrop : v.words.limbs.drop 7 = [v.high] := by
    conv_lhs => rw [v.limbs_eq]
    rw [List.drop_append_of_le_length (by rw [List.length_take, v.words.fits.length]; decide),
      List.drop_eq_nil_of_le (by rw [List.length_take]; omega)]
    rfl
  rw [← v.words.ofDigits_drop_div (by decide), hdrop, Nat.ofDigits_singleton]

theorem two_mul_half : 2 * (2 ^ 63 * (2 ^ 64) ^ 7) = modulus := by
  rw [UInt512.modulus]
  ring

theorem isNegative_iff (v : Int512) : v.isNegative = true ↔ modulus ≤ 2 * v.words.toNat := by
  rw [isNegative, decide_eq_true_eq, high_eq, Nat.le_div_iff_mul_le (Nat.pow_pos (by decide)),
    ← two_mul_half]
  omega

/-- The loop counts from one bit more, and takes it off at the word that it finds. -/
theorem bitSizeLoop_eq (l : List ℕ) {k : ℕ} (h : 64 * l.length ≤ k) :
    bitSizeLoop l (k + 1) = Limbs.sizeFrom 64 l k := by
  induction l generalizing k with
  | nil => rfl
  | cons x xs ih =>
    rw [List.length_cons] at h
    rw [bitSizeLoop, Limbs.sizeFrom]
    split
    · rename_i hx
      have hsize : 0 < x.size := Nat.size_pos.2 (Nat.pos_of_ne_zero hx)
      omega
    · rw [show k + 1 - 64 = k - 64 + 1 by omega, ih (by omega)]

/-- The two counts of bits agree on a number that is not negative. -/
theorem bitSize_words (v : Int512) :
    (if v.high ≠ 0 then v.high.size + 7 * 64
      else bitSizeLoop (v.words.limbs.take 7).reverse (512 - 63)) = v.words.toNat.size := by
  have hlen : (v.words.limbs.take 7).reverse.length = 7 := by
    rw [List.length_reverse, List.length_take, v.words.fits.length]
    rfl
  have hrev : v.words.limbs.reverse = v.high :: (v.words.limbs.take 7).reverse := by
    conv_lhs => rw [v.limbs_eq]
    rw [List.reverse_append]
    rfl
  rw [← UInt512.bitSize_eq, UInt512.bitSize, hrev, Limbs.sizeFrom,
    show 512 - 63 = 448 + 1 from rfl, bitSizeLoop_eq _ (by omega)]

theorem toNat_neg (v : Int512) : v.neg.words.toNat = (modulus - v.words.toNat) % modulus :=
  UInt512.toNat_neg v.words

/-- **`bit_size()`** is the number of bits of the absolute value. -/
theorem bitSize_eq (v : Int512) :
    v.bitSize = if v.isNegative then (modulus - v.words.toNat).size else v.words.toNat.size := by
  rw [bitSize]
  by_cases hneg : v.isNegative = true
  · have hlt := v.words.toNat_lt
    have hhalf := v.isNegative_iff.1 hneg
    have hvalue : v.neg.words.toNat = modulus - v.words.toNat := by
      rw [toNat_neg, Nat.mod_eq_of_lt (by omega)]
    simp only [hneg, true_and, if_true]
    split
    · -- the minimum is its own opposite
      rename_i hmin
      rw [isNegative_iff, hvalue] at hmin
      have heq : modulus - v.words.toNat = 2 ^ 511 := by
        have := two_mul_half
        have hpow : (2 : ℕ) ^ 63 * (2 ^ 64) ^ 7 = 2 ^ (63 + 64 * 7) := by
          rw [← Nat.pow_mul, ← Nat.pow_add]
        rw [hpow] at this
        omega
      rw [heq, Nat.size_pow]
    · rw [bitSize_words, hvalue]
  · rw [if_neg hneg, if_neg fun h => hneg h.1, if_neg hneg]
    exact bitSize_words v

/-! ### The value -/

/-- The number that the words are in two's complement. -/
def toInt (n : Int512) : ℤ :=
  if n.isNegative then (n.words.toNat : ℤ) - modulus else n.words.toNat

theorem toInt_eq_bmod {n : Int512} {z : ℤ} (h : (n.words.toNat : ℤ) = z % (modulus : ℤ)) :
    n.toInt = z.bmod modulus := by
  have hneg := n.isNegative_iff
  have hmodulus : modulus % 2 = 0 := by decide
  unfold toInt Int.bmod
  rw [← h]
  split
  · next hn =>
    rw [hneg] at hn
    rw [if_neg (by omega)]
  · next hn =>
    rw [hneg] at hn
    rw [if_pos (by omega)]

theorem toInt_range (n : Int512) : -(modulus : ℤ) ≤ 2 * n.toInt ∧ 2 * n.toInt < modulus := by
  have hneg := n.isNegative_iff
  have hlt := n.words.toNat_lt
  unfold toInt
  split
  · next hn =>
    rw [hneg] at hn
    omega
  · next hn =>
    rw [hneg] at hn
    omega

/-- `bit_size()` counts the bits of the absolute value. -/
theorem bitSize_eq_size (n : Int512) : n.bitSize = n.toInt.natAbs.size := by
  have hlt := n.words.toNat_lt
  rw [bitSize_eq]
  unfold toInt
  split
  · congr 1
    omega
  · congr 1

end Int512

end Prinbee
