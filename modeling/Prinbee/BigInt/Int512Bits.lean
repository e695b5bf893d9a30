import Prinbee.BigInt.Int512Division

/-!
# Signed numbers as 512 bits

`int512.cpp`: the operators `&`, `|` and `^`, which go word by word, and the conversions from and to
machine integers.  Each operator is the one on 512 bits, whatever the sign.

## Main definitions

* `Int512.and`, `Int512.or`, `Int512.xor` — the bitwise operators.
* `Int512.ofInt64` — the constructor from a `std::int64_t`.
* `Int512.abs`, `Int512.maximum` — `abs()` and `max()`.
* `Int512.toBitVec` — the 512 bits.

## Main results

* `Int512.toBitVec_add`, `Int512.toBitVec_mul`, `Int512.toBitVec_and`, `Int512.toBitVec_lsl` and the
  like — the operators on bits.
* `Int512.toBitVec_div` — the quotient and the remainder where `div()` divides.
-/

namespace Prinbee

namespace Int512

open UInt512 (modulus)

/-- `operator &=`. -/
def and (lhs rhs : Int512) : Int512 where
  words :=
    ⟨List.zipWith (· &&& ·) lhs.words.limbs rhs.words.limbs,
      Limbs.fits_zipWith (fun x _ _ hy => Nat.and_lt_two_pow x hy) lhs.words.fits rhs.words.fits⟩

/-- `operator |=`. -/
def or (lhs rhs : Int512) : Int512 where
  words :=
    ⟨List.zipWith (· ||| ·) lhs.words.limbs rhs.words.limbs,
      Limbs.fits_zipWith (fun _ _ hx hy => Nat.or_lt_two_pow hx hy) lhs.words.fits rhs.words.fits⟩

/-- `operator ^=`. -/
def xor (lhs rhs : Int512) : Int512 where
  words :=
    ⟨List.zipWith (· ^^^ ·) lhs.words.limbs rhs.words.limbs,
      Limbs.fits_zipWith (fun _ _ hx hy => Nat.xor_lt_two_pow hx hy) lhs.words.fits rhs.words.fits⟩

/-- The number given by a `std::int64_t`: the sign fills the words above the first one. -/
def ofInt64 (rhs : ℤ) : Int512 where
  words :=
    ⟨(rhs % 2 ^ 64).toNat :: List.replicate 7 (if rhs < 0 then 2 ^ 64 - 1 else 0),
      .cons (by omega) (Limbs.fits_replicate (by split <;> decide) 7)⟩

/-- `abs()`. -/
def abs (v : Int512) : Int512 := if v.isNegative then v.neg else v

/-- `max()`. -/
def maximum : Int512 where
  words := ⟨List.replicate 7 (2 ^ 64 - 1) ++ [2 ^ 63 - 1], rfl, by decide⟩

/-- `is_zero()`. -/
def isZero (v : Int512) : Bool := v.words.isZero

/-- The bits. -/
def toBitVec (v : Int512) : BitVec 512 := BitVec.ofNat 512 v.words.toNat

/-! ### The operators on bits -/

theorem modulus_pow : modulus = 2 ^ 512 := UInt512.modulus_eq

@[simp] theorem toNat_toBitVec (v : Int512) : v.toBitVec.toNat = v.words.toNat := by
  rw [toBitVec, BitVec.toNat_ofNat, ← modulus_pow, Nat.mod_eq_of_lt v.words.toNat_lt]

theorem toBitVec_inj {v w : Int512} (h : v.toBitVec = w.toBitVec) : v = w := by
  obtain ⟨a⟩ := v
  obtain ⟨b⟩ := w
  congr 1
  apply UInt512.toNat_inj
  have h' := congrArg BitVec.toNat h
  rwa [toNat_toBitVec, toNat_toBitVec] at h'

/-- The number that the bits are in two's complement. -/
theorem toInt_toBitVec (v : Int512) : v.toBitVec.toInt = v.toInt := by
  have hneg := v.isNegative_iff
  rw [BitVec.toInt_eq_toNat_cond, toNat_toBitVec, ← modulus_pow, toInt]
  by_cases h : v.isNegative = true
  · rw [if_pos h, if_neg (by rw [hneg] at h; omega)]
  · rw [if_neg h, if_pos (by rw [hneg] at h; omega)]

/-- Bits that are the number modulo the number of values. -/
theorem toBitVec_eq {v : Int512} {n : ℕ} (h : v.words.toNat = n % modulus) :
    v.toBitVec = BitVec.ofNat 512 n := by
  apply BitVec.eq_of_toNat_eq
  rw [toNat_toBitVec, BitVec.toNat_ofNat, h, modulus_pow]

theorem toBitVec_add (a b : Int512) : (a.add b).toBitVec = a.toBitVec + b.toBitVec := by
  have h : (a.add b).words.toNat = (a.words.toNat + b.words.toNat) % modulus :=
    UInt512.toNat_add a.words b.words
  rw [toBitVec_eq h, BitVec.ofNat_add]
  rfl

theorem toBitVec_mul (a b : Int512) : (a.mul b).toBitVec = a.toBitVec * b.toBitVec := by
  have h : (a.mul b).words.toNat = a.words.toNat * b.words.toNat % modulus := by
    rw [words_mul, UInt512.toNat_mul]
  rw [toBitVec_eq h, BitVec.ofNat_mul]
  rfl

theorem toBitVec_sub (a b : Int512) : (a.sub b).toBitVec = a.toBitVec - b.toBitVec := by
  have hlt := b.words.toNat_lt
  have h : (a.sub b).words.toNat = (a.words.toNat + modulus - b.words.toNat) % modulus :=
    UInt512.toNat_sub a.words b.words
  apply BitVec.eq_of_toNat_eq
  rw [toNat_toBitVec, BitVec.toNat_sub, toNat_toBitVec, toNat_toBitVec, h, ← modulus_pow]
  congr 1
  omega

theorem toBitVec_neg (a : Int512) : a.neg.toBitVec = -a.toBitVec := by
  apply BitVec.eq_of_toNat_eq
  rw [toNat_toBitVec, BitVec.toNat_neg, toNat_toBitVec, toNat_neg, modulus_pow]

theorem toBitVec_and (a b : Int512) : (a.and b).toBitVec = a.toBitVec &&& b.toBitVec := by
  have h : (a.and b).words.toNat = a.words.toNat &&& b.words.toNat :=
    Limbs.ofDigits_zipWith (fun x y i => Nat.testBit_and x y i)
      (fun x _ _ hy => Nat.and_lt_two_pow x hy) a.words.fits b.words.fits rfl
  rw [toBitVec, h, BitVec.ofNat_and]
  rfl

theorem toBitVec_or (a b : Int512) : (a.or b).toBitVec = a.toBitVec ||| b.toBitVec := by
  have h : (a.or b).words.toNat = a.words.toNat ||| b.words.toNat :=
    Limbs.ofDigits_zipWith (fun x y i => Nat.testBit_or x y i)
      (fun _ _ hx hy => Nat.or_lt_two_pow hx hy) a.words.fits b.words.fits rfl
  rw [toBitVec, h, BitVec.ofNat_or]
  rfl

theorem toBitVec_xor (a b : Int512) : (a.xor b).toBitVec = a.toBitVec ^^^ b.toBitVec := by
  have h : (a.xor b).words.toNat = a.words.toNat ^^^ b.words.toNat :=
    Limbs.ofDigits_zipWith (fun x y i => Nat.testBit_xor x y i)
      (fun _ _ hx hy => Nat.xor_lt_two_pow hx hy) a.words.fits b.words.fits rfl
  rw [toBitVec, h, BitVec.ofNat_xor]
  rfl

theorem toBitVec_lsl (a : Int512) (count : ℕ) : (a.lsl count).toBitVec = a.toBitVec <<< count := by
  apply BitVec.eq_of_toNat_eq
  rw [toNat_toBitVec, BitVec.toNat_shiftLeft, toNat_toBitVec, Nat.shiftLeft_eq]
  exact (UInt512.toNat_lsl a.words count).trans (by rw [modulus_pow])

/-- The right shift where it is exact. -/
theorem toBitVec_asr {a b : Int512} {count : ℕ} (h : b.toInt = a.toInt / 2 ^ count) :
    b.toBitVec = a.toBitVec.sshiftRight count := by
  apply BitVec.eq_of_toInt_eq
  rw [BitVec.toInt_sshiftRight, toInt_toBitVec, toInt_toBitVec, h, Int.shiftRight_eq_div_pow]
  norm_cast

/-- The quotient and the remainder where `div()` divides. -/
theorem toBitVec_div {a b quotient remainder : Int512} (hdivides : Divides a b)
    (h : a.div b = .ok (quotient, remainder)) :
    quotient.toBitVec = a.toBitVec.sdiv b.toBitVec ∧
      remainder.toBitVec = a.toBitVec.srem b.toBitVec := by
  obtain ⟨hsum, -, hquotient, -⟩ := (divides_iff_truncates h).1 hdivides
  have hrange : quotient.toInt.bmod (2 ^ 512) = quotient.toInt := by
    rw [← toInt_toBitVec, BitVec.toInt_bmod_cancel]
  constructor
  · apply BitVec.eq_of_toInt_eq
    rw [BitVec.toInt_sdiv, toInt_toBitVec, toInt_toBitVec, toInt_toBitVec, ← hquotient, hrange]
  · apply BitVec.eq_of_toInt_eq
    rw [BitVec.toInt_srem, toInt_toBitVec, toInt_toBitVec, toInt_toBitVec, Int.tmod_def,
      ← hquotient]
    linarith

end Int512

end Prinbee
