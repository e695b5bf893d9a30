import Prinbee.BigInt.Int512Arithmetic

/-!
# The division of signed numbers

`int512_t::div()`.  The operands are made positive, and the minimum, which cannot be, is refused.
But the loop starts from the number that was given and not from its absolute value, and the sign
of the divisor is not part of that of the quotient: the loop is right on numbers that are not
negative, by a divisor that is positive.

## Main definitions

* `Int512.div` — the quotient and the remainder.
* `Int512.Divides` — they are those of a division that truncates.

## Main results

* `Int512.compare_eq` — the order of the words is the order of the numbers.
* `Int512.div_minimum` — the minimum is refused.
* `Int512.div_eq` — what the function returns for the other numbers.
* `Int512.divides_iff` — when that is a division.
-/

namespace Prinbee

open Nat (ofDigits)

namespace Int512

open UInt512 (modulus)

/-- `f_high_value`. -/
def signedHigh (v : Int512) : ℤ := if v.isNegative then (v.high : ℤ) - 2 ^ 64 else v.high

/-- `compare()`: the high words with their sign, then the others. -/
def compare (lhs rhs : Int512) : Ordering :=
  if lhs.high ≠ rhs.high then (if lhs.signedHigh > rhs.signedHigh then .gt else .lt)
  else Limbs.cmp (lhs.words.limbs.take 7) (rhs.words.limbs.take 7)

/-- `operator -=`: the subtraction includes the high word. -/
def sub (lhs rhs : Int512) : Int512 := ⟨lhs.words.sub rhs.words⟩

/-- The number one of `div()`. -/
def one : Int512 := ⟨UInt512.ofUInt64 1⟩

/-- The loop of `div()`: the quotient and the remainder. -/
def divLoop : ℕ → Int512 → Int512 → Int512 → Int512 × Int512
  | 0, quotient, remainder, _ => (quotient, remainder)
  | gap + 1, quotient, remainder, divisor =>
    let quotient := quotient.lsl 1
    if remainder.compare divisor ≠ .lt then
      divLoop gap (quotient.add one) (remainder.sub divisor) (divisor.asr 1)
    else divLoop gap quotient remainder (divisor.asr 1)

/-- An operand as the loop takes it, made positive. -/
def positive (v : Int512) : Int512 := if v.isNegative then v.neg else v

/-- What `div()` throws on the minimum. -/
def minimumDivision : Failure :=
  .thrown .invalidNumber
    "division of 0x800..000 or by 0x800..000 is not currently supported."

/-- `div()`: the quotient and the remainder. -/
def div (a b : Int512) : Except Failure (Int512 × Int512) :=
  if b.words.isZero then .error (.thrown .logicError "int512_t: division by zero not allowed.")
  else
    let lhs := a.positive
    let rhs := b.positive
    if lhs.isNegative ∨ rhs.isNegative then .error minimumDivision
    else
      match lhs.compare rhs with
      | .lt => .ok (zero, a)
      | .eq => .ok (if a.isNegative then one.neg else one, zero)
      | .gt =>
        let gap := lhs.bitSize - rhs.bitSize
        let result := divLoop (gap + 1) zero a (rhs.lsl gap)
        .ok (if a.isNegative then result.1.neg else result.1, result.2)

/-! ### The order -/

/-- The number is the high word and the seven others. -/
theorem toInt_eq_high (v : Int512) :
    v.toInt = v.signedHigh * (2 ^ 64) ^ 7 + (ofDigits (2 ^ 64) (v.words.limbs.take 7) : ℕ) := by
  have hwords : v.words.toNat
      = ofDigits (2 ^ 64) (v.words.limbs.take 7) + (2 ^ 64) ^ 7 * v.high := by
    conv_lhs => rw [UInt512.toNat, v.limbs_eq]
    rw [Nat.ofDigits_append, (v.words.fits_take (by decide)).length, Nat.ofDigits_singleton]
  rw [toInt_eq, signedHigh, hwords]
  split
  · rw [modulus]
    push_cast
    ring
  · push_cast
    ring

theorem high_lt (v : Int512) : v.high < 2 ^ 64 := by
  rw [high, List.getD_eq_getElem _ _ (by rw [v.words.fits.length]; decide)]
  exact v.words.fits.lt _ (List.getElem_mem _)

theorem signedHigh_inj {a b : Int512} : a.signedHigh = b.signedHigh ↔ a.high = b.high := by
  have ha := a.high_lt
  have hb := b.high_lt
  simp only [signedHigh, isNegative, decide_eq_true_eq]
  split <;> split <;> omega

/-- **The order** of the words is the order of the numbers. -/
theorem compare_eq (a b : Int512) : a.compare b = Ord.compare a.toInt b.toInt := by
  have ha := (a.words.fits_take (by decide : 7 ≤ 8)).ofDigits_lt (by decide)
  have hb := (b.words.fits_take (by decide : 7 ≤ 8)).ofDigits_lt (by decide)
  have hcmp := Limbs.cmp_eq (a.words.fits_take (by decide : 7 ≤ 8)) (b.words.fits_take (by decide))
  rw [compare, a.toInt_eq_high, b.toInt_eq_high]
  generalize ofDigits (2 ^ 64) (a.words.limbs.take 7) = low at ha hcmp
  generalize ofDigits (2 ^ 64) (b.words.limbs.take 7) = low' at hb hcmp
  split
  · rename_i hne
    rw [Ne, ← signedHigh_inj] at hne
    -- a difference of the high words is more than what the others can make up
    split
    · rename_i hgt
      exact (compare_gt_iff_gt.2 (by omega)).symm
    · rename_i hgt
      exact (compare_lt_iff_lt.2 (by omega)).symm
  · rename_i heq
    rw [not_not, ← signedHigh_inj] at heq
    rw [heq, hcmp]
    rcases Nat.lt_trichotomy low low' with hlt | rfl | hgt
    · rw [compare_lt_iff_lt.2 hlt, compare_lt_iff_lt.2 (by omega)]
    · rw [compare_eq_iff_eq.2 rfl, compare_eq_iff_eq.2 rfl]
    · rw [compare_gt_iff_gt.2 hgt, compare_gt_iff_gt.2 (by omega)]

/-! ### The absolute value -/

theorem toInt_of_nonneg {v : Int512} (h : v.isNegative = false) : v.toInt = v.words.toNat := by
  rw [toInt_eq, h, if_neg (by decide), sub_zero]

theorem isNegative_eq_false_iff (v : Int512) : v.isNegative = false ↔ 0 ≤ v.toInt := by
  rw [← Bool.not_eq_true, isNegative_iff_toInt, not_lt]

theorem modulus_eq_double : modulus = 2 * 2 ^ 511 := by
  rw [UInt512.modulus_eq, UInt512.bits, ← Nat.pow_succ']

theorem modulus_cast_double : (modulus : ℤ) = 2 * 2 ^ 511 := by rw [modulus_cast, ← pow_succ']

/-- The minimum is its own opposite. -/
theorem toInt_neg (v : Int512) :
    v.neg.toInt = if v.toInt = -2 ^ 511 then v.toInt else -v.toInt := by
  have hrange := v.toInt_range
  have hwords : (v.neg.words.toNat : ℤ) % modulus = -v.toInt % modulus := by
    rw [toNat_neg, Int.natCast_mod, Nat.cast_sub v.words.toNat_lt.le, Int.emod_emod, toInt_eq]
    split
    · rw [neg_sub]
    · rw [sub_zero, sub_eq_neg_add, Int.add_emod_right]
  have hdouble := modulus_cast_double
  generalize (2 : ℤ) ^ 511 = p at hdouble ⊢
  split
  · next h =>
    apply toInt_eq_of_emod _ hrange.1 hrange.2
    have hopposite : -v.toInt = v.toInt + 2 * p := by
      rw [h]
      ring
    rw [hwords, hdouble, hopposite, Int.add_emod_right]
  · exact toInt_eq_of_emod hwords (by omega) (by omega)

/-- The absolute value that `div()` works with, but for the minimum. -/
theorem toInt_positive {v : Int512} (h : v.toInt ≠ -2 ^ 511) :
    v.positive.toInt = |v.toInt| := by
  have hsign := v.isNegative_iff_toInt
  unfold positive
  split
  · next hneg => rw [toInt_neg, if_neg h, abs_of_neg (hsign.1 hneg)]
  · next hneg => rw [abs_of_nonneg (not_lt.1 (mt hsign.2 hneg))]

theorem isNegative_positive (v : Int512) :
    v.positive.isNegative = true ↔ v.toInt = -2 ^ 511 := by
  constructor
  · intro hneg
    by_contra h
    rw [isNegative_iff_toInt, toInt_positive h] at hneg
    exact absurd hneg (abs_nonneg _).not_gt
  · intro h
    have hpos : (0 : ℤ) < 2 ^ 511 := by positivity
    rw [isNegative_iff_toInt, positive]
    split
    · rw [toInt_neg, if_pos h, h]
      exact neg_neg_of_pos hpos
    · rw [h]
      exact neg_neg_of_pos hpos

/-! ### The loop -/

theorem isNegative_eq_false_of_le {v : Int512} {n : ℕ} (h : v.words.toNat ≤ n)
    (hn : 2 * n < modulus) : v.isNegative = false := by
  rw [← Bool.not_eq_true, isNegative_iff]
  omega

theorem two_mul_lt {v : Int512} (h : v.isNegative = false) : 2 * v.words.toNat < modulus := by
  rw [← Bool.not_eq_true, isNegative_iff] at h
  omega

/-- The half of any number is not negative: its sign is shifted as a bit. -/
theorem isNegative_asr_one (v : Int512) : (v.asr 1).isNegative = false := by
  have hlt := v.words.toNat_lt
  refine isNegative_eq_false_of_le (n := v.words.toNat / 2) ?_ ?_
  · rw [words_asr_one, UInt512.toNat_lsr, Nat.pow_one]
  · omega

theorem compare_words {a b : Int512} (ha : a.isNegative = false) (hb : b.isNegative = false) :
    a.compare b = a.words.compare b.words := by
  rw [compare_eq, UInt512.compare_eq, toInt_of_nonneg ha, toInt_of_nonneg hb]
  rcases Nat.lt_trichotomy a.words.toNat b.words.toNat with hlt | heq | hgt
  · rw [compare_lt_iff_lt.2 hlt, compare_lt_iff_lt.2 (Int.ofNat_lt.2 hlt)]
  · rw [heq, compare_eq_iff_eq.2 rfl, compare_eq_iff_eq.2 rfl]
  · rw [compare_gt_iff_gt.2 hgt, compare_gt_iff_gt.2 (Int.ofNat_lt.2 hgt)]

/-- On numbers that are not negative, the loop is the one on unsigned numbers. -/
theorem words_divLoop (gap : ℕ) (quotient : Int512) {remainder divisor : Int512}
    (hremainder : remainder.isNegative = false) (hdivisor : divisor.isNegative = false) :
    UInt512.divLoop gap quotient.words remainder.words divisor.words
      = ((divLoop gap quotient remainder divisor).1.words,
        (divLoop gap quotient remainder divisor).2.words) := by
  induction gap generalizing quotient remainder divisor with
  | zero => rfl
  | succ gap ih =>
    have hhalf := divisor.isNegative_asr_one
    rw [UInt512.divLoop, UInt512.divStep, divLoop]
    dsimp only
    rw [compare_words hremainder hdivisor, ← words_asr_one]
    by_cases hge : remainder.words.compare divisor.words ≠ .lt
    · have hsub : (remainder.sub divisor).isNegative = false := by
        have hle : divisor.words.toNat ≤ remainder.words.toNat := by
          rwa [UInt512.compare_eq, Ne, Nat.compare_eq_lt, Nat.not_lt] at hge
        refine isNegative_eq_false_of_le ?_ (two_mul_lt hremainder)
        rw [sub, UInt512.toNat_sub_of_le hle]
        exact Nat.sub_le _ _
      rw [if_pos hge, if_pos hge]
      exact ih _ hsub hhalf
    · rw [if_neg hge, if_neg hge]
      exact ih _ hremainder hhalf

theorem toNat_words_zero : zero.words.toNat = 0 := UInt512.toNat_zero

/-- On a negative number, the loop does nothing. -/
theorem divLoop_of_neg (gap : ℕ) {quotient remainder divisor : Int512}
    (hquotient : quotient.words.toNat = 0) (hremainder : remainder.isNegative = true)
    (hdivisor : divisor.isNegative = false) :
    (divLoop gap quotient remainder divisor).1.words.toNat = 0 ∧
      (divLoop gap quotient remainder divisor).2 = remainder := by
  induction gap generalizing quotient divisor with
  | zero => exact ⟨hquotient, rfl⟩
  | succ gap ih =>
    have hlt : remainder.compare divisor = .lt := by
      rw [compare_eq, compare_lt_iff_lt]
      exact ((isNegative_iff_toInt _).1 hremainder).trans_le ((isNegative_eq_false_iff _).1 hdivisor)
    rw [divLoop, if_neg (not_not.2 hlt)]
    refine ih ?_ divisor.isNegative_asr_one
    rw [lsl, UInt512.toNat_lsl, hquotient, Nat.zero_mul, Nat.zero_mod]

/-! ### The quotient and the remainder -/

theorem isZero_words_iff (v : Int512) : v.words.isZero = true ↔ v.toInt = 0 := by
  have hlt := v.words.toNat_lt
  rw [UInt512.isZero_iff, toInt_eq]
  split
  · next hneg =>
    rw [isNegative_iff] at hneg
    omega
  · omega

theorem bitSize_of_nonneg {v : Int512} (h : v.isNegative = false) :
    v.bitSize = v.words.bitSize := by
  rw [bitSize_eq_size, toInt_of_nonneg h, UInt512.bitSize_eq, Int.natAbs_natCast]

/-- The divisor, moved up to the bits of the number that is divided, is not negative. -/
theorem isNegative_lsl {a d : Int512} (ha : a.isNegative = false)
    (hd : d.isNegative = false) (hle : d.words.toNat ≤ a.words.toNat) :
    (d.lsl (a.bitSize - d.bitSize)).isNegative = false := by
  have hsize : d.words.toNat.size ≤ a.words.toNat.size := Nat.size_le_size hle
  have hbits : a.words.toNat.size ≤ 511 := by
    rw [Nat.size_le]
    have hlt := two_mul_lt ha
    have hmodulus := modulus_eq_double
    generalize 2 ^ 511 = p at hmodulus ⊢
    omega
  have hshift : d.words.toNat * 2 ^ (a.words.toNat.size - d.words.toNat.size)
      < 2 ^ a.words.toNat.size := by
    calc d.words.toNat * 2 ^ (a.words.toNat.size - d.words.toNat.size)
        < 2 ^ d.words.toNat.size * 2 ^ (a.words.toNat.size - d.words.toNat.size) :=
          Nat.mul_lt_mul_of_pos_right (Nat.lt_size_self _) (Nat.two_pow_pos _)
      _ = 2 ^ a.words.toNat.size := by rw [← Nat.pow_add, Nat.add_sub_cancel' hsize]
  have hpow : 2 ^ a.words.toNat.size ≤ 2 ^ 511 := Nat.pow_le_pow_right (by decide) hbits
  have hmodulus := modulus_eq_double
  rw [← Bool.not_eq_true, isNegative_iff, lsl, UInt512.toNat_lsl, bitSize_of_nonneg ha,
    bitSize_of_nonneg hd, UInt512.bitSize_eq, UInt512.bitSize_eq, Nat.mod_eq_of_lt (by omega)]
  omega

/-- A number that is not negative is divided as an unsigned one, by the absolute value. -/
theorem words_div {a b : Int512} (ha : a.isNegative = false) (hzero : b.toInt ≠ 0)
    (hb : b.toInt ≠ -2 ^ 511) :
    a.div b = .ok (⟨(a.words.divide b.positive.words).1⟩, ⟨(a.words.divide b.positive.words).2⟩) := by
  have hpositive : b.positive.isNegative = false :=
    Bool.not_eq_true _ ▸ mt (isNegative_positive b).1 hb
  have hself : a.positive = a := by rw [positive, ha, if_neg (by decide)]
  rw [div, if_neg (mt (isZero_words_iff b).1 hzero)]
  dsimp only
  rw [hself, if_neg (by rw [ha, hpositive]; decide), UInt512.divide, compare_words ha hpositive, ha]
  cases hcompare : a.words.compare b.positive.words with
  | lt => rfl
  | eq => rfl
  | gt =>
    have hle : b.positive.words.toNat ≤ a.words.toNat := by
      rw [UInt512.compare_eq, compare_gt_iff_gt] at hcompare
      exact hcompare.le
    have hloop := words_divLoop (a.bitSize - b.positive.bitSize + 1) zero ha
      (isNegative_lsl ha hpositive hle)
    change UInt512.divLoop _ UInt512.zero _ (b.positive.words.lsl _) = _ at hloop
    dsimp only
    rw [← bitSize_of_nonneg ha, ← bitSize_of_nonneg hpositive, if_neg (by decide), hloop]

/-- The absolute value of the divisor, as the unsigned division takes it. -/
theorem toNat_positive {b : Int512} (hb : b.toInt ≠ -2 ^ 511) :
    (b.positive.words.toNat : ℤ) = |b.toInt| := by
  have hpositive : b.positive.isNegative = false :=
    Bool.not_eq_true _ ▸ mt (isNegative_positive b).1 hb
  rw [← toInt_of_nonneg hpositive, toInt_positive hb]

/-- The division of a number that is not negative. -/
theorem div_of_nonneg {a b : Int512} (hsign : a.isNegative = false) (hzero : b.toInt ≠ 0)
    (hb : b.toInt ≠ -2 ^ 511) :
    ∃ quotient remainder, a.div b = .ok (quotient, remainder) ∧
      quotient.toInt = a.toInt / |b.toInt| ∧ remainder.toInt = a.toInt % |b.toInt| := by
  have hvalue := toNat_positive hb
  have hne : b.positive.words.toNat ≠ 0 := by
    intro h
    rw [h, Nat.cast_zero] at hvalue
    exact hzero (abs_eq_zero.1 hvalue.symm)
  obtain ⟨hquotient, hremainder⟩ := a.words.divide_spec hne
  refine ⟨_, _, words_div hsign hzero hb, ?_, ?_⟩
  · rw [toInt_of_nonneg, hquotient, toInt_of_nonneg hsign, ← hvalue]
    · rfl
    · exact isNegative_eq_false_of_le (hquotient ▸ Nat.div_le_self _ _) (two_mul_lt hsign)
  · rw [toInt_of_nonneg, hremainder, toInt_of_nonneg hsign, ← hvalue]
    · rfl
    · exact isNegative_eq_false_of_le (hremainder ▸ Nat.mod_le _ _) (two_mul_lt hsign)

/-- The division of a negative number: only the comparison with the divisor counts. -/
theorem div_of_neg {a b : Int512} (hsign : a.isNegative = true) (hzero : b.toInt ≠ 0)
    (ha : a.toInt ≠ -2 ^ 511) (hb : b.toInt ≠ -2 ^ 511) :
    ∃ quotient remainder, a.div b = .ok (quotient, remainder) ∧
      quotient.toInt = (if |a.toInt| = |b.toInt| then -1 else 0) ∧
      remainder.toInt = (if |a.toInt| = |b.toInt| then 0 else a.toInt) := by
  have hpositive : b.positive.isNegative = false :=
    Bool.not_eq_true _ ▸ mt (isNegative_positive b).1 hb
  have habs : a.positive.toInt = |a.toInt| := toInt_positive ha
  rw [div, if_neg (mt (isZero_words_iff b).1 hzero)]
  dsimp only
  rw [if_neg (not_or.2 ⟨mt (isNegative_positive a).1 ha, mt (isNegative_positive b).1 hb⟩),
    compare_eq, habs, toInt_positive hb, hsign]
  rcases lt_trichotomy |a.toInt| |b.toInt| with hlt | heq | hgt
  · rw [compare_lt_iff_lt.2 hlt, if_neg hlt.ne, if_neg hlt.ne]
    exact ⟨_, _, rfl, rfl, rfl⟩
  · rw [compare_eq_iff_eq.2 heq, if_pos heq, if_pos heq]
    exact ⟨_, _, rfl, rfl, rfl⟩
  · have hapositive : a.positive.isNegative = false :=
      Bool.not_eq_true _ ▸ mt (isNegative_positive a).1 ha
    have hle : b.positive.words.toNat ≤ a.positive.words.toNat := by
      rw [← toNat_positive ha, ← toNat_positive hb] at hgt
      exact (Int.ofNat_lt.1 hgt).le
    obtain ⟨hquotient, hremainder⟩ := divLoop_of_neg (a.positive.bitSize - b.positive.bitSize + 1)
      toNat_words_zero hsign (isNegative_lsl hapositive hpositive hle)
    rw [compare_gt_iff_gt.2 hgt, if_neg hgt.ne', if_neg hgt.ne']
    refine ⟨_, _, rfl, ?_, by rw [hremainder]⟩
    -- the opposite of zero
    have hz := (isZero_words_iff _).1 ((UInt512.isZero_iff _).2 hquotient)
    rw [if_pos rfl, toInt_neg, hz, neg_zero, ite_self]

/-- **What `div()` returns**, for operands that it does not refuse: the loop does not work on a
negative number, and the sign of the divisor is lost. -/
theorem div_eq {a b : Int512} (hzero : b.toInt ≠ 0) (ha : a.toInt ≠ -2 ^ 511)
    (hb : b.toInt ≠ -2 ^ 511) :
    ∃ quotient remainder, a.div b = .ok (quotient, remainder) ∧
      quotient.toInt = (if 0 ≤ a.toInt then a.toInt / |b.toInt|
        else if |a.toInt| = |b.toInt| then -1 else 0) ∧
      remainder.toInt = (if 0 ≤ a.toInt then a.toInt % |b.toInt|
        else if |a.toInt| = |b.toInt| then 0 else a.toInt) := by
  by_cases hsign : a.isNegative = true
  · have hneg := (isNegative_iff_toInt a).1 hsign
    rw [if_neg hneg.not_ge, if_neg hneg.not_ge]
    exact div_of_neg hsign hzero ha hb
  · rw [Bool.not_eq_true] at hsign
    have hnonneg := (isNegative_eq_false_iff a).1 hsign
    rw [if_pos hnonneg, if_pos hnonneg]
    exact div_of_nonneg hsign hzero hb

/-- The operands that are the minimum are refused. -/
theorem div_minimum {a b : Int512} (hzero : b.toInt ≠ 0)
    (h : a.toInt = -2 ^ 511 ∨ b.toInt = -2 ^ 511) : a.div b = .error minimumDivision := by
  rw [div, if_neg (mt (isZero_words_iff b).1 hzero)]
  exact if_pos (h.imp (isNegative_positive a).2 (isNegative_positive b).2)

/-- The quotient and the remainder are those of the division that truncates. -/
def Divides (a b : Int512) : Prop :=
  ∃ quotient remainder, a.div b = .ok (quotient, remainder) ∧
    a.toInt = quotient.toInt * b.toInt + remainder.toInt ∧
    |remainder.toInt| < |b.toInt| ∧
    quotient.toInt = a.toInt.tdiv b.toInt ∧
    (remainder.toInt = 0 ∨ remainder.toInt.sign = a.toInt.sign)

theorem tdiv_eq_zero {x y : ℤ} (h : |x| < |y|) : x.tdiv y = 0 := by
  rw [← Int.natCast_natAbs, ← Int.natCast_natAbs, Int.ofNat_lt] at h
  rw [← Int.natAbs_eq_zero, Int.natAbs_tdiv]
  exact Nat.div_eq_of_lt h

/-- What is asked of the two numbers that are returned. -/
def Truncates (x y quotient remainder : ℤ) : Prop :=
  x = quotient * y + remainder ∧ |remainder| < |y| ∧ quotient = x.tdiv y ∧
    (remainder = 0 ∨ remainder.sign = x.sign)

theorem divides_iff_truncates {a b quotient remainder : Int512}
    (h : a.div b = .ok (quotient, remainder)) :
    Divides a b ↔ Truncates a.toInt b.toInt quotient.toInt remainder.toInt := by
  constructor
  · rintro ⟨quotient', remainder', h', htruncates⟩
    rw [h] at h'
    cases h'
    exact htruncates
  · exact fun htruncates => ⟨quotient, remainder, h, htruncates⟩

/-- A number that is the opposite of the divisor or the divisor: the quotient is -1. -/
theorem truncates_neg_one {x y : ℤ} (hx : x < 0) (hzero : y ≠ 0) (heq : |x| = |y|) :
    Truncates x y (-1) 0 ↔ 0 < y := by
  rw [abs_of_neg hx] at heq
  constructor
  · rintro ⟨h, -⟩
    omega
  · intro hy
    rw [abs_of_pos hy] at heq
    have hopposite : x = -y := by omega
    refine ⟨by omega, by simpa using hzero, ?_, .inl rfl⟩
    rw [hopposite, Int.neg_tdiv, Int.tdiv_self hzero]

/-- The number is the remainder. -/
theorem truncates_zero {x y : ℤ} : Truncates x y 0 x ↔ |x| < |y| := by
  constructor
  · exact fun h => h.2.1
  · intro hlt
    exact ⟨by omega, hlt, (tdiv_eq_zero hlt).symm, .inr rfl⟩

/-- The quotient by the absolute value is one by the divisor when that is positive or when it is
zero. -/
theorem truncates_ediv {x y : ℤ} (hx : 0 ≤ x) (hzero : y ≠ 0) :
    Truncates x y (x / |y|) (x % |y|) ↔ |x| < |y| ∨ 0 < y := by
  have hpos : 0 < |y| := abs_pos.2 hzero
  have hsplit := Int.emod_add_mul_ediv x |y|
  have hnonneg := Int.emod_nonneg x hpos.ne'
  have hlt := Int.emod_lt_of_pos x hpos
  constructor
  · rintro ⟨h, -⟩
    -- the product with the absolute value is the one with the number
    by_contra hnot
    rw [not_or, not_lt, not_lt, abs_of_nonneg hx] at hnot
    generalize x / |y| = q at h hsplit
    generalize x % |y| = r at h hsplit hlt
    rw [abs_of_nonpos hnot.2] at hsplit
    have hproduct : y * q = 0 := by linarith
    rw [(mul_eq_zero.1 hproduct).resolve_left hzero, mul_zero, add_zero] at hsplit
    omega
  · intro h
    have hquotient : x / |y| = x.tdiv y ∧ x / |y| * y = |y| * (x / |y|) := by
      rcases h with h | h
      · rw [tdiv_eq_zero h, Int.ediv_eq_zero_of_lt hx (abs_of_nonneg hx ▸ h), zero_mul, mul_zero]
        exact ⟨rfl, rfl⟩
      · rw [abs_of_pos h, Int.tdiv_eq_ediv_of_nonneg hx, mul_comm]
        exact ⟨rfl, rfl⟩
    have hsign : x % |y| = 0 ∨ (x % |y|).sign = x.sign := by
      rcases hx.eq_or_lt with rfl | hx
      · exact .inl (Int.zero_emod _)
      · rcases hnonneg.eq_or_lt with hr | hr
        · exact .inl hr.symm
        · exact .inr ((Int.sign_eq_one_of_pos hr).trans (Int.sign_eq_one_of_pos hx).symm)
    refine ⟨?_, (abs_of_nonneg hnonneg).trans_lt hlt, hquotient.1, hsign⟩
    rw [hquotient.2, add_comm, hsplit]

/-- **When `div()` is a division**, of the operands that it does not refuse. -/
theorem divides_iff {a b : Int512} (hzero : b.toInt ≠ 0) (ha : a.toInt ≠ -2 ^ 511)
    (hb : b.toInt ≠ -2 ^ 511) :
    Divides a b ↔ |a.toInt| < |b.toInt| ∨
      0 < b.toInt ∧ (0 ≤ a.toInt ∨ |a.toInt| = |b.toInt|) := by
  obtain ⟨quotient, remainder, hdiv, hquotient, hremainder⟩ := div_eq hzero ha hb
  rw [divides_iff_truncates hdiv, hquotient, hremainder]
  rcases lt_or_ge a.toInt 0 with hneg | hnonneg
  · rw [if_neg hneg.not_ge, if_neg hneg.not_ge, or_iff_right hneg.not_ge]
    by_cases heq : |a.toInt| = |b.toInt|
    · rw [if_pos heq, if_pos heq, truncates_neg_one hneg hzero heq, or_iff_right heq.not_lt,
        and_iff_left heq]
    · rw [if_neg heq, if_neg heq, truncates_zero,
        or_iff_left (b := 0 < b.toInt ∧ |a.toInt| = |b.toInt|) fun h => heq h.2]
  · rw [if_pos hnonneg, if_pos hnonneg, truncates_ediv hnonneg hzero,
      and_iff_left (.inl hnonneg : 0 ≤ a.toInt ∨ |a.toInt| = |b.toInt|)]

/-- **Signed division.**  The minimum is refused; of the other operands, those that are not
negative are divided by a positive number, those that are less than the divisor are the
remainder, and those that are its opposite give -1. -/
theorem div_spec {a b : Int512} (hzero : b.toInt ≠ 0) :
    (a.toInt = -2 ^ 511 ∨ b.toInt = -2 ^ 511 → a.div b = .error minimumDivision) ∧
    (a.toInt ≠ -2 ^ 511 → b.toInt ≠ -2 ^ 511 →
      |a.toInt| < |b.toInt| ∨ 0 < b.toInt ∧ (0 ≤ a.toInt ∨ |a.toInt| = |b.toInt|) →
      Divides a b) :=
  ⟨div_minimum hzero, fun ha hb => (divides_iff hzero ha hb).2⟩

/-- The division of -1 by 1, as an instance. -/
theorem div_spec_allOnes_one : Divides allOnes one := by
  have hones : allOnes.toInt = -1 := rfl
  have hone : one.toInt = 1 := rfl
  obtain ⟨-, hdiv⟩ := div_spec (a := allOnes) (b := one) (by decide)
  have hpos : (1 : ℤ) < 2 ^ 511 := one_lt_pow₀ (by decide) (by decide)
  rw [hones, hone] at hdiv
  exact hdiv (by omega) (by omega) (.inr ⟨by decide, .inr rfl⟩)

/-- `min()`. -/
def minimum : Int512 where
  words := ⟨List.replicate 7 0 ++ [2 ^ 63], rfl, by decide⟩

/-- The minimum is not divided by 1. -/
theorem minimum_div_one : one.toInt ≠ 0 ∧ one.toInt ≠ -1 ∧ ¬ Divides minimum one := by
  refine ⟨by decide, by decide, ?_⟩
  rintro ⟨quotient, remainder, h, -⟩
  cases h

end Int512

end Prinbee
