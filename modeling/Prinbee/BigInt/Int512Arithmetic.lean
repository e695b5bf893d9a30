import Mathlib.Algebra.Order.Ring.Abs
import Prinbee.BigInt.Int512
import Prinbee.BigInt.UInt512Arithmetic

/-!
# The shifts and the product of signed numbers

`int512.cpp`.  The addition, the subtraction and the left shift do not see the sign.  The right
shift, `asr()`, should keep it: it moves whole words with the sign, but then shifts the bits of
the words as if they were unsigned, the high one included when no word was moved, and with one
word moved it skips the word below the high one.

The multiplication halves its second factor with that shift until nothing is left.  It ends, and
on its product the sign of the shift has no influence.

## Main definitions

* `Int512.lsl`, `Int512.asr`, `Int512.checkedLsl`, `Int512.checkedAsr` — the shifts.
* `Int512.mul` — `operator *=`.
* `Int512.AsrExact` — the right shift is the division by a power of two, and a negative count is
  a left shift.

## Main results

* `Int512.toInt_asr_iff`, `Int512.asrExact_iff` — when the right shift is a division.
* `Int512.toInt_mul` — the product.
-/

namespace Prinbee

open Nat (ofDigits)

namespace Int512

open UInt512 (modulus)

/-! ### The number that the words are -/

/-- The words tell the number that is in range. -/
theorem toInt_eq_of_emod {n : Int512} {z : ℤ} (h : (n.words.toNat : ℤ) % modulus = z % modulus)
    (hlow : -(modulus : ℤ) ≤ 2 * z) (hhigh : 2 * z < modulus) : n.toInt = z := by
  have hwords : (n.words.toNat : ℤ) % modulus = n.words.toNat :=
    Int.emod_eq_of_lt (Int.natCast_nonneg _) (by exact_mod_cast n.words.toNat_lt)
  rw [toInt_eq_bmod (hwords.symm.trans h)]
  exact Int.bmod_eq_of_le_mul_two (by omega) (by omega)

theorem toInt_emod (n : Int512) : n.toInt % modulus = (n.words.toNat : ℤ) % modulus := by
  unfold toInt
  split
  · exact Int.sub_emod_right _ _
  · rfl

theorem isNegative_iff_toInt (n : Int512) : n.isNegative = true ↔ n.toInt < 0 := by
  have hlt := n.words.toNat_lt
  unfold toInt
  split
  · next h => exact ⟨fun _ => by omega, fun _ => h⟩
  · next h => exact ⟨fun h' => absurd h' h, fun h' => by omega⟩

/-! ### Shifts -/

/-- `zero()`. -/
def zero : Int512 := ⟨UInt512.zero⟩

/-- The number of which all bits are set. -/
def allOnes : Int512 where
  words := ⟨List.replicate 8 (2 ^ 64 - 1), List.length_replicate, by simp⟩

/-- `lsl()`, for a count that is not negative: the bits of seven words and of the high one. -/
def lsl (v : Int512) (count : ℕ) : Int512 := ⟨v.words.lsl count⟩

/-- `operator >>` on `std::int64_t`, of which the bits are given. -/
def shiftRight64 (x shift : ℕ) : ℕ :=
  if 2 ^ 63 ≤ x then x >>> shift + (2 ^ 64 - 2 ^ (64 - shift)) else x >>> shift

/-- The word that stands for the sign. -/
def signWord (negative : Bool) : ℕ := if negative then 2 ^ 64 - 1 else 0

/-- The words of `asr()`, for a count under 512.  In memory, the high word is the one after the
seven words of `f_value`. -/
def asrLimbs (l : List ℕ) (negative : Bool) (count : ℕ) : List ℕ :=
  let move := count / 64
  let shift := count % 64
  let l := l.drop move ++ List.replicate move (signWord negative)
  if shift = 0 then l
  else if move = 1 then
    -- `pos` is 7: the high word gives its bits to the word that the loop starts with, which is
    -- not the one right below
    (Limbs.shiftRight 64 shift (l.take 6 ++ [l.getD 7 0])).take 6
      ++ [l.getD 6 0, shiftRight64 (l.getD 7 0) shift]
  else Limbs.shiftRight 64 shift (l.take (8 - move)) ++ l.drop (8 - move)

theorem signWord_lt (negative : Bool) : signWord negative < 2 ^ 64 := by
  cases negative <;> decide

/-- The words of the sign. -/
theorem ofDigits_signWord (negative : Bool) (move : ℕ) :
    ofDigits (2 ^ 64) (List.replicate move (signWord negative))
      = if negative then (2 ^ 64) ^ move - 1 else 0 := by
  cases negative with
  | false => exact Nat.ofDigits_replicate_zero
  | true => exact Limbs.ofDigits_replicate_top (by decide) move

theorem shiftRight64_signWord (negative : Bool) {shift : ℕ} (h : shift ≤ 64) :
    shiftRight64 (signWord negative) shift = signWord negative := by
  cases negative with
  | false => simp [shiftRight64, signWord]
  | true =>
    have hpow : 2 ^ 64 = 2 ^ shift * 2 ^ (64 - shift) := by
      rw [← Nat.pow_add, Nat.add_sub_cancel' h]
    have hdiv : (2 ^ 64 - 1) >>> shift = 2 ^ (64 - shift) - 1 := by
      rw [Nat.shiftRight_eq_div_pow, hpow]
      exact (Nat.mul_sub_div 0 _ _ (by positivity)).trans (by rw [Nat.zero_div])
    have hle : 2 ^ (64 - shift) ≤ 2 ^ 64 := Nat.pow_le_pow_right (by decide) (Nat.sub_le 64 shift)
    have hpos : 0 < 2 ^ (64 - shift) := Nat.two_pow_pos _
    rw [signWord, if_pos rfl, shiftRight64, if_pos (by decide), hdiv]
    omega

/-- The words when whole words are moved. -/
theorem asrLimbs_words (l : List ℕ) (negative : Bool) {count : ℕ} (h : count % 64 = 0) :
    asrLimbs l negative count
      = l.drop (count / 64) ++ List.replicate (count / 64) (signWord negative) :=
  if_pos h

/-- The words when one word is moved: the high one stays what it was. -/
theorem asrLimbs_one {l : List ℕ} (hl : l.length = 8) (negative : Bool) {count : ℕ}
    (hone : count / 64 = 1) (h : count % 64 ≠ 0) :
    asrLimbs l negative count
      = (Limbs.shiftRight 64 (count % 64) ((l.drop 1).take 6 ++ [signWord negative])).take 6
        ++ [l.getD 7 0, signWord negative] := by
  have hdrop : (l.drop 1).length = 7 := by rw [List.length_drop, hl]
  have hsix : (l.drop 1 ++ [signWord negative]).getD 6 0 = l.getD 7 0 := by
    rw [List.getD_append _ _ _ _ (by omega), List.getD_eq_getElem?_getD,
      List.getD_eq_getElem?_getD, List.getElem?_drop]
  have hseven : (l.drop 1 ++ [signWord negative]).getD 7 0 = signWord negative := by
    rw [List.getD_append_right _ _ _ _ (by omega), hdrop]
    rfl
  unfold asrLimbs
  dsimp only
  rw [if_neg h, if_pos hone, hone, List.replicate_one, hsix, hseven,
    shiftRight64_signWord _ (by omega), List.take_append_of_le_length (by omega)]

/-- The words in the other cases: zeros come in between the words and those of the sign. -/
theorem asrLimbs_other {l : List ℕ} (hl : l.length = 8) (negative : Bool) {count : ℕ}
    (hone : count / 64 ≠ 1) (h : count % 64 ≠ 0) :
    asrLimbs l negative count
      = Limbs.shiftRight 64 (count % 64) (l.drop (count / 64))
        ++ List.replicate (count / 64) (signWord negative) := by
  have hdrop : (l.drop (count / 64)).length = 8 - count / 64 := by rw [List.length_drop, hl]
  unfold asrLimbs
  dsimp only
  rw [if_neg h, if_neg hone, List.take_left' hdrop, List.drop_left' hdrop]

theorem fits_asrLimbs {l : List ℕ} (hl : Limbs.Fits (2 ^ 64) 8 l) (negative : Bool) {count : ℕ}
    (h : count < 512) : Limbs.Fits (2 ^ 64) 8 (asrLimbs l negative count) := by
  have hsum : 8 - count / 64 + count / 64 = 8 := Nat.sub_add_cancel (by omega)
  have hsign := Limbs.fits_replicate (signWord_lt negative) (count / 64)
  have hdrop := hl.drop (count / 64)
  by_cases hshift : count % 64 = 0
  · rw [asrLimbs_words l negative hshift]
    exact hsum ▸ hdrop.append hsign
  by_cases hone : count / 64 = 1
  · rw [asrLimbs_one hl.length negative hone hshift]
    have hhigh : l.getD 7 0 < 2 ^ 64 := by
      rw [List.getD_eq_getElem _ _ (by rw [hl.length]; decide)]
      exact hl.lt _ (List.getElem_mem _)
    have hlow : Limbs.Fits (2 ^ 64) 7 ((l.drop 1).take 6 ++ [signWord negative]) :=
      ((hl.drop 1).take (by decide)).append (.cons (signWord_lt negative) Limbs.fits_nil)
    exact ((Limbs.fits_shiftRight (by omega) hlow).take (by decide : 6 ≤ 7)).append
      (.cons hhigh (.cons (signWord_lt negative) Limbs.fits_nil))
  · rw [asrLimbs_other hl.length negative hone hshift]
    exact hsum ▸ (Limbs.fits_shiftRight (by omega) hdrop).append hsign

/-- `asr()`, for a count that is not negative. -/
def asr (v : Int512) (count : ℕ) : Int512 :=
  if h : count < 512 then ⟨⟨asrLimbs v.words.limbs v.isNegative count, fits_asrLimbs v.words.fits _ h⟩⟩
  else if v.isNegative then allOnes
  else zero

/-! ### What the right shift computes -/

theorem toNat_asr (v : Int512) {count : ℕ} (h : count < 512) :
    (v.asr count).words.toNat
      = ofDigits (2 ^ 64) (asrLimbs v.words.limbs v.isNegative count) := by
  rw [asr, dif_pos h]
  rfl

/-- The number of the words, but when one word is moved and bits are. -/
theorem toNat_asr_other (v : Int512) {count : ℕ} (hlt : count < 512)
    (h : count % 64 = 0 ∨ count / 64 ≠ 1) :
    (v.asr count).words.toNat = v.words.toNat / 2 ^ count
      + if v.isNegative then modulus - (2 ^ 64) ^ (8 - count / 64) else 0 := by
  have hdrop := v.words.fits_drop (count / 64)
  have hlow : ∃ low, Limbs.Fits (2 ^ 64) (8 - count / 64) low ∧
      ofDigits (2 ^ 64) low = v.words.toNat / 2 ^ count ∧
      asrLimbs v.words.limbs v.isNegative count
        = low ++ List.replicate (count / 64) (signWord v.isNegative) := by
    by_cases hshift : count % 64 = 0
    · refine ⟨_, hdrop, ?_, asrLimbs_words _ _ hshift⟩
      rw [v.words.ofDigits_drop_div (by omega), UInt512.pow_count count, hshift, Nat.pow_zero,
        Nat.mul_one]
    · refine ⟨_, Limbs.fits_shiftRight (by omega) hdrop, ?_,
        asrLimbs_other v.words.fits.length _ (h.resolve_left hshift) hshift⟩
      rw [Limbs.ofDigits_shiftRight (by omega) hdrop, v.words.ofDigits_drop_div (by omega),
        Nat.div_div_eq_div_mul, ← UInt512.pow_count]
  obtain ⟨low, hfits, hvalue, hlimbs⟩ := hlow
  have hsplit : modulus = (2 ^ 64) ^ (8 - count / 64) * (2 ^ 64) ^ (count / 64) := by
    rw [modulus, ← Nat.pow_add, Nat.sub_add_cancel (by omega)]
  rw [toNat_asr v hlt, hlimbs, Nat.ofDigits_append, hfits.length, ofDigits_signWord, hvalue]
  cases v.isNegative with
  | false => rfl
  | true => rw [if_pos rfl, if_pos rfl, Nat.mul_sub, Nat.mul_one, ← hsplit]

/-- The bits that the sign gives to the words below. -/
theorem top_shift {low shift : ℕ} (negative : Bool) (hlow : low < (2 ^ 64) ^ 6) (h : shift ≤ 64) :
    (low + (2 ^ 64) ^ 6 * signWord negative) / 2 ^ shift % (2 ^ 64) ^ 6
      = low / 2 ^ shift + if negative then (2 ^ 64) ^ 6 - 2 ^ (384 - shift) else 0 := by
  have hsix : (2 ^ 64) ^ 6 = 2 ^ (384 - shift) * 2 ^ shift := by
    rw [← Nat.pow_add, Nat.sub_add_cancel (by omega : shift ≤ 384), ← Nat.pow_mul]
  have hword : 2 ^ 64 = 2 ^ shift * 2 ^ (64 - shift) := by
    rw [← Nat.pow_add, Nat.add_sub_cancel' h]
  have hpos : 0 < 2 ^ shift := Nat.two_pow_pos _
  have hless : low / 2 ^ shift < 2 ^ (384 - shift) := Nat.div_lt_of_lt_mul (by
    rw [Nat.mul_comm, ← hsix]
    exact hlow)
  have hle : 2 ^ (384 - shift) ≤ (2 ^ 64) ^ 6 := hsix ▸ Nat.le_mul_of_pos_right _ hpos
  cases negative with
  | false =>
    rw [signWord, if_neg (by decide), if_neg (by decide), Nat.mul_zero, Nat.add_zero, Nat.add_zero,
      Nat.mod_eq_of_lt (by omega)]
  | true =>
    have hquotient : (low + (2 ^ 64) ^ 6 * signWord true) / 2 ^ shift
        = low / 2 ^ shift + 2 ^ (384 - shift) * (2 ^ 64 - 1) := by
      rw [hsix, Nat.mul_right_comm, Nat.add_mul_div_right _ _ hpos]
      rfl
    have hwrap : 2 ^ (384 - shift) * (2 ^ 64 - 1)
        = ((2 ^ 64) ^ 6 - 2 ^ (384 - shift)) + (2 ^ 64) ^ 6 * (2 ^ (64 - shift) - 1) := by
      have hone : 0 < 2 ^ (64 - shift) := Nat.two_pow_pos _
      have hmul : 2 ^ (384 - shift) * 2 ^ 64 = (2 ^ 64) ^ 6 * 2 ^ (64 - shift) := by
        rw [hsix, Nat.mul_assoc, ← hword]
      have hge : (2 ^ 64) ^ 6 ≤ (2 ^ 64) ^ 6 * 2 ^ (64 - shift) := Nat.le_mul_of_pos_right _ hone
      rw [Nat.mul_sub, Nat.mul_sub, hmul, Nat.mul_one, Nat.mul_one]
      omega
    rw [hquotient, hwrap, ← Nat.add_assoc, Nat.add_mul_mod_self_left, if_pos rfl,
      Nat.mod_eq_of_lt (by omega)]

/-- The number of the words when one word is moved and bits are. -/
theorem toNat_asr_one (v : Int512) {count : ℕ} (hone : count / 64 = 1) (h : count % 64 ≠ 0) :
    (v.asr count).words.toNat
      = v.words.toNat / 2 ^ 64 % (2 ^ 64) ^ 6 / 2 ^ (count % 64)
        + (if v.isNegative then (2 ^ 64) ^ 6 - 2 ^ (384 - count % 64) else 0)
        + (2 ^ 64) ^ 6 * (v.words.toNat / (2 ^ 64) ^ 7)
        + (if v.isNegative then modulus - (2 ^ 64) ^ 7 else 0) := by
  have hsix := (v.words.fits.drop 1).take (by decide : 6 ≤ 8 - 1)
  have hlow : ofDigits (2 ^ 64) ((v.words.limbs.drop 1).take 6)
      = v.words.toNat / 2 ^ 64 % (2 ^ 64) ^ 6 := by
    rw [(v.words.fits.drop 1).ofDigits_take (by decide) (by decide),
      v.words.ofDigits_drop_div (by decide), Nat.pow_one]
  have hseven := hsix.append (.cons (signWord_lt v.isNegative) Limbs.fits_nil)
  have hfits := (Limbs.fits_shiftRight (w := 64) (s := count % 64) (by omega) hseven)
  have hbound := hlow ▸ hsix.ofDigits_lt (by decide)
  rw [toNat_asr v (by omega), asrLimbs_one v.words.fits.length _ hone h, Nat.ofDigits_append,
    (hfits.take (by decide : 6 ≤ 6 + 1)).length, hfits.ofDigits_take (by decide) (by decide),
    Limbs.ofDigits_shiftRight (by omega) hseven, Nat.ofDigits_append, hsix.length, hlow,
    Nat.ofDigits_singleton, Nat.ofDigits_cons, Nat.ofDigits_singleton, top_shift _ hbound (by omega),
    ← v.high_eq]
  unfold high signWord
  cases v.isNegative with
  | false => rw [if_neg (by decide), if_neg (by decide), if_neg (by decide)]; rfl
  | true =>
    have hmodulus : modulus = (2 ^ 64) ^ 6 * (2 ^ 64 * (2 ^ 64 - 1)) + (2 ^ 64) ^ 7 := by
      rw [modulus]
      norm_num
    rw [if_pos rfl, if_pos rfl, if_pos rfl, hmodulus, Nat.add_sub_cancel, Nat.mul_add]
    simp only [Nat.add_assoc]

/-- A quotient by a power of two stays in range. -/
theorem div_range {x : ℤ} (hlow : -(modulus : ℤ) ≤ 2 * x) (hhigh : 2 * x < modulus) (count : ℕ) :
    -(modulus : ℤ) ≤ 2 * (x / 2 ^ count) ∧ 2 * (x / 2 ^ count) < modulus := by
  have hpos : (0 : ℤ) < 2 ^ count := by positivity
  rcases lt_or_ge x 0 with hneg | hnonneg
  · have hle : x ≤ x / 2 ^ count := Int.le_ediv_of_mul_le hpos (by nlinarith)
    have hlt : x / 2 ^ count < 0 := Int.ediv_neg_of_neg_of_pos hneg hpos
    omega
  · have hle : x / 2 ^ count ≤ x := Int.ediv_le_self _ hnonneg
    have hge : 0 ≤ x / 2 ^ count := Int.ediv_nonneg hnonneg hpos.le
    omega

/-- The words are a number in range if they differ from it by a multiple of the modulus; less than
once the modulus, they do not differ. -/
theorem toInt_eq_iff {n : Int512} {z d : ℤ} (hlow : -(modulus : ℤ) ≤ 2 * z) (hhigh : 2 * z < modulus)
    (hd : ((n.words.toNat : ℤ) - (z + d)) % modulus = 0) (hless : |d| < modulus) :
    n.toInt = z ↔ d = 0 := by
  rw [← Int.emod_eq_emod_iff_emod_sub_eq_zero] at hd
  constructor
  · intro h
    have hdvd : (modulus : ℤ) ∣ d := by
      rw [← toInt_emod, h, Int.emod_eq_emod_iff_emod_sub_eq_zero, sub_add_cancel_left] at hd
      exact (dvd_neg).1 (Int.dvd_of_emod_eq_zero hd)
    exact Int.eq_zero_of_abs_lt_dvd hdvd hless
  · rintro rfl
    rw [add_zero] at hd
    exact toInt_eq_of_emod hd hlow hhigh

theorem toInt_eq (v : Int512) : v.toInt = v.words.toNat - if v.isNegative then (modulus : ℤ) else 0 := by
  unfold toInt
  split
  · rfl
  · rw [sub_zero]

theorem modulus_cast : (modulus : ℤ) = 2 ^ 512 := by
  rw [UInt512.modulus_eq, Nat.cast_pow]
  rfl

/-- The quotient of a negative number, from the one of its words. -/
theorem div_pow_of_isNegative {v : Int512} (h : v.isNegative = true) {count : ℕ} (hlt : count < 512) :
    v.toInt / 2 ^ count = v.words.toNat / 2 ^ count - 2 ^ (512 - count) := by
  have hpow : (modulus : ℤ) = 2 ^ (512 - count) * 2 ^ count := by
    rw [← pow_add, Nat.sub_add_cancel hlt.le, modulus_cast]
  rw [v.toInt_eq, if_pos h, hpow, Int.sub_mul_ediv_right _ _ (by positivity)]

/-- What the words of the sign are worth: the sign of the quotient, and the bits that are lost. -/
theorem pow_words {count : ℕ} (hlt : count < 512) :
    ((2 ^ 64) ^ (8 - count / 64) : ℕ) = (2 : ℤ) ^ (512 - count) * 2 ^ (count % 64) := by
  rw [← pow_add, ← pow_mul, Nat.cast_pow]
  congr 1
  omega

/-- But when one word is moved and bits are, the sign is lost with the bits. -/
theorem toInt_asr_other (v : Int512) {count : ℕ} (hlt : count < 512)
    (h : count % 64 = 0 ∨ count / 64 ≠ 1) :
    (v.asr count).toInt = v.toInt / 2 ^ count ↔ count % 64 = 0 ∨ 0 ≤ v.toInt := by
  obtain ⟨hlow, hhigh⟩ := div_range v.toInt_range.1 v.toInt_range.2 count
  have hwords := congrArg (Nat.cast : ℕ → ℤ) (v.toNat_asr_other hlt h)
  have hneg := v.isNegative_iff_toInt
  rw [Nat.cast_add, Int.natCast_div, Nat.cast_pow, Nat.cast_two] at hwords
  by_cases hsign : v.isNegative = true
  · have hquotient := div_pow_of_isNegative hsign hlt
    have hmove := pow_words hlt
    have hle : (2 ^ 64) ^ (8 - count / 64) ≤ modulus :=
      Nat.pow_le_pow_right (by decide) (Nat.sub_le 8 (count / 64))
    have hle' : (2 : ℤ) ^ (512 - count) * 2 ^ (count % 64) ≤ modulus := hmove ▸ by exact_mod_cast hle
    have hpos : (0 : ℤ) < 2 ^ (512 - count) := by positivity
    have hge : (2 : ℤ) ^ (512 - count) ≤ 2 ^ (512 - count) * 2 ^ (count % 64) :=
      le_mul_of_one_le_right hpos.le (one_le_pow₀ (by decide))
    rw [if_pos hsign, Nat.cast_sub hle, hmove] at hwords
    rw [toInt_eq_iff (d := 2 ^ (512 - count) - 2 ^ (512 - count) * 2 ^ (count % 64)) hlow hhigh
      (by rw [hwords, hquotient]; ring_nf; simp) (by rw [abs_lt]; omega)]
    constructor
    · intro hzero
      left
      have hone : (2 : ℤ) ^ (count % 64) = 1 :=
        mul_left_cancel₀ hpos.ne' ((sub_eq_zero.1 hzero).symm.trans (mul_one _).symm)
      by_contra hne
      exact absurd hone (one_lt_pow₀ (by decide) hne).ne'
    · rintro (hzero | hnonneg)
      · rw [hzero, pow_zero, mul_one, sub_self]
      · exact absurd (hneg.1 hsign) hnonneg.not_gt
  · have hvalue := v.toInt_eq
    rw [if_neg hsign, Nat.cast_zero, add_zero] at hwords
    rw [if_neg hsign, sub_zero] at hvalue
    have hnonneg : 0 ≤ v.toInt := not_lt.1 (mt hneg.2 hsign)
    refine iff_of_true ?_ (.inr hnonneg)
    exact (toInt_eq_iff (d := 0) hlow hhigh (by rw [hwords, hvalue]; simp) (by simp [modulus])).2 rfl

/-- The words over the first one, in the number and in its words. -/
theorem div_word (v : Int512) : ((v.words.toNat / 2 ^ 64 % (2 ^ 64) ^ 6 : ℕ) : ℤ)
    = v.toInt / 2 ^ 64 % (2 ^ 64) ^ 6 := by
  rw [v.toInt_eq, Int.natCast_mod, Int.natCast_div]
  split
  · have hmodulus : (modulus : ℤ) = (2 ^ 64) ^ 6 * 2 ^ 64 * 2 ^ 64 := by
      rw [modulus]
      norm_num
    rw [hmodulus, Int.sub_mul_ediv_right _ _ (by decide), Int.sub_mul_emod_self_left]
    rfl
  · rw [sub_zero]
    rfl

/-- The high word, as a signed one. -/
theorem div_high (v : Int512) : ((v.words.toNat / (2 ^ 64) ^ 7 : ℕ) : ℤ)
    = v.toInt / (2 ^ 64) ^ 7 + if v.isNegative then 2 ^ 64 else 0 := by
  rw [v.toInt_eq, Int.natCast_div]
  split
  · have hmodulus : (modulus : ℤ) = 2 ^ 64 * (2 ^ 64) ^ 7 := by
      rw [modulus]
      norm_num
    rw [hmodulus, Int.sub_mul_ediv_right _ _ (by decide), sub_add_cancel]
    rfl
  · rw [sub_zero, add_zero]
    rfl

/-- The quotient when one word is moved and bits are: of the six words in the middle, and of the
high one. -/
theorem div_pow_one (x : ℤ) {count : ℕ} (hone : count / 64 = 1) :
    x / 2 ^ count = x / 2 ^ 64 % (2 ^ 64) ^ 6 / 2 ^ (count % 64)
      + 2 ^ (384 - count % 64) * (x / (2 ^ 64) ^ 7) := by
  have hpow : (2 : ℤ) ^ count = 2 ^ 64 * 2 ^ (count % 64) := by
    rw [← pow_add]
    congr 1
    omega
  have hsix : (2 : ℤ) ^ (384 - count % 64) * 2 ^ (count % 64) = (2 ^ 64) ^ 6 := by
    rw [← pow_add, Nat.sub_add_cancel (by omega), ← pow_mul]
  have hdiv : x / (2 ^ 64) ^ 7 = x / 2 ^ 64 / (2 ^ 64) ^ 6 := by
    rw [Int.ediv_ediv_of_nonneg (by decide), ← pow_succ']
  have hsplit := Int.emod_add_mul_ediv (x / 2 ^ 64) ((2 ^ 64) ^ 6)
  rw [hpow, ← Int.ediv_ediv_of_nonneg (by decide), hdiv]
  conv_lhs => rw [← hsplit, ← hsix, mul_right_comm, Int.add_mul_ediv_right _ _ (by positivity), hsix]

/-- The high word, less the one of the sign, is smaller than a word. -/
theorem abs_high_le (v : Int512) :
    |v.toInt / (2 ^ 64) ^ 7 + if v.isNegative then 1 else 0| ≤ 2 ^ 64 := by
  have hword : v.words.toNat / (2 ^ 64) ^ 7 < 2 ^ 64 :=
    Nat.div_lt_of_lt_mul (v.words.toNat_lt.trans_eq (by rw [modulus]; norm_num))
  have hcast := v.div_high
  rw [abs_le]
  split at hcast <;> split <;> omega

/-- The high word is the one of the sign when the number fits below it. -/
theorem high_eq_sign_iff (v : Int512) :
    v.toInt / (2 ^ 64) ^ 7 + (if v.isNegative then 1 else 0) = 0
      ↔ -2 ^ 448 ≤ v.toInt ∧ v.toInt < 2 ^ 448 := by
  have hsign := v.isNegative_iff_toInt
  have hseven : (2 : ℤ) ^ 448 = (2 ^ 64) ^ 7 := by rw [← pow_mul]
  rw [hseven]
  split
  · next hneg =>
    rw [hsign] at hneg
    rw [add_eq_zero_iff_eq_neg, Int.ediv_eq_iff_of_pos (by positivity)]
    omega
  · next hneg =>
    rw [hsign] at hneg
    rw [add_zero, Int.ediv_eq_iff_of_pos (by positivity)]
    omega

/-- When one word is moved and bits are, the high word must be that of the sign. -/
theorem toInt_asr_one (v : Int512) {count : ℕ} (hone : count / 64 = 1) (h : count % 64 ≠ 0) :
    (v.asr count).toInt = v.toInt / 2 ^ count ↔ -2 ^ 448 ≤ v.toInt ∧ v.toInt < 2 ^ 448 := by
  obtain ⟨hlow, hhigh⟩ := div_range v.toInt_range.1 v.toInt_range.2 count
  have hwords := congrArg (Nat.cast : ℕ → ℤ) (v.toNat_asr_one hone h)
  have hless : (2 : ℤ) ^ (384 - count % 64) < (2 ^ 64) ^ 6 := by
    rw [← pow_mul]
    exact pow_lt_pow_right₀ (by decide) (by omega)
  have hpos : (0 : ℤ) < 2 ^ (384 - count % 64) := by positivity
  have hle : 2 ^ (384 - count % 64) ≤ (2 ^ 64) ^ 6 := by exact_mod_cast hless.le
  rw [Nat.cast_add, Nat.cast_add, Nat.cast_add, Int.natCast_div, v.div_word, Nat.cast_mul,
    v.div_high] at hwords
  -- the words and the quotient differ by a multiple of the high word, less the one of the sign
  rw [← v.high_eq_sign_iff, toInt_eq_iff (d := ((2 ^ 64) ^ 6 - 2 ^ (384 - count % 64))
    * (v.toInt / (2 ^ 64) ^ 7 + if v.isNegative then 1 else 0)) hlow hhigh ?_ ?_]
  · rw [mul_eq_zero, or_iff_right (sub_pos.2 hless).ne']
  · rw [hwords, div_pow_one v.toInt hone]
    split
    · rw [Nat.cast_sub hle, Nat.cast_sub (by decide)]
      push_cast
      refine Int.emod_eq_zero_of_dvd ⟨1, ?_⟩
      ring
    · push_cast
      refine Int.emod_eq_zero_of_dvd ⟨0, ?_⟩
      ring
  · rw [abs_mul, abs_of_pos (sub_pos.2 hless)]
    calc ((2 ^ 64) ^ 6 - 2 ^ (384 - count % 64))
          * |v.toInt / (2 ^ 64) ^ 7 + if v.isNegative then 1 else 0|
        ≤ (2 ^ 64) ^ 6 * 2 ^ 64 :=
          mul_le_mul (sub_le_self _ hpos.le) v.abs_high_le (abs_nonneg _) (by positivity)
      _ < (modulus : ℤ) := by rw [modulus]; norm_num

/-- All the bits are lost. -/
theorem toInt_asr_of_ge (v : Int512) {count : ℕ} (h : 512 ≤ count) :
    (v.asr count).toInt = v.toInt / 2 ^ count := by
  have hpow : (2 : ℤ) ^ 512 ≤ 2 ^ count := pow_le_pow_right₀ (by decide) h
  obtain ⟨hlow, hhigh⟩ := v.toInt_range
  rw [modulus_cast] at hlow hhigh
  rw [asr, dif_neg h.not_gt]
  split
  · next hsign =>
    rw [isNegative_iff_toInt] at hsign
    rw [Int.ediv_eq_neg_one_of_neg_of_le hsign (by omega)]
    rfl
  · next hsign =>
    rw [isNegative_iff_toInt, not_lt] at hsign
    rw [Int.ediv_eq_zero_of_lt hsign (by omega)]
    rfl

/-- **`asr()`** is a division when whole words are moved, on a number that is not negative, and,
when one word is moved, on one that fits below the high word; but then only on such a one. -/
theorem toInt_asr_iff (v : Int512) (count : ℕ) :
    (v.asr count).toInt = v.toInt / 2 ^ count ↔
      512 ≤ count ∨ count % 64 = 0 ∨
        if count / 64 = 1 then -2 ^ 448 ≤ v.toInt ∧ v.toInt < 2 ^ 448 else 0 ≤ v.toInt := by
  rcases lt_or_ge count 512 with hlt | hge
  · rw [or_iff_right hlt.not_ge]
    by_cases h : count % 64 = 0
    · rw [v.toInt_asr_other hlt (.inl h)]
      exact iff_of_true (.inl h) (.inl h)
    rw [or_iff_right h]
    split
    · next hone => exact v.toInt_asr_one hone h
    · next hone => rw [v.toInt_asr_other hlt (.inr hone), or_iff_right h]
  · exact iff_of_true (v.toInt_asr_of_ge hge) (.inl hge)

/-- `asr()`. -/
def checkedAsr (v : Int512) (count : ℤ) : Except Failure Int512 :=
  if count < 0 then .error (negativeCount "asr" count) else .ok (v.asr count.toNat)

/-- `lsl()`. -/
def checkedLsl (v : Int512) (count : ℤ) : Except Failure Int512 :=
  if count < 0 then .error (negativeCount "lsl" count) else .ok (v.lsl count.toNat)

/-- The right shift by a count is the division by a power of two, and it has no other answer to a
negative count than the left shift. -/
def AsrExact (v : Int512) (count : ℤ) : Prop :=
  (0 ≤ count → ∃ result, v.checkedAsr count = .ok result ∧
    result.toInt = v.toInt / 2 ^ count.toNat) ∧
  (count < 0 → v.checkedAsr count = .error (negativeCount "asr" count) ∧
    v.checkedLsl count = .error (negativeCount "lsl" count))

/-- **When the right shift is exact**: a negative count is refused as it is by the left shift, and
the others are as for `toInt_asr_iff`. -/
theorem asrExact_iff (v : Int512) (count : ℤ) :
    v.AsrExact count ↔
      count < 0 ∨ 512 ≤ count ∨ count % 64 = 0 ∨
        if count / 64 = 1 then -2 ^ 448 ≤ v.toInt ∧ v.toInt < 2 ^ 448 else 0 ≤ v.toInt := by
  unfold AsrExact checkedAsr checkedLsl
  rcases lt_or_ge count 0 with hneg | hnonneg
  · rw [if_pos hneg, if_pos hneg]
    exact iff_of_true ⟨fun h => absurd hneg h.not_gt, fun _ => ⟨rfl, rfl⟩⟩ (.inl hneg)
  · obtain ⟨n, rfl⟩ := Int.eq_ofNat_of_zero_le hnonneg
    have hiff := v.toInt_asr_iff n
    have hmove : (n : ℤ) / 64 = 1 ↔ n / 64 = 1 := by omega
    rw [if_neg hnonneg.not_gt, or_iff_right hnonneg.not_gt, Int.toNat_natCast]
    simp only [hmove]
    constructor
    · rintro ⟨h, -⟩
      obtain ⟨result, hresult, hvalue⟩ := h hnonneg
      cases hresult
      rcases hiff.1 hvalue with hge | hzero | hrest
      · exact .inl (by omega)
      · exact .inr (.inl (by omega))
      · exact .inr (.inr hrest)
    · intro h
      refine ⟨fun _ => ⟨_, rfl, hiff.2 ?_⟩, fun h => absurd h hnonneg.not_gt⟩
      rcases h with hge | hzero | hrest
      · exact .inl (by omega)
      · exact .inr (.inl (by omega))
      · exact .inr (.inr hrest)

/-- Half of -1 is a large number. -/
theorem allOnes_asr_one : ¬ allOnes.AsrExact 1 := by
  intro h
  obtain ⟨result, hresult, hvalue⟩ := h.1 (by decide)
  cases hresult
  revert hvalue
  decide

/-! ### Multiplication -/

/-- A shift by one bit does not see the sign. -/
theorem words_asr_one (v : Int512) : (v.asr 1).words = v.words.lsr 1 := by
  apply UInt512.toNat_inj
  rw [v.toNat_asr_other (by decide) (.inr (by decide)), UInt512.toNat_lsr]
  split
  · rfl
  · rfl

theorem words_half_lt {v : Int512} (h : ¬ (v.asr 1).words.isZero = true) :
    (v.asr 1).words.toNat < v.words.toNat := by
  rw [words_asr_one] at h ⊢
  exact UInt512.toNat_half_lt h

/-- `operator +=`: the addition includes the high word. -/
def add (lhs rhs : Int512) : Int512 := ⟨lhs.words.add rhs.words⟩

/-- The loop of `operator *=`. -/
def mulLoop (sum lhs factor : Int512) : Int512 :=
  if h : (factor.asr 1).words.isZero = true then sum
  else
    have : (factor.asr 1).words.toNat < factor.words.toNat := words_half_lt h
    let lhs := lhs.lsl 1
    mulLoop (if (factor.asr 1).words.low &&& 1 ≠ 0 then sum.add lhs else sum) lhs (factor.asr 1)
termination_by factor.words.toNat

/-- `operator *=`. -/
def mul (lhs rhs : Int512) : Int512 :=
  mulLoop (if rhs.words.low &&& 1 = 0 then zero else lhs) lhs rhs

/-- The loop is the one on unsigned numbers. -/
theorem words_mulLoop (sum lhs factor : Int512) :
    (mulLoop sum lhs factor).words = UInt512.mulLoop sum.words lhs.words factor.words := by
  induction h : factor.words.toNat using Nat.strong_induction_on generalizing sum lhs factor with
  | _ n ih =>
    subst h
    have hasr := factor.words_asr_one
    rw [mulLoop, UInt512.mulLoop]
    by_cases hzero : (factor.asr 1).words.isZero = true
    · rw [dif_pos hzero, dif_pos (hasr ▸ hzero)]
    · rw [dif_neg hzero, dif_neg (hasr ▸ hzero)]
      dsimp only
      rw [ih _ (words_half_lt hzero) _ _ _ rfl, ← hasr]
      split
      · rfl
      · rfl

theorem words_mul (a b : Int512) : (a.mul b).words = a.words.mul b.words := by
  rw [mul, UInt512.mul, words_mulLoop]
  split
  · rfl
  · rfl

/-- **The product** of signed numbers, in range modulo `2 ^ 512`. -/
theorem toInt_mul (a b : Int512) : (a.mul b).toInt = (a.toInt * b.toInt).bmod modulus := by
  apply toInt_eq_bmod
  rw [words_mul, UInt512.toNat_mul, Int.natCast_mod, Nat.cast_mul, Int.mul_emod, ← toInt_emod,
    ← toInt_emod, ← Int.mul_emod]

end Int512

end Prinbee
