import Prinbee.BigInt.UInt512

/-!
# The arithmetic of unsigned numbers

`uint512.cpp`: the multiplication, which adds up the doubles of a factor, and the shifts with the
check of their count.  With these, all of the arithmetic is the one of natural numbers modulo
`2 ^ 512`.

## Main definitions

* `UInt512.checkedLsl`, `UInt512.checkedLsr` — the shifts by an `int`.
* `UInt512.mul` — `operator *=`.

## Main results

* `UInt512.toNat_mul` — the product.
* `UInt512.arithmetic_exact` — what each operation computes.
-/

namespace Prinbee

/-- What a shift throws when its count is negative. -/
def negativeCount (function : String) (count : ℤ) : Failure :=
  .thrown .outOfRange
    (function ++ "() cannot be called with a negative value (" ++ toString count ++ ").")

namespace UInt512

/-! ### Shifts -/

/-- `lsl()`. -/
def checkedLsl (v : UInt512) (count : ℤ) : Except Failure UInt512 :=
  if count < 0 then .error (negativeCount "lsl" count) else .ok (v.lsl count.toNat)

/-- `lsr()`. -/
def checkedLsr (v : UInt512) (count : ℤ) : Except Failure UInt512 :=
  if count < 0 then .error (negativeCount "lsr" count) else .ok (v.lsr count.toNat)

theorem checkedLsl_natCast (v : UInt512) (count : ℕ) : v.checkedLsl count = .ok (v.lsl count) :=
  if_neg (Int.natCast_nonneg count).not_gt

theorem checkedLsr_natCast (v : UInt512) (count : ℕ) : v.checkedLsr count = .ok (v.lsr count) :=
  if_neg (Int.natCast_nonneg count).not_gt

/-! ### Multiplication -/

/-- What is not zero once it is halved is more than its half. -/
theorem toNat_half_lt {v : UInt512} (h : ¬ (v.lsr 1).isZero = true) : (v.lsr 1).toNat < v.toNat := by
  apply toNat_lsr_lt 1 (by decide)
  intro hzero
  apply h
  rw [isZero_iff, toNat_lsr, hzero, Nat.zero_div]

/-- The loop of `operator *=`: the sum, the factor that is doubled and the one that is halved. -/
def mulLoop (sum lhs factor : UInt512) : UInt512 :=
  if h : (factor.lsr 1).isZero = true then sum
  else
    have : (factor.lsr 1).toNat < factor.toNat := toNat_half_lt h
    let lhs := lhs.lsl 1
    mulLoop (if (factor.lsr 1).low &&& 1 ≠ 0 then sum.add lhs else sum) lhs (factor.lsr 1)
termination_by factor.toNat

/-- `operator *=`. -/
def mul (lhs rhs : UInt512) : UInt512 :=
  mulLoop (if rhs.low &&& 1 = 0 then zero else lhs) lhs rhs

theorem low_and_one (v : UInt512) : v.low &&& 1 = v.toNat % 2 := v.low_and (k := 1) (by decide)

/-- The sum with the double, if a bit of the factor is set. -/
theorem toNat_sum (sum lhs factor : UInt512) :
    (if factor.low &&& 1 ≠ 0 then sum.add lhs else sum).toNat
      = (sum.toNat + lhs.toNat * (factor.toNat % 2)) % modulus := by
  rw [low_and_one]
  rcases Nat.mod_two_eq_zero_or_one factor.toNat with h | h
  · rw [h, if_neg (not_not.2 rfl), Nat.mul_zero, Nat.add_zero, Nat.mod_eq_of_lt sum.toNat_lt]
  · rw [h, if_pos (by decide), toNat_add, Nat.mul_one]

/-- The loop adds the product with all the bits of the factor but the first. -/
theorem toNat_mulLoop (sum lhs factor : UInt512) :
    (mulLoop sum lhs factor).toNat
      = (sum.toNat + lhs.toNat * (2 * (factor.toNat / 2))) % modulus := by
  induction h : factor.toNat using Nat.strong_induction_on generalizing sum lhs factor with
  | _ n ih =>
    subst h
    have hhalf : (factor.lsr 1).toNat = factor.toNat / 2 := by rw [toNat_lsr, Nat.pow_one]
    rw [mulLoop]
    split
    · rename_i hzero
      rw [isZero_iff, hhalf] at hzero
      rw [hzero, Nat.mul_zero, Nat.add_zero, Nat.mod_eq_of_lt sum.toNat_lt]
    · rename_i hne
      rw [isZero_iff, hhalf] at hne
      dsimp only
      rw [ih _ (by rw [hhalf]; omega) _ _ _ rfl, toNat_sum, toNat_lsl, Nat.pow_one, hhalf]
      -- the last bit of the half and the bits before it
      have hbits := Nat.mod_add_div (factor.toNat / 2) 2
      generalize factor.toNat / 2 = half at hbits ⊢
      have hsum : sum.toNat + lhs.toNat * (2 * half) =
          sum.toNat + lhs.toNat * 2 * (half % 2) + lhs.toNat * 2 * (2 * (half / 2)) := by
        calc sum.toNat + lhs.toNat * (2 * half)
            = sum.toNat + lhs.toNat * 2 * (half % 2 + 2 * (half / 2)) := by rw [hbits]; ring
          _ = sum.toNat + lhs.toNat * 2 * (half % 2) + lhs.toNat * 2 * (2 * (half / 2)) := by ring
      rw [hsum, Nat.add_mod, Nat.mod_mod, Nat.mod_mul_mod, ← Nat.add_mod, Nat.add_mod,
        Nat.add_mod sum.toNat, Nat.mod_mul_mod, ← Nat.add_mod sum.toNat, ← Nat.add_mod]

/-- **Multiplication** modulo `2 ^ 512`. -/
theorem toNat_mul (a b : UInt512) : (a.mul b).toNat = a.toNat * b.toNat % modulus := by
  have hfirst : (if b.low &&& 1 = 0 then zero else a).toNat = a.toNat * (b.toNat % 2) := by
    rw [low_and_one]
    rcases Nat.mod_two_eq_zero_or_one b.toNat with h | h
    · rw [h, if_pos rfl, toNat_zero, Nat.mul_zero]
    · rw [h, if_neg (by decide), Nat.mul_one]
  rw [mul, toNat_mulLoop, hfirst, ← Nat.mul_add, Nat.mod_add_div]

/-! ### All of it -/

/-- **The arithmetic is exact modulo `2 ^ 512`**: the sum, the difference, the product and the
shifts are those of the numbers, the comparison is their order, and the division is the Euclidean
one.  A count that is negative is refused. -/
theorem arithmetic_exact (a b : UInt512) :
    (a.add b).toNat = (a.toNat + b.toNat) % modulus ∧
    ((a.sub b).toNat : ℤ) = ((a.toNat : ℤ) - b.toNat) % modulus ∧
    (a.mul b).toNat = a.toNat * b.toNat % modulus ∧
    (∀ count : ℕ, ∃ v, a.checkedLsl count = .ok v ∧ v.toNat = a.toNat * 2 ^ count % modulus) ∧
    (∀ count : ℕ, ∃ v, a.checkedLsr count = .ok v ∧ v.toNat = a.toNat / 2 ^ count) ∧
    (∀ count : ℤ, count < 0 → Throws (a.checkedLsl count) ∧ Throws (a.checkedLsr count)) ∧
    a.compare b = Ord.compare a.toNat b.toNat ∧
    (b.toNat ≠ 0 → ∃ quotient remainder, a.div b = .ok (quotient, remainder) ∧
      quotient.toNat = a.toNat / b.toNat ∧ remainder.toNat = a.toNat % b.toNat) := by
  have hsub : ((a.sub b).toNat : ℤ) = ((a.toNat : ℤ) - b.toNat) % modulus := by
    have hlt := b.toNat_lt
    rw [toNat_sub, Int.natCast_mod, Nat.cast_sub (by omega), Nat.cast_add,
      add_sub_right_comm, Int.add_emod_right]
  refine ⟨toNat_add a b, hsub, toNat_mul a b,
    fun count => ⟨_, a.checkedLsl_natCast count, a.toNat_lsl count⟩,
    fun count => ⟨_, a.checkedLsr_natCast count, a.toNat_lsr count⟩,
    fun count hneg => ⟨⟨_, _, if_pos hneg⟩, ⟨_, _, if_pos hneg⟩⟩, compare_eq a b, fun hb => ?_⟩
  obtain ⟨hquotient, hremainder⟩ := a.divide_spec hb
  exact ⟨_, _, if_neg (mt (isZero_iff b).1 hb), hquotient, hremainder⟩

/-- The division of 7 by 2, as an instance. -/
theorem arithmetic_exact_seven_two : ∃ quotient remainder,
    (ofUInt64 7).div (ofUInt64 2) = .ok (quotient, remainder) ∧
      quotient.toNat = 3 ∧ remainder.toNat = 1 := by
  have hseven : (ofUInt64 7).toNat = 7 := toNat_ofUInt64 (by decide)
  have htwo : (ofUInt64 2).toNat = 2 := toNat_ofUInt64 (by decide)
  obtain ⟨-, -, -, -, -, -, -, hdiv⟩ := arithmetic_exact (ofUInt64 7) (ofUInt64 2)
  rw [hseven, htwo] at hdiv
  exact hdiv (by decide)

end UInt512

end Prinbee
