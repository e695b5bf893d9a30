import Prinbee.Database.CellConversion
import Prinbee.Database.PrimaryIndexMap

/-!
# The order of cells in binary

`value_to_binary()` writes integers in big endian so that `memcmp()` compares them.  The negative
values are in two's complement: their first bit is set, and they come after the others.

## Main definitions

* `Cell.fixedInteger` — the columns of integers of a fixed size.
* `Cell.Ordered` — `memcmp()` compares two cells as their values compare.

## Main results

* `Cell.valueToBinary_eq` — the bytes of a cell are those of the number that it holds.
* `Cell.ordered_iff` — when two cells are ordered.
-/

namespace Prinbee

/-! ### The bytes of an integer -/

theorem keyValue_pushBe (k n : ℕ) : keyValue (pushBe k n) = n % 2 ^ (8 * k) := by
  rw [keyValue, pushBe, List.reverse_reverse]
  rw [← pow_eq]
  exact UInt512.ofBytes_toBytes k n

theorem pushBe_mod (k n : ℕ) : pushBe k (n % 2 ^ (8 * k)) = pushBe k n := by
  rw [pushBe, pushBe, ← pow_eq, UInt512.toBytes_mod]

/-- The bytes of two numbers compare as the numbers. -/
theorem memcmp_pushBe (k m n : ℕ) :
    memcmp (pushBe k m) (pushBe k n) = compare (m % 2 ^ (8 * k)) (n % 2 ^ (8 * k)) := by
  rw [memcmp_eq (by rw [length_pushBe, length_pushBe]), keyValue_pushBe, keyValue_pushBe]

namespace IntegerType

variable {t : IntegerType} {v w : ℤ}

/-- A number that is read is the low bits, modulo their count. -/
theorem read_emod (t : IntegerType) {bits k : ℕ} (h : k ≤ bits) (n : ℕ) :
    t.read bits n % 2 ^ k = (n : ℤ) % 2 ^ k := by
  have hdvd : (2 : ℤ) ^ k ∣ 2 ^ bits := pow_dvd_pow 2 h
  have hlow : ((n % 2 ^ bits : ℕ) : ℤ) % 2 ^ k = (n : ℤ) % 2 ^ k := by
    push_cast
    exact Int.emod_emod_of_dvd _ hdvd
  rw [read]
  split
  · rw [signedCast]
    split
    · exact hlow
    · obtain ⟨q, hq⟩ := hdvd
      rw [hq, Int.sub_mul_emod_self_left]
      exact hlow
  · exact hlow

/-- The values of a type are less apart than there are. -/
theorem Holds.sub_lt (hv : t.Holds v) (hw : t.Holds w) (hpos : 0 < t.bytes) :
    v - w < 2 ^ (8 * t.bytes) := by
  have hfull : ((2 ^ (8 * t.bytes) : ℕ) : ℤ) = 2 ^ (8 * t.bytes) := by push_cast; rfl
  cases hs : t.signed with
  | false =>
    have hv' := (holds_unsigned hs).1 hv
    have hw' := (holds_unsigned hs).1 hw
    omega
  | true =>
    have hv' := (holds_signed hs).1 hv
    have hw' := (holds_signed hs).1 hw
    have htwo : 2 ^ (8 * t.bytes) = 2 * 2 ^ (8 * t.bytes - 1) := by
      rw [← Nat.pow_succ']
      congr 1
      omega
    omega

/-- The bytes of a value of the type: a negative value comes after the others. -/
theorem Holds.toNat_eq (h : t.Holds v) (hpos : 0 < t.bytes) :
    (((v % 2 ^ (8 * t.bytes)).toNat : ℕ) : ℤ) = if v < 0 then v + 2 ^ (8 * t.bytes) else v := by
  have hzero : t.Holds 0 := by
    unfold Holds
    split
    · exact ⟨Int.neg_nonpos_of_nonneg (by positivity), by positivity⟩
    · exact ⟨le_rfl, by positivity⟩
  have hupper := h.sub_lt hzero hpos
  have hlower := hzero.sub_lt h hpos
  rw [Int.toNat_of_nonneg (Int.emod_nonneg v (by positivity))]
  split
  · rw [← Int.add_emod_right, Int.emod_eq_of_lt (by omega) (by omega)]
  · exact Int.emod_eq_of_lt (by omega) (by omega)

/-- The bytes of two values compare as the values, but for a negative one and one that is not. -/
theorem memcmp_encode_iff (hpos : 0 < t.bytes) (hv : t.Holds v) (hw : t.Holds w) :
    memcmp (t.encode v) (t.encode w) = compare v w ↔ (v < 0 ↔ w < 0) := by
  have hmod (v : ℤ) : (v % 2 ^ (8 * t.bytes)).toNat % 2 ^ (8 * t.bytes) =
      (v % 2 ^ (8 * t.bytes)).toNat := by
    apply Nat.mod_eq_of_lt
    have hlt := Int.emod_lt_of_pos v (show (0 : ℤ) < 2 ^ (8 * t.bytes) by positivity)
    have hfull : ((2 ^ (8 * t.bytes) : ℕ) : ℤ) = 2 ^ (8 * t.bytes) := by push_cast; rfl
    omega
  have hvw := hv.sub_lt hw hpos
  have hwv := hw.sub_lt hv hpos
  have heqv := hv.toNat_eq hpos
  have heqw := hw.toNat_eq hpos
  rw [encode, encode, memcmp_pushBe, hmod, hmod]
  generalize (v % 2 ^ (8 * t.bytes)).toNat = m at heqv ⊢
  generalize (w % 2 ^ (8 * t.bytes)).toNat = n at heqw ⊢
  rcases lt_trichotomy v w with h | rfl | h
  · rw [compare_lt_iff_lt.2 h, compare_lt_iff_lt]
    split at heqv <;> split at heqw <;> omega
  · rw [compare_eq_iff_eq.2 rfl, compare_eq_iff_eq]
    omega
  · rw [compare_gt_iff_gt.2 h, compare_gt_iff_gt]
    split at heqv <;> split at heqw <;> omega

end IntegerType

/-! ### Cells -/

namespace Cell

variable {F : Type} (fmt : FloatFormat F)

/-- The columns of integers of a fixed size. -/
def fixedInteger : StructType → Option IntegerType
  | .version => some ⟨false, 4⟩
  | .oid | .reference | .time | .mstime | .ustime => some ⟨false, 8⟩
  | .nstime => some ⟨false, 16⟩
  | type => type.integerType

/-- `memcmp()` of the bytes of two cells is the comparison of their values. -/
def Ordered (c c' : Cell F) (v w : ℤ) : Prop :=
  ∃ bytes bytes', c.valueToBinary fmt = .ok bytes ∧ c'.valueToBinary fmt = .ok bytes' ∧
    memcmp bytes bytes' = compare v w

theorem fixedInteger_bytes {type : StructType} {t : IntegerType}
    (h : fixedInteger type = some t) : 0 < t.bytes ∧ t.bytes ≤ 64 := by
  cases type <;> cases h <;> decide

/-- The bytes of a cell are those of the number that it holds. -/
theorem valueToBinary_eq {c : Cell F} {t : IntegerType}
    (htype : fixedInteger c.schemaColumn.type = some t) :
    c.valueToBinary fmt = .ok (t.encode (c.number t)) := by
  have hle := (fixedInteger_bytes htype).2
  have hencode : pushBe t.bytes c.integer.toNat = t.encode (c.number t) := by
    have hnumber : c.number t % 2 ^ (8 * t.bytes) =
        ((c.integer.toNat % 2 ^ (8 * t.bytes) : ℕ) : ℤ) := by
      push_cast
      apply IntegerType.read_emod
      split <;> omega
    rw [IntegerType.encode, hnumber, Int.toNat_natCast, pushBe_mod]
  have hlow (hbytes : t.bytes ≤ 8) : pushBe t.bytes c.integer.low = t.encode (c.number t) := by
    rw [← hencode, UInt512.low_eq, ← pushBe_mod, ← pushBe_mod _ c.integer.toNat,
      Nat.mod_mod_of_dvd _ (pow_dvd_pow 2 (by omega))]
  have hwords {count : ℕ} (hbytes : t.bytes = 8 * count) :
      pushWords count c.integer = t.encode (c.number t) := by
    rw [pushWords_eq _ (by omega), ← hbytes, hencode]
  rw [valueToBinary]
  cases h : c.schemaColumn.type
  all_goals
    rw [h] at htype
    cases htype
  -- up to 64 bits are in the low word
  all_goals
    first
    | exact congrArg Except.ok (hlow (by decide))
    | exact congrArg Except.ok (hwords rfl)

/-- **The bytes of two cells are in the order of their values if and only if** the type has no sign
or both values have the same one. -/
theorem ordered_iff {c c' : Cell F} {t : IntegerType} {v w : ℤ}
    (htype : fixedInteger c.schemaColumn.type = some t)
    (htype' : c'.schemaColumn.type = c.schemaColumn.type) (hv : t.Holds v) (hw : t.Holds w)
    (hc : c.number t = v) (hc' : c'.number t = w) :
    Ordered fmt c c' v w ↔ t.signed = false ∨ (v < 0 ↔ w < 0) := by
  have hcompare := IntegerType.memcmp_encode_iff (fixedInteger_bytes htype).1 hv hw
  have hbytes := valueToBinary_eq fmt htype
  have hbytes' := valueToBinary_eq fmt (htype' ▸ htype)
  rw [hc] at hbytes
  rw [hc'] at hbytes'
  have hordered : Ordered fmt c c' v w ↔ memcmp (t.encode v) (t.encode w) = compare v w := by
    constructor
    · rintro ⟨a, b, ha, hb, h⟩
      rw [hbytes] at ha
      rw [hbytes'] at hb
      cases ha
      cases hb
      exact h
    · intro h
      exact ⟨_, _, hbytes, hbytes', h⟩
  rw [hordered, hcompare]
  constructor
  · exact .inr
  · rintro (hsigned | h)
    · have hv' := (IntegerType.holds_unsigned hsigned).1 hv
      have hw' := (IntegerType.holds_unsigned hsigned).1 hw
      omega
    · exact h

/-- A cell whose value was set. -/
def ofInt (type : StructType) (v : ℤ) : Cell (UInt64 × UInt64) := (ofType type).setInteger v

/-- Two negative values. -/
theorem ordered_negative :
    Ordered Row.plainFloat (ofInt .int16 (-300)) (ofInt .int16 (-2)) (-300) (-2) := by
  refine Iff.mpr (ordered_iff Row.plainFloat (t := ⟨true, 2⟩) rfl rfl ?_ ?_ ?_ ?_) (.inr ?_)
  all_goals decide

/-- A negative value comes after zero. -/
theorem not_ordered : ¬ Ordered Row.plainFloat (ofInt .int8 (-1)) (ofInt .int8 0) (-1) 0 := by
  rintro ⟨bytes, bytes', h, h', hcompare⟩
  cases h
  cases h'
  revert hcompare
  decide

end Cell

end Prinbee
