import Prinbee.Data.ConvertRoundTrip
import Prinbee.Database.RowRoundTrip

/-!
# Cells converted

`cell::copy_from()` between two columns of integers: the eight words of the source are written as a
text of the type of the source, which checks that they fit it, and the text is read back into the
eight words of the destination, which checks nothing but the sign.

## Main definitions

* `IntegerType` — a type of integers, its values and their bytes.
* `Cell.number` — the number that a cell of integers holds.
* `Cell.Converts` — what a copy to another column should do.
* `Cell.ConvertsWell` — when it does it.

## Main results

* `Cell.valueFromBinary_encode` — the eight words that a value is read as.
* `Cell.converts_iff` — a copy does what it should exactly when the types are the same, or the value
  is representable or a negative one for a column that is not signed; the values from `2 ^ 63` on of
  64 bits are always refused.
-/

namespace Prinbee

open UInt512 (ofBytes toBytes modulus length_toBytes ofBytes_toBytes bases)

/-! ### Integers -/

/-- Signed or not, and the number of bytes. -/
structure IntegerType where
  signed : Bool
  bytes : ℕ
  deriving DecidableEq

/-- The columns of integers. -/
def StructType.integerType : StructType → Option IntegerType
  | .bits8 | .uint8 => some ⟨false, 1⟩
  | .bits16 | .uint16 => some ⟨false, 2⟩
  | .bits32 | .uint32 => some ⟨false, 4⟩
  | .bits64 | .uint64 => some ⟨false, 8⟩
  | .bits128 | .uint128 => some ⟨false, 16⟩
  | .bits256 | .uint256 => some ⟨false, 32⟩
  | .bits512 | .uint512 => some ⟨false, 64⟩
  | .int8 => some ⟨true, 1⟩
  | .int16 => some ⟨true, 2⟩
  | .int32 => some ⟨true, 4⟩
  | .int64 => some ⟨true, 8⟩
  | .int128 => some ⟨true, 16⟩
  | .int256 => some ⟨true, 32⟩
  | .int512 => some ⟨true, 64⟩
  | _ => none

namespace IntegerType

variable (t : IntegerType)

/-- The values of the type. -/
def Holds (v : ℤ) : Prop :=
  if t.signed then -2 ^ (8 * t.bytes - 1) ≤ v ∧ v < 2 ^ (8 * t.bytes - 1)
  else 0 ≤ v ∧ v < 2 ^ (8 * t.bytes)

instance (v : ℤ) : Decidable (t.Holds v) := by
  unfold Holds
  infer_instance

/-- The bytes of a value, the most significant one first. -/
def encode (v : ℤ) : Bytes := pushBe t.bytes (v % 2 ^ (8 * t.bytes)).toNat

/-- The number in the low bits of a number. -/
def read (bits n : ℕ) : ℤ := if t.signed then signedCast bits (n % 2 ^ bits) else (n % 2 ^ bits : ℕ)

end IntegerType

/-- A number over the eight words, in two's complement. -/
def twosComplement (v : ℤ) : ℕ := (v % (modulus : ℤ)).toNat

namespace Cell

variable {F : Type} (fmt : FloatFormat F) (lib : Conversions)

/-- The number that the getter of a type returns: up to 64 bits of the low word, or the eight
words. -/
def number (t : IntegerType) (c : Cell F) : ℤ :=
  t.read (if t.bytes ≤ 8 then 8 * t.bytes else 512) c.integer.toNat

/-- **A copy keeps the value if the destination can hold it, and throws otherwise.** The cell is not
changed by a copy that throws. -/
def Converts (c source : Cell F) (t' : IntegerType) (v : ℤ) : Prop :=
  if t'.Holds v then ∃ c', c.copyFrom fmt lib source = .ok c' ∧ c'.number t' = v
  else ∃ type message, c.copyFrom fmt lib source = .error (.thrown type message)

/-- The types are the same; or the value is held, or its sign is refused; the values that are read
as negative ones are always refused. -/
def ConvertsWell (type type' : StructType) (t t' : IntegerType) (v : ℤ) : Prop :=
  type = type' ∨
    if t.bytes = 8 ∧ 2 ^ 63 ≤ v then ¬ t'.Holds v else t'.Holds v ∨ (v < 0 ∧ t'.signed = false)

end Cell

/-! ### Two's complement -/

section

variable {t : IntegerType} {v : ℤ}

theorem twosComplement_of_nonneg (h : 0 ≤ v) (hlt : v < modulus) : twosComplement v = v.toNat := by
  rw [twosComplement, Int.emod_eq_of_lt h hlt]

theorem twosComplement_of_neg (h : v < 0) (hge : -(modulus : ℤ) ≤ v) :
    twosComplement v + v.natAbs = modulus := by
  have hmod : v % (modulus : ℤ) = v + modulus := by
    rw [← Int.add_emod_right, Int.emod_eq_of_lt (by omega) (by omega)]
  rw [twosComplement, hmod]
  omega

/-- The values of a type, with numbers that are not negative. -/
theorem IntegerType.holds_signed (h : t.signed = true) :
    t.Holds v ↔ -((2 ^ (8 * t.bytes - 1) : ℕ) : ℤ) ≤ v ∧ v < ((2 ^ (8 * t.bytes - 1) : ℕ) : ℤ) := by
  rw [Holds, if_pos h]
  push_cast
  rfl

theorem IntegerType.holds_unsigned (h : t.signed = false) :
    t.Holds v ↔ 0 ≤ v ∧ v < ((2 ^ (8 * t.bytes) : ℕ) : ℤ) := by
  rw [Holds, if_neg (by simp [h])]
  push_cast
  rfl

/-- The low bits of a value in two's complement. -/
theorem twosComplement_mod (v : ℤ) {n : ℕ} (hn : n ≤ 512) :
    ((twosComplement v % 2 ^ n : ℕ) : ℤ) = v % 2 ^ n := by
  have hdvd : ((2 : ℤ) ^ n) ∣ (modulus : ℤ) := by
    rw [UInt512.modulus_eq]
    push_cast
    exact pow_dvd_pow 2 hn
  have hpos : (0 : ℤ) < modulus := by
    have := two_pow_le_modulus (show 0 ≤ 512 by decide)
    omega
  rw [twosComplement]
  push_cast
  rw [Int.toNat_of_nonneg (Int.emod_nonneg v hpos.ne'), Int.emod_emod_of_dvd v hdvd]

/-- A value that the type holds is read back from its low bits. -/
theorem IntegerType.Holds.read_twosComplement (h : t.Holds v) (hpos : 0 < t.bytes) {n : ℕ}
    (hle : 8 * t.bytes ≤ n) (hn : n ≤ 512) : t.read n (twosComplement v) = v := by
  have hcast := twosComplement_mod v hn
  have hfull : ((2 ^ n : ℕ) : ℤ) = 2 ^ n := by push_cast; rfl
  rw [read]
  cases hs : t.signed with
  | false =>
    obtain ⟨hnonneg, hlt⟩ := (holds_unsigned hs).1 h
    have hpow : 2 ^ (8 * t.bytes) ≤ 2 ^ n := Nat.pow_le_pow_right (by decide) hle
    rw [if_neg (by decide), hcast, Int.emod_eq_of_lt hnonneg (by omega)]
  | true =>
    obtain ⟨hge, hlt⟩ := (holds_signed hs).1 h
    have hpow : 2 ^ (8 * t.bytes - 1) ≤ 2 ^ (n - 1) := Nat.pow_le_pow_right (by decide) (by omega)
    have htwo : 2 ^ n = 2 * 2 ^ (n - 1) := by
      rw [← Nat.pow_succ']
      congr 1
      omega
    rw [if_pos rfl, signedCast, hcast]
    rcases lt_or_ge v 0 with hneg | hnonneg
    · have hv : v % 2 ^ n = v + 2 ^ n := by
        rw [← Int.add_emod_right, Int.emod_eq_of_lt (by omega) (by omega)]
      rw [if_neg (by omega), hv]
      omega
    · have hv : v % 2 ^ n = v := Int.emod_eq_of_lt hnonneg (by omega)
      rw [if_pos (by omega), hv]

theorem IntegerType.Holds.natAbs_lt (h : t.Holds v) (hpos : 0 < t.bytes) (hle : t.bytes ≤ 64) :
    v.natAbs < modulus := by
  have hmodulus := two_pow_le_modulus (show 8 * t.bytes ≤ 512 by omega)
  cases hs : t.signed with
  | false =>
    have hbounds := (holds_unsigned hs).1 h
    omega
  | true =>
    have hbounds := (holds_signed hs).1 h
    have hpow : 2 ^ (8 * t.bytes - 1) < 2 ^ (8 * t.bytes) :=
      Nat.pow_lt_pow_right (by decide) (by omega)
    omega

/-- The number that the bytes of a value are. -/
theorem IntegerType.Holds.toNat_emod (h : t.Holds v) (hpos : 0 < t.bytes) (hle : t.bytes ≤ 64) :
    (v % 2 ^ (8 * t.bytes)).toNat < 2 ^ (8 * t.bytes) ∧
      (if t.signed then signedNat (8 * t.bytes) (v % 2 ^ (8 * t.bytes)).toNat
        else (v % 2 ^ (8 * t.bytes)).toNat) = twosComplement v := by
  have hmodulus := two_pow_le_modulus (show 8 * t.bytes ≤ 512 by omega)
  have hfull : ((2 ^ (8 * t.bytes) : ℕ) : ℤ) = 2 ^ (8 * t.bytes) := by push_cast; rfl
  cases hs : t.signed with
  | false =>
    obtain ⟨hnonneg, hlt⟩ := (holds_unsigned hs).1 h
    rw [if_neg (by decide), Int.emod_eq_of_lt hnonneg (by omega),
      twosComplement_of_nonneg hnonneg (by omega)]
    omega
  | true =>
    obtain ⟨hge, hlt⟩ := (holds_signed hs).1 h
    have htwo : 2 ^ (8 * t.bytes) = 2 * 2 ^ (8 * t.bytes - 1) := by
      rw [← Nat.pow_succ']
      congr 1
      omega
    rw [if_pos rfl, signedNat]
    rcases lt_or_ge v 0 with hneg | hnonneg
    · have hv : v % 2 ^ (8 * t.bytes) = v + 2 ^ (8 * t.bytes) := by
        rw [← Int.add_emod_right, Int.emod_eq_of_lt (by omega) (by omega)]
      have hneg' := twosComplement_of_neg hneg (by omega)
      rw [hv, if_neg (by omega)]
      omega
    · rw [Int.emod_eq_of_lt hnonneg (by omega), if_pos (by omega),
        twosComplement_of_nonneg hnonneg (by omega)]
      omega

/-! ### Reading a value -/

/-- The value that the eight words are read as: the parameter of `set_integer()` is signed. -/
def IntegerType.decoded (t : IntegerType) (v : ℤ) : ℤ :=
  if t.bytes = 8 ∧ 2 ^ 63 ≤ v then v - 2 ^ 64 else v

/-- The eight words that bytes of the type are read as. -/
def IntegerType.extended (t : IntegerType) (m : ℕ) : ℕ :=
  if t.signed ∨ t.bytes = 8 then signedNat (8 * t.bytes) m else m

theorem IntegerType.extended_eq (h : t.signed = true ∨ t.bytes = 8) (m : ℕ) :
    t.extended m = signedNat (8 * t.bytes) m := if_pos h

theorem IntegerType.bytes_bounds {type : StructType} (h : type.integerType = some t) :
    0 < t.bytes ∧ t.bytes ≤ 64 := by
  cases type <;> cases h <;> decide

/-- All the bits of a number. -/
theorem signedNat_all {bits : ℕ} (h : bits = UInt512.bits) (m : ℕ) : signedNat bits m = m := by
  rw [signedNat, h, ← UInt512.modulus_eq, Nat.add_sub_cancel, ite_self]

theorem IntegerType.Holds.extended_emod (h : t.Holds v) (hpos : 0 < t.bytes) (hle : t.bytes ≤ 64) :
    t.extended (v % 2 ^ (8 * t.bytes)).toNat = twosComplement (t.decoded v) := by
  obtain ⟨hlt, heq⟩ := h.toNat_emod hpos hle
  by_cases hsigned : t.signed = true
  · -- the high bit is the sign
    have hsmall : ¬ (t.bytes = 8 ∧ 2 ^ 63 ≤ v) := by
      rintro ⟨hbytes, hge⟩
      have hlt' := ((holds_signed hsigned).1 h).2
      rw [hbytes] at hlt'
      omega
    rw [extended_eq (.inl hsigned), decoded, if_neg hsmall, ← heq, if_pos hsigned]
  · rw [if_neg hsigned] at heq
    obtain ⟨hnonneg, hbound⟩ := (holds_unsigned (Bool.eq_false_of_not_eq_true hsigned)).1 h
    by_cases hbytes : t.bytes = 8
    · have hmodulus := two_pow_le_modulus (show 64 ≤ 512 by decide)
      rw [hbytes] at hbound
      have hnat := twosComplement_of_nonneg hnonneg (by omega)
      rw [extended_eq (.inr hbytes), heq, hnat, hbytes, signedNat, decoded]
      by_cases hge : 2 ^ 63 ≤ v
      · -- the number is read as a negative one
        have hneg := twosComplement_of_neg (show v - 2 ^ 64 < 0 by omega) (by omega)
        rw [if_neg (by omega), if_pos ⟨hbytes, hge⟩]
        omega
      · rw [if_pos (by omega), if_neg (fun hboth => hge hboth.2), hnat]
    · rw [extended, if_neg (by simp [hsigned, hbytes]), decoded, if_neg (fun hboth => hbytes hboth.1)]
      exact heq

theorem pushWords_eq (u : UInt512) {count : ℕ} (h : count ≤ 8) :
    pushWords count u = pushBe (8 * count) u.toNat := by
  have hmemory : u.memory = u.limbs.flatMap (toBytes 8) := List.map_flatMap
  have hlength : ((u.limbs.take count).flatMap (toBytes 8)).length = 8 * count := by
    rw [List.length_flatMap, List.map_congr_left fun w _ => length_toBytes 8 w, List.map_const',
      List.sum_replicate, List.length_take, u.fits.length, Nat.min_eq_left h]
    exact Nat.mul_comm count 8
  have hwords : (u.limbs.take count).flatMap (toBytes 8) = u.memory.take (8 * count) := by
    rw [hmemory]
    conv_rhs => rw [← List.take_append_drop count u.limbs, List.flatMap_append]
    rw [List.take_left' hlength]
  rw [pushBe, ← UInt512.take_memory u (by omega), ← hwords, List.reverse_flatMap]
  rfl

/-- Words that are the bytes of a number. -/
theorem readWords_pushBe {count m : ℕ} (h : count ≤ 8) (hm : m < modulus) (rest : Bytes) :
    ∃ u : UInt512, u.toNat = m ∧
      readWords count (pushBe (8 * count) m ++ rest) = .ok (u.limbs.take count, rest) := by
  have hnumber : (UInt512.ofMemory (toBytes 64 m)).toNat = m := by
    rw [UInt512.toNat_ofMemory (length_toBytes 64 m).le, ofBytes_toBytes]
    exact Nat.mod_eq_of_lt hm
  refine ⟨UInt512.ofMemory (toBytes 64 m), hnumber, ?_⟩
  have hread := readWords_pushWords (UInt512.ofMemory (toBytes 64 m)) h rest
  rwa [pushWords_eq _ h, hnumber] at hread

namespace Cell

variable {F : Type} {fmt : FloatFormat F} {source : Cell F} {rest : Bytes}

/-- What the binary format of a value is read as. -/
def ReadAs (fmt : FloatFormat F) (source : Cell F) (bytes rest : Bytes) (n : ℕ) : Prop :=
  ∃ c, source.valueFromBinary fmt (bytes ++ rest) = .ok (c, rest) ∧
    c.schemaColumn = source.schemaColumn ∧ c.integer.toNat = n

/-- A value of up to 64 bits is read with its sign. -/
theorem readAs_signed {k m : ℕ} (hpos : 0 < k) (hk : k ≤ 8) (hm : m < 2 ^ (8 * k))
    (hread : source.valueFromBinary fmt (pushBe k m ++ rest) =
      (readBe k (pushBe k m ++ rest)).bind fun x =>
        .ok (source.setInteger (signedCast (8 * k) x.1), x.2)) :
    ReadAs fmt source (pushBe k m) rest (signedNat (8 * k) m) := by
  rw [readBe_pushBe, pow_eq, Nat.mod_eq_of_lt hm] at hread
  exact ⟨_, hread, rfl, toNat_setInteger_signedCast source (by omega) (by omega) hm⟩

/-- A value of some words is read without a sign. -/
theorem readAs_words {k m : ℕ} (hk : k ≤ 8) (hm : m < 2 ^ (64 * k))
    (hread : source.valueFromBinary fmt (pushBe (8 * k) m ++ rest) =
      (readWords k (pushBe (8 * k) m ++ rest)).bind fun x =>
        .ok ({ source with integer := extendWords x.1 0 }, x.2)) :
    ReadAs fmt source (pushBe (8 * k) m) rest m := by
  have hle := two_pow_le_modulus (show 64 * k ≤ 512 by omega)
  obtain ⟨u, rfl, hwords⟩ := readWords_pushBe hk (hm.trans_le hle) rest
  rw [hwords] at hread
  refine ⟨_, hread, rfl, ?_⟩
  exact (toNat_extendWords_zero (fits_take_limbs u hk) hk).trans
    ((ofDigits_take_limbs u hk).trans (Nat.mod_eq_of_lt hm))

/-- A value of some words is read with its sign. -/
theorem readAs_words_signed {k m : ℕ} (hk : k + 1 ≤ 8) (hm : m < 2 ^ (64 * (k + 1)))
    (hread : source.valueFromBinary fmt (pushBe (8 * (k + 1)) m ++ rest) =
      (readWords (k + 1) (pushBe (8 * (k + 1)) m ++ rest)).bind fun x =>
        .ok ({ source with integer := extendSign x.1 }, x.2)) :
    ReadAs fmt source (pushBe (8 * (k + 1)) m) rest (signedNat (64 * (k + 1)) m) := by
  have hle := two_pow_le_modulus (show 64 * (k + 1) ≤ 512 by omega)
  obtain ⟨u, rfl, hwords⟩ := readWords_pushBe hk (hm.trans_le hle) rest
  rw [hwords] at hread
  refine ⟨_, hread, rfl, ?_⟩
  refine (toNat_extendSign (fits_take_limbs u hk) hk).trans ?_
  rw [ofDigits_take_limbs u hk, Nat.mod_eq_of_lt hm]

/-- A value of up to 32 bits is read without a sign. -/
theorem readAs_low {k m : ℕ} (hk : k ≤ 8) (hm : m < 2 ^ (8 * k))
    (hread : source.valueFromBinary fmt (pushBe k m ++ rest) =
      (readBe k (pushBe k m ++ rest)).bind fun x => .ok (source.setInteger x.1, x.2)) :
    ReadAs fmt source (pushBe k m) rest m := by
  have hle : 2 ^ (8 * k) ≤ 2 ^ 64 := Nat.pow_le_pow_right (by decide) (by omega)
  rw [readBe_pushBe, pow_eq, Nat.mod_eq_of_lt hm] at hread
  exact ⟨_, hread, rfl, toNat_setInteger_natCast source (hm.trans_le hle)⟩

theorem readAs_byte {m : ℕ} (hm : m < 2 ^ 8)
    (hread : source.valueFromBinary fmt (pushBe 1 m ++ rest) =
      (readBe 1 (pushBe 1 m ++ rest)).bind fun x => .ok (source.setUinteger x.1, x.2)) :
    ReadAs fmt source (pushBe 1 m) rest m := by
  rw [readBe_pushBe, pow_eq, Nat.mod_eq_of_lt hm] at hread
  exact ⟨_, hread, rfl, toNat_setUinteger source (by omega)⟩

/-- Eight words are read as they are. -/
theorem readAs_all {m : ℕ} (hm : m < modulus)
    (hread : source.valueFromBinary fmt (pushBe 64 m ++ rest) =
      (readWords 8 (pushBe 64 m ++ rest)).bind fun x =>
        .ok ({ source with integer := UInt512.ofWords x.1 }, x.2)) :
    ReadAs fmt source (pushBe 64 m) rest m := by
  obtain ⟨u, rfl, hwords⟩ := readWords_pushBe (Nat.le_refl 8) hm rest
  rw [hwords] at hread
  refine ⟨_, hread, rfl, ?_⟩
  have hall : u.limbs.take 8 = u.limbs := List.take_of_length_le u.fits.length.le
  rw [hall, ofWords_limbs]

theorem valueFromBinary_pushBe (htype : source.schemaColumn.type.integerType = some t) {m : ℕ}
    (hm : m < 2 ^ (8 * t.bytes)) (rest : Bytes) :
    ReadAs fmt source (pushBe t.bytes m) rest (t.extended m) := by
  have hall : m < modulus :=
    hm.trans_le (two_pow_le_modulus (Nat.mul_le_mul_left 8 (IntegerType.bytes_bounds htype).2))
  cases h : source.schemaColumn.type with
  | bits8 | uint8 =>
    rw [h] at htype
    cases htype
    exact readAs_byte hm (by rw [valueFromBinary, h]; rfl)
  | bits16 | uint16 =>
    rw [h] at htype
    cases htype
    exact readAs_low (k := 2) (by decide) hm (by rw [valueFromBinary, h]; rfl)
  | bits32 | uint32 =>
    rw [h] at htype
    cases htype
    exact readAs_low (k := 4) (by decide) hm (by rw [valueFromBinary, h]; rfl)
  | bits64 | uint64 | int64 =>
    rw [h] at htype
    cases htype
    rw [IntegerType.extended_eq (by decide)]
    exact readAs_signed (k := 8) (by decide) (by decide) hm (by rw [valueFromBinary, h]; rfl)
  | int8 =>
    rw [h] at htype
    cases htype
    rw [IntegerType.extended_eq (.inl rfl)]
    exact readAs_signed (k := 1) (by decide) (by decide) hm (by rw [valueFromBinary, h]; rfl)
  | int16 =>
    rw [h] at htype
    cases htype
    rw [IntegerType.extended_eq (.inl rfl)]
    exact readAs_signed (k := 2) (by decide) (by decide) hm (by rw [valueFromBinary, h]; rfl)
  | int32 =>
    rw [h] at htype
    cases htype
    rw [IntegerType.extended_eq (.inl rfl)]
    exact readAs_signed (k := 4) (by decide) (by decide) hm (by rw [valueFromBinary, h]; rfl)
  | bits128 | uint128 =>
    rw [h] at htype
    cases htype
    exact readAs_words (k := 2) (by decide) hm (by rw [valueFromBinary, h]; rfl)
  | bits256 | uint256 =>
    rw [h] at htype
    cases htype
    exact readAs_words (k := 4) (by decide) hm (by rw [valueFromBinary, h]; rfl)
  | int128 =>
    rw [h] at htype
    cases htype
    rw [IntegerType.extended_eq (.inl rfl)]
    exact readAs_words_signed (k := 1) (by decide) hm (by rw [valueFromBinary, h]; rfl)
  | int256 =>
    rw [h] at htype
    cases htype
    rw [IntegerType.extended_eq (.inl rfl)]
    exact readAs_words_signed (k := 3) (by decide) hm (by rw [valueFromBinary, h]; rfl)
  | bits512 | uint512 =>
    rw [h] at htype
    cases htype
    exact readAs_all hall (by rw [valueFromBinary, h]; rfl)
  | int512 =>
    rw [h] at htype
    cases htype
    rw [IntegerType.extended_eq (.inl rfl), 
      signedNat_all (show 8 * 64 = UInt512.bits from rfl)]
    exact readAs_all hall (by rw [valueFromBinary, h]; rfl)
  | _ =>
    rw [h] at htype
    cases htype

/-- **The eight words that a value is read as**: itself, but for the values of 64 bits whose high bit
is set. -/
theorem valueFromBinary_encode (htype : source.schemaColumn.type.integerType = some t)
    (hv : t.Holds v) (rest : Bytes) :
    ReadAs fmt source (t.encode v) rest (twosComplement (t.decoded v)) := by
  obtain ⟨hpos, hle⟩ := IntegerType.bytes_bounds htype
  rw [← hv.extended_emod hpos hle]
  exact valueFromBinary_pushBe htype (hv.toNat_emod hpos hle).1 rest

end Cell

/-! ### The text -/

/-- The text of a value, in base 16. -/
def integerText (w : ℤ) : Bytes :=
  if w < 0 then 45 :: numberText 16 w.natAbs else numberText 16 w.toNat

/-- A sign that is extended over more bytes is not counted. -/
theorem valueByteSize_append_sign {value : Bytes} (h : 128 ≤ value.getLastD 0) (n : ℕ) :
    valueByteSize (value ++ List.replicate n 255) true ≤ value.length := by
  have hskip : ∀ (n : ℕ) (l : Bytes) (total : ℕ),
      byteSizeLoop 255 total (List.replicate n 255 ++ l) = byteSizeLoop 255 total l := by
    intro n l total
    induction n with
    | zero => rfl
    | succ n ih => exact ih
  -- one more byte is counted for the sign at most
  have hle : ∀ (l : Bytes) (total : ℕ), byteSizeLoop 255 total l ≤ l.length + 1 := by
    intro l total
    induction l with
    | nil => exact Nat.zero_le _
    | cons c rest ih =>
      rw [byteSizeLoop, List.length_cons]
      split
      · split <;> omega
      · omega
  obtain ⟨init, last, rfl⟩ := List.eq_nil_or_concat value |>.resolve_left (by
    rintro rfl
    exact absurd h (by decide))
  rw [List.concat_eq_append] at h ⊢
  rw [List.getLastD_concat] at h
  have hsign : 128 ≤ (init ++ [last] ++ List.replicate n 255).getLastD 0 := by
    cases n with
    | zero => rwa [List.replicate_zero, List.append_nil, List.getLastD_concat]
    | succ n =>
      rw [List.replicate_succ', ← List.append_assoc, List.getLastD_concat]
      decide
  rw [valueByteSize, if_pos ⟨rfl, hsign⟩, List.reverse_append, List.reverse_replicate, hskip,
    List.reverse_concat, byteSizeLoop]
  have hlength : (init ++ [last]).length = init.reverse.length + 1 := by
    rw [List.length_append, List.length_singleton, List.length_reverse]
  split
  · rw [if_neg (fun hless => absurd h (UInt8.not_le.2 hless.2.1)), hlength]
  · exact (hle _ _).trans hlength.ge

/-- Nothing is left out of a value whose last byte is not zero. -/
theorem valueByteSize_of_last {value : Bytes} (h : 128 ≤ value.getLastD 0) :
    valueByteSize value false = value.length := by
  obtain ⟨init, last, rfl⟩ := List.eq_nil_or_concat value |>.resolve_left (by
    rintro rfl
    exact absurd h (by decide))
  rw [List.concat_eq_append] at h ⊢
  rw [List.getLastD_concat] at h
  have hne : last ≠ 0 := by
    rintro rfl
    exact absurd h (by decide)
  rw [valueByteSize, if_neg (by simp), List.reverse_concat, byteSizeLoop, if_pos hne,
    if_neg (by simp), List.length_reverse, List.length_append, List.length_singleton]

/-- A negative value with its sign over more bytes. -/
theorem toBytes_append_sign {k a : ℕ} (hk : k ≤ 64) (ha : a < 256 ^ k) (hpos : 0 < a) :
    toBytes 64 (modulus - a) = toBytes k (256 ^ k - a) ++ List.replicate (64 - k) 255 := by
  have hsplit := modulus_split hk
  have hvalue : ofBytes (toBytes k (256 ^ k - a) ++ List.replicate (64 - k) 255) = modulus - a := by
    rw [UInt512.ofBytes_append, ofBytes_toBytes, length_toBytes, Nat.mod_eq_of_lt (by omega), hsplit,
      ← ofBytes_replicate (64 - k), Nat.mul_add]
    omega
  have hback := UInt512.toBytes_ofBytes (toBytes k (256 ^ k - a) ++ List.replicate (64 - k) 255)
  rwa [List.length_append, length_toBytes, List.length_replicate, Nat.add_sub_cancel' hk,
    hvalue] at hback

/-! ### The text of a value -/

section

variable {k : ℕ} {w : ℤ} {u : UInt512}

theorem length_memory (u : UInt512) : u.memory.length = 64 := by
  rw [UInt512.memory_eq, length_toBytes]

theorem ofBytes_memory (u : UInt512) : ofBytes u.memory = u.toNat := by
  rw [UInt512.memory_eq, ofBytes_toBytes]
  exact Nat.mod_eq_of_lt u.toNat_lt

theorem memory_ne_nil (u : UInt512) : u.memory ≠ [] :=
  List.ne_nil_of_length_pos (by rw [length_memory]; decide)

/-- The sign is in the last byte of the eight words. -/
theorem memory_sign (u : UInt512) : 128 ≤ u.memory.getLastD 0 ↔ modulus ≤ 2 * u.toNat := by
  have hsign := getLast_sign (memory_ne_nil u)
  rwa [length_memory, ofBytes_memory] at hsign

/-- A number that is not negative and fits. -/
theorem uintegerToString_memory (hk : k ≤ 64) (hu : u.toNat < 256 ^ k) :
    uintegerToString u.memory k 16 = .ok (numberText 16 u.toNat) := by
  have hbytes := toBytes_append_zero hu (64 - k)
  rw [Nat.add_sub_cancel' hk, ← UInt512.memory_eq] at hbytes
  have hsize : valueByteSize u.memory false ≤ k := by
    rw [hbytes]
    exact (valueByteSize_append_zero _ _).trans_eq (length_toBytes k u.toNat)
  rw [uintegerToString_eq (by decide) hsize (length_memory u).le, ofBytes_memory]

/-- A value that was read with its sign extended does not fit. -/
theorem uintegerToString_negative (hk : k < 64) (hu : modulus ≤ 2 * u.toNat) :
    uintegerToString u.memory k 16 = .error (valueTooLarge u.memory k) := by
  have hsize := valueByteSize_of_last ((memory_sign u).2 hu)
  rw [length_memory] at hsize
  rw [uintegerToString, if_pos (by omega)]

/-- A negative number that fits. -/
theorem integerToString_memory (hpos : 0 < k) (hk : k ≤ 64) {a : ℕ} (ha : 0 < a)
    (hle : a ≤ 2 ^ (8 * k - 1)) (hu : u.toNat + a = modulus) :
    integerToString u.memory k 16 = .ok (45 :: numberText 16 a) := by
  have hhalf : 256 ^ k = 2 * 2 ^ (8 * k - 1) := by
    rw [pow_eq, ← Nat.pow_succ']
    congr 1
    omega
  have hmodulus : 256 ^ k ≤ modulus := by
    rw [pow_eq]
    exact two_pow_le_modulus (by omega)
  have hlow := Nat.two_pow_pos (8 * k - 1)
  have hfull : (256 : ℕ) ^ 64 = modulus := rfl
  -- the low bytes have the sign, and the others extend it
  have hsize : valueByteSize u.memory true ≤ k := by
    have hsign : 128 ≤ (toBytes k (256 ^ k - a)).getLastD 0 := by
      have hne : toBytes k (256 ^ k - a) ≠ [] :=
        List.ne_nil_of_length_pos (by rwa [length_toBytes])
      rw [getLast_sign hne, length_toBytes, ofBytes_toBytes, Nat.mod_eq_of_lt (by omega)]
      omega
    have hnumber : u.toNat = modulus - a := by omega
    rw [UInt512.memory_eq, hnumber, toBytes_append_sign hk (by omega) ha]
    exact (valueByteSize_append_sign hsign _).trans_eq (length_toBytes k _)
  have hopposite : 256 ^ u.memory.length - ofBytes u.memory = a := by
    rw [length_memory, ofBytes_memory, hfull]
    omega
  have htext := integerToString_neg (length_memory u).le hk hsize (by rw [hopposite]; omega)
    (by decide : (16 : ℤ) ∈ bases) ((memory_sign u).2 (by omega)) (memory_ne_nil u)
  rw [htext, hopposite]

/-- The text is read as the value over the eight words, unless its sign is refused. -/
theorem stringToInt_integerText (hlt : w.natAbs < modulus) {accept : Bool}
    (haccept : 0 ≤ w ∨ accept = true) :
    ∃ r, stringToInt (integerText w) accept = .ok r ∧ r.toNat = twosComplement w := by
  have hbase : (16 : ℤ) ∈ bases := by decide
  rcases lt_or_ge w 0 with hneg | hnonneg
  · obtain rfl := haccept.resolve_left (not_le.2 hneg)
    obtain ⟨r, hread, hr⟩ := stringToInt_minus hbase hlt
    have htwos := twosComplement_of_neg hneg (by omega)
    refine ⟨r, by rw [integerText, if_pos hneg, hread], ?_⟩
    rw [hr, Nat.mod_eq_of_lt (by omega)]
    omega
  · obtain ⟨r, hread, hr⟩ := stringToInt_numberText hbase (n := w.toNat) (by omega) accept
    refine ⟨r, by rw [integerText, if_neg (not_lt.2 hnonneg), hread], ?_⟩
    rw [hr, twosComplement_of_nonneg hnonneg (by omega)]

theorem stringToInt_refused (hneg : w < 0) :
    ∃ message, stringToInt (integerText w) false = .error (.thrown .invalidNumber message) := by
  rw [integerText, if_pos hneg]
  exact ⟨_, rfl⟩

/-- The eight words of a number, through the memory. -/
theorem toNat_ofMemory_take (r : UInt512) :
    (UInt512.ofMemory (r.memory.take (512 / 8))).toNat = r.toNat := by
  have hall : r.memory.take (512 / 8) = r.memory := List.take_of_length_le (length_memory r).le
  rw [hall, UInt512.toNat_ofMemory (length_memory r).le, ofBytes_memory]

end

namespace Cell

variable {F : Type} {fmt : FloatFormat F} {lib : Conversions} {c source : Cell F} {t' : IntegerType}

theorem storage_integerType {type : StructType} (h : type.integerType = some t) :
    storage type = if t.signed then .signed else .unsigned := by
  cases type <;> cases h <;> rfl

variable (lib) in
theorem typedBufferToString_integerType {type : StructType} (h : type.integerType = some t)
    (value : Bytes) :
    typedBufferToString lib type value 16 =
      if t.signed then integerToString value t.bytes 16
      else uintegerToString value t.bytes 16 := by
  cases type <;> cases h <;> rfl

/-- The text of the source is written under its type. -/
theorem copyText_eq (htype : source.schemaColumn.type.integerType = some t) :
    c.copyText fmt lib source =
      if t.signed then integerToString source.integer.memory t.bytes 16
      else uintegerToString source.integer.memory t.bytes 16 := by
  rw [← typedBufferToString_integerType lib htype, copyText, storage_integerType htype]
  cases t.signed <;> rfl

/-- The text is read into the eight words of the destination, whatever their number. -/
theorem copyFrom_eq (hne : c.schemaColumn.type ≠ source.schemaColumn.type)
    (htype' : c.schemaColumn.type.integerType = some t') {text : Bytes}
    (htext : c.copyText fmt lib source = .ok text) :
    c.copyFrom fmt lib source =
      (if t'.signed then stringToInteger text 512 else stringToUinteger text 512).bind fun buf =>
        .ok { c with integer := UInt512.ofMemory buf } := by
  rw [copyFrom, if_neg hne, htext, ok_bind, storage_integerType htype']
  cases t'.signed <;> rfl

/-- A value of the type has a text. -/
theorem copyText_of_holds (htype : source.schemaColumn.type.integerType = some t) (hv : t.Holds v)
    (hsource : source.integer.toNat = twosComplement v) :
    c.copyText fmt lib source = .ok (integerText v) := by
  obtain ⟨hpos, hle⟩ := IntegerType.bytes_bounds htype
  have hmodulus := two_pow_le_modulus (show 8 * t.bytes ≤ 512 by omega)
  rw [copyText_eq htype]
  by_cases hsigned : t.signed = true
  · obtain ⟨hge, hlt⟩ := (IntegerType.holds_signed hsigned).1 hv
    have hhalf : 2 ^ (8 * t.bytes) = 2 * 2 ^ (8 * t.bytes - 1) := by
      rw [← Nat.pow_succ']
      congr 1
      omega
    rw [if_pos hsigned]
    rcases lt_or_ge v 0 with hneg | hnonneg
    · have htwos := twosComplement_of_neg hneg (by omega)
      have habs : 0 < v.natAbs ∧ v.natAbs ≤ 2 ^ (8 * t.bytes - 1) := by omega
      rw [integerToString_memory hpos hle habs.1 habs.2 (by rw [hsource, htwos]), integerText,
        if_pos hneg]
    · have htwos := twosComplement_of_nonneg hnonneg (by omega)
      have hplus : ¬ 128 ≤ source.integer.memory.getLastD 0 := by
        rw [memory_sign]
        omega
      rw [integerToString, if_neg (memory_ne_nil _), if_neg hplus, uintegerToString_memory hle
        (by rw [pow_eq]; omega), hsource, htwos, integerText, if_neg (not_lt.2 hnonneg)]
  · obtain ⟨hnonneg, hlt⟩ :=
      (IntegerType.holds_unsigned (Bool.eq_false_of_not_eq_true hsigned)).1 hv
    have htwos := twosComplement_of_nonneg hnonneg (by omega)
    rw [if_neg hsigned, uintegerToString_memory hle (by rw [pow_eq]; omega), hsource, htwos,
      integerText, if_neg (not_lt.2 hnonneg)]

/-- A value whose text is written is read by the destination, unless it refuses the sign. -/
theorem converts_of_text (hne : c.schemaColumn.type ≠ source.schemaColumn.type)
    (htype' : c.schemaColumn.type.integerType = some t') (hv : v.natAbs < modulus)
    (htext : c.copyText fmt lib source = .ok (integerText v)) :
    c.Converts fmt lib source t' v ↔ t'.Holds v ∨ (v < 0 ∧ t'.signed = false) := by
  obtain ⟨hpos, hle⟩ := IntegerType.bytes_bounds htype'
  have hcopy := copyFrom_eq hne htype' htext
  by_cases haccept : 0 ≤ v ∨ t'.signed = true
  · -- the eight words are the value
    obtain ⟨r, hread, hr⟩ := stringToInt_integerText hv haccept
    have hcopied : c.copyFrom fmt lib source =
        .ok { c with integer := UInt512.ofMemory (r.memory.take (512 / 8)) } := by
      rw [hcopy]
      cases hsigned : t'.signed with
      | true =>
        rw [hsigned] at hread
        rw [if_pos rfl, stringToInteger, hread, ok_bind]
        rfl
      | false =>
        rw [hsigned] at hread
        rw [if_neg (by decide), stringToUinteger, hread, ok_bind]
        rfl
    have hrefused : ¬ (v < 0 ∧ t'.signed = false) := by
      rintro ⟨hneg, hsigned⟩
      rw [hsigned] at haccept
      exact haccept.elim (fun hnonneg => absurd hneg (not_lt.2 hnonneg)) (by decide)
    rw [Converts, hcopied, or_iff_left hrefused]
    by_cases hholds : t'.Holds v
    · rw [if_pos hholds]
      refine iff_of_true ⟨_, rfl, ?_⟩ hholds
      rw [number, toNat_ofMemory_take, hr]
      split
      · exact hholds.read_twosComplement hpos le_rfl (by omega)
      · exact hholds.read_twosComplement hpos (by omega) le_rfl
    · rw [if_neg hholds]
      refine iff_of_false ?_ hholds
      rintro ⟨type, message, herror⟩
      cases herror
  · -- the sign is refused
    rw [not_or, not_le, Bool.not_eq_true] at haccept
    obtain ⟨hneg, hsigned⟩ := haccept
    obtain ⟨message, hread⟩ := stringToInt_refused hneg
    have hholds : ¬ t'.Holds v := by
      rw [IntegerType.holds_unsigned hsigned]
      omega
    rw [Converts, if_neg hholds, hcopy, hsigned]
    refine iff_of_true ⟨.invalidNumber, message, ?_⟩ (.inr ⟨hneg, rfl⟩)
    rw [if_neg (by decide), stringToUinteger, hread]
    rfl

variable (c) (fmt) (lib) in
/-- A value that was read as a negative one has no text, since it does not fit its type. -/
theorem copyText_of_high (htype : source.schemaColumn.type.integerType = some t) (hv : t.Holds v)
    (hhigh : t.bytes = 8 ∧ 2 ^ 63 ≤ v)
    (hsource : source.integer.toNat = twosComplement (t.decoded v)) :
    t.signed = false ∧
      c.copyText fmt lib source = .error (valueTooLarge source.integer.memory 8) := by
  have hmodulus := two_pow_le_modulus (show 65 ≤ 512 by decide)
  have hunsigned : t.signed = false := by
    by_contra hsigned
    have hlt := ((IntegerType.holds_signed (Bool.eq_true_of_not_eq_false hsigned)).1 hv).2
    rw [hhigh.1] at hlt
    omega
  have hlt := ((IntegerType.holds_unsigned hunsigned).1 hv).2
  rw [hhigh.1] at hlt
  have htwos := twosComplement_of_neg (show v - 2 ^ 64 < 0 by omega) (by omega)
  refine ⟨hunsigned, ?_⟩
  rw [IntegerType.decoded, if_pos hhigh] at hsource
  rw [copyText_eq htype, hunsigned, if_neg (by decide), hhigh.1,
    uintegerToString_negative (by decide) (by omega)]

/-- A copy between columns of the same type. -/
theorem converts_same (htype : source.schemaColumn.type.integerType = some t) (hv : t.Holds v)
    (heq : c.schemaColumn.type = source.schemaColumn.type)
    (hsource : source.integer.toNat = twosComplement (t.decoded v)) :
    c.Converts fmt lib source t v := by
  obtain ⟨hpos, hle⟩ := IntegerType.bytes_bounds htype
  have hcopy : c.copyFrom fmt lib source = .ok { c with integer := source.integer } := by
    rw [copyFrom, if_pos heq, copySame, storage_integerType htype]
    cases t.signed <;> rfl
  rw [Converts, if_pos hv]
  refine ⟨_, hcopy, ?_⟩
  rw [number, hsource, IntegerType.decoded]
  by_cases hhigh : t.bytes = 8 ∧ 2 ^ 63 ≤ v
  · -- the getter takes the low word
    obtain ⟨hunsigned, -⟩ := copyText_of_high fmt lib c htype hv hhigh hsource
    obtain ⟨hnonneg, hlt⟩ := (IntegerType.holds_unsigned hunsigned).1 hv
    have hlow := twosComplement_mod (v - 2 ^ 64) (show 64 ≤ 512 by decide)
    rw [hhigh.1] at hlt
    rw [if_pos hhigh, hhigh.1, if_pos (by decide), IntegerType.read, hunsigned, if_neg (by decide)]
    refine hlow.trans ?_
    rw [Int.sub_emod_right, Int.emod_eq_of_lt hnonneg (by omega)]
  · rw [if_neg hhigh]
    split
    · exact hv.read_twosComplement hpos le_rfl (by omega)
    · exact hv.read_twosComplement hpos (by omega) le_rfl

/-- **A copy does what it should exactly when `ConvertsWell`**, for every value that is read under
the type of its column. -/
theorem converts_iff (htype : source.schemaColumn.type.integerType = some t)
    (htype' : c.schemaColumn.type.integerType = some t') (hv : t.Holds v) (rest : Bytes) :
    (∃ decoded, source.valueFromBinary fmt (t.encode v ++ rest) = .ok (decoded, rest) ∧
      c.Converts fmt lib decoded t' v) ↔
      ConvertsWell source.schemaColumn.type c.schemaColumn.type t t' v := by
  obtain ⟨decoded, hread, hcolumn, hinteger⟩ :
      ReadAs fmt source (t.encode v) rest (twosComplement (t.decoded v)) :=
    valueFromBinary_encode htype hv rest
  have hdecoded : (∃ decoded, source.valueFromBinary fmt (t.encode v ++ rest) = .ok (decoded, rest) ∧
      c.Converts fmt lib decoded t' v) ↔ c.Converts fmt lib decoded t' v := by
    rw [hread]
    constructor
    · rintro ⟨c', heq, hconverts⟩
      cases heq
      exact hconverts
    · exact fun hconverts => ⟨decoded, rfl, hconverts⟩
  rw [hdecoded, ConvertsWell]
  rw [← hcolumn] at htype ⊢
  by_cases heq : decoded.schemaColumn.type = c.schemaColumn.type
  · have hsame : t' = t := Option.some.inj (htype'.symm.trans (heq ▸ htype))
    subst hsame
    exact iff_of_true (converts_same htype hv heq.symm hinteger) (.inl heq)
  · rw [or_iff_right heq]
    by_cases hhigh : t.bytes = 8 ∧ 2 ^ 63 ≤ v
    · obtain ⟨-, hnone⟩ := copyText_of_high fmt lib c htype hv hhigh hinteger
      have hcopy : c.copyFrom fmt lib decoded = .error (valueTooLarge decoded.integer.memory 8) := by
        rw [copyFrom, if_neg (Ne.symm heq), hnone]
        rfl
      rw [if_pos hhigh, Converts, hcopy]
      by_cases hholds : t'.Holds v
      · rw [if_pos hholds]
        refine iff_of_false ?_ (not_not.2 hholds)
        rintro ⟨c', herror, -⟩
        cases herror
      · rw [if_neg hholds]
        exact iff_of_true ⟨_, _, rfl⟩ hholds
    · rw [IntegerType.decoded, if_neg hhigh] at hinteger
      obtain ⟨hpos, hle⟩ := IntegerType.bytes_bounds htype
      rw [if_neg hhigh]
      exact converts_of_text (Ne.symm heq) htype' (hv.natAbs_lt hpos hle)
        (copyText_of_holds htype hv hinteger)

/-- A new cell of a type. -/
def ofType (type : StructType) : Cell (UInt64 × UInt64) := new Row.plainFloat ⟨[], 1, type, 0⟩

/-- A large value without a sign. -/
theorem converts_iff_high :
    (∃ decoded, (ofType .uint64).valueFromBinary Row.plainFloat
        (IntegerType.encode ⟨false, 8⟩ (2 ^ 63) ++ []) = .ok (decoded, []) ∧
      (ofType .uint128).Converts Row.plainFloat hexConversions decoded ⟨false, 16⟩ (2 ^ 63)) ↔
      ConvertsWell .uint64 .uint128 ⟨false, 8⟩ ⟨false, 16⟩ (2 ^ 63) :=
  converts_iff rfl rfl (by decide) []

/-- A value that does not fit a narrower column is copied. -/
theorem not_converts :
    ¬ ∀ (source c : Cell (UInt64 × UInt64)) (t t' : IntegerType) (v : ℤ),
      source.schemaColumn.type.integerType = some t → c.schemaColumn.type.integerType = some t' →
      t.Holds v → ∃ decoded,
        source.valueFromBinary Row.plainFloat (t.encode v) = .ok (decoded, []) ∧
        c.Converts Row.plainFloat hexConversions decoded t' v := by
  intro h
  obtain ⟨decoded, hread, hconverts⟩ := h (ofType .int16) (ofType .int8) ⟨true, 2⟩ ⟨true, 1⟩ 300 rfl
    rfl (by decide)
  obtain ⟨c, hc, hcolumn, hinteger⟩ :
      ReadAs Row.plainFloat (ofType .int16) (IntegerType.encode ⟨true, 2⟩ 300) []
        (twosComplement (IntegerType.decoded ⟨true, 2⟩ 300)) :=
    valueFromBinary_encode rfl (by decide) []
  rw [List.append_nil] at hc
  obtain rfl : c = decoded := (Prod.mk.inj (Except.ok.inj (hc.symm.trans hread))).1
  have htype : c.schemaColumn.type.integerType = some ⟨true, 2⟩ := by
    rw [hcolumn]
    rfl
  have htext : (ofType .int8).copyText Row.plainFloat hexConversions c = .ok (integerText 300) :=
    copyText_of_holds htype (by decide) hinteger
  have hne : (ofType .int8).schemaColumn.type ≠ c.schemaColumn.type := by
    rw [hcolumn]
    decide
  refine absurd ((converts_of_text hne rfl (?_ : (300 : ℤ).natAbs < modulus) htext).1 hconverts) ?_
  · exact (show 300 < 2 ^ 16 by decide).trans_le (two_pow_le_modulus (by decide))
  · decide

end Cell

end

end Prinbee
