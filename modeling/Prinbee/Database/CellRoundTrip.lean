import Prinbee.Database.Cell

/-!
# Cells read back

What a cell is after its value was saved and read.  The number of a column is kept when it is one of
its type, with one exception: the columns of 64 bits, signed or not, are read as signed, so a value
from `2 ^ 63` on comes back with its high words filled.

## Main definitions

* `Cell.Representable` — a value that is kept.
* `Cell.Rereads` — what a cell comes back as.

## Main results

* `Cell.IsSet.rereads` — a cell comes back as one of its column, and as itself exactly when its
  value is representable.
-/

namespace Prinbee

open UInt512 (ofBytes toBytes modulus length_toBytes ofBytes_toBytes)
open Nat (ofDigits)

/-! ### Buffers -/

@[simp] theorem length_pushBe (k n : ℕ) : (pushBe k n).length = k := by
  rw [pushBe, List.length_reverse, length_toBytes]

theorem readBe_pushBe (k n : ℕ) (rest : Bytes) :
    readBe k (pushBe k n ++ rest) = .ok (n % 256 ^ k, rest) := by
  rw [readBe, if_pos (by rw [List.length_append, length_pushBe]; omega),
    List.take_left' (length_pushBe k n), List.drop_left' (length_pushBe k n), pushBe,
    List.reverse_reverse, ofBytes_toBytes]

theorem readString_append (s rest : Bytes) : readString s.length (s ++ rest) = .ok (s, rest) := by
  rw [readString, if_pos (by rw [List.length_append]; omega), List.take_left, List.drop_left]

/-- Words that are pushed are read in the same order. -/
theorem readWords_flatMap {words : List ℕ} (h : ∀ w ∈ words, w < 2 ^ 64) (rest : Bytes) :
    readWords words.length (words.flatMap (pushBe 8) ++ rest) = .ok (words.reverse, rest) := by
  induction words with
  | nil => rfl
  | cons w words ih =>
    have hw : w % 256 ^ 8 = w := Nat.mod_eq_of_lt (h w List.mem_cons_self)
    rw [List.length_cons, readWords, List.flatMap_cons, List.append_assoc, readBe_pushBe, ok_bind]
    simp only
    rw [ih fun x hx => h x (List.mem_cons_of_mem w hx), ok_bind, hw, List.reverse_cons]

theorem readWords_pushWords (v : UInt512) {count : ℕ} (h : count ≤ 8) (rest : Bytes) :
    readWords count (pushWords count v ++ rest) = .ok (v.limbs.take count, rest) := by
  have hlen : (v.limbs.take count).reverse.length = count := by
    rw [List.length_reverse, List.length_take, v.fits.length]
    omega
  have hwords : ∀ w ∈ (v.limbs.take count).reverse, w < 2 ^ 64 := fun w hw =>
    v.fits.lt w (List.mem_of_mem_take (List.mem_reverse.1 hw))
  have hread := readWords_flatMap hwords rest
  rw [hlen, List.reverse_reverse] at hread
  exact hread

/-! ### Numbers over the eight words -/

theorem limbs_ofWords {words : List ℕ} (h : Limbs.Fits (2 ^ 64) 8 words) :
    (UInt512.ofWords words).limbs = words := by
  rw [UInt512.ofWords]
  simp only
  rw [List.takeD_eq_take _ (Nat.le_of_eq h.length.symm), List.take_of_length_le (Nat.le_of_eq h.length)]
  exact (List.map_congr_left fun w hw => Nat.mod_eq_of_lt (h.lt w hw)).trans (List.map_id _)

theorem ofWords_limbs (v : UInt512) : UInt512.ofWords v.limbs = v := by
  apply UInt512.toNat_inj
  rw [UInt512.toNat, limbs_ofWords v.fits, UInt512.toNat]

/-- The number that the low words and the words that fill the others are. -/
theorem toNat_extendWords {n : ℕ} {words : List ℕ} (h : Limbs.Fits (2 ^ 64) n words) (hn : n ≤ 8)
    {fill : ℕ} (hfill : fill < 2 ^ 64) :
    (extendWords words fill).toNat =
      ofDigits (2 ^ 64) words + (2 ^ 64) ^ n * ofDigits (2 ^ 64) (List.replicate (8 - n) fill) := by
  have hfits : Limbs.Fits (2 ^ 64) 8 (words ++ List.replicate (8 - n) fill) := by
    have hrep : Limbs.Fits (2 ^ 64) (8 - n) (List.replicate (8 - n) fill) :=
      ⟨List.length_replicate, fun x hx => by rw [List.eq_of_mem_replicate hx]; exact hfill⟩
    have happ := h.append hrep
    rwa [Nat.add_sub_cancel' hn] at happ
  rw [extendWords, h.length, UInt512.toNat, limbs_ofWords hfits, Nat.ofDigits_append, h.length]

theorem toNat_extendWords_zero {n : ℕ} {words : List ℕ} (h : Limbs.Fits (2 ^ 64) n words)
    (hn : n ≤ 8) : (extendWords words 0).toNat = ofDigits (2 ^ 64) words := by
  rw [toNat_extendWords h hn (by decide), Nat.ofDigits_replicate_zero, Nat.mul_zero, Nat.add_zero]

theorem ofDigits_replicate_max (m : ℕ) :
    ofDigits (2 ^ 64) (List.replicate m (2 ^ 64 - 1)) + 1 = (2 ^ 64) ^ m := by
  induction m with
  | zero => rfl
  | succ m ih =>
    rw [List.replicate_succ, Nat.ofDigits_cons, Nat.pow_succ (2 ^ 64) m, ← ih]
    omega

theorem toNat_extendWords_max {n : ℕ} {words : List ℕ} (h : Limbs.Fits (2 ^ 64) n words)
    (hn : n ≤ 8) :
    (extendWords words (2 ^ 64 - 1)).toNat + (2 ^ 64) ^ n = ofDigits (2 ^ 64) words + modulus := by
  have hmax := ofDigits_replicate_max (8 - n)
  have hmod : modulus = (2 ^ 64) ^ n * (2 ^ 64) ^ (8 - n) := by
    rw [← Nat.pow_add, Nat.add_sub_cancel' hn, modulus]
  rw [toNat_extendWords h hn (by decide), hmod, ← hmax, Nat.mul_succ]
  omega

/-- A number of some bits with its sign extended over the eight words. -/
def signedNat (bits n : ℕ) : ℕ := if n < 2 ^ (bits - 1) then n else n + modulus - 2 ^ bits

/-- A number of some bits, in two's complement over the eight words. -/
def InRange (bits n : ℕ) : Prop := n < 2 ^ (bits - 1) ∨ modulus - 2 ^ (bits - 1) ≤ n

theorem two_pow_le_modulus {bits : ℕ} (h : bits ≤ 512) : 2 ^ bits ≤ modulus := by
  rw [UInt512.modulus_eq]
  exact Nat.pow_le_pow_right (by decide) h

/-- The sign that is extended is the right one for the numbers of that many bits. -/
theorem signedNat_mod {bits n : ℕ} (hpos : 0 < bits) (hbits : bits < 512) (hn : n < modulus) :
    signedNat bits (n % 2 ^ bits) = n ↔ InRange bits n := by
  obtain ⟨q, hq, hpow⟩ : ∃ q, 0 < q ∧ modulus = 2 * 2 ^ (bits - 1) * q := by
    refine ⟨2 ^ (512 - bits), Nat.two_pow_pos _, ?_⟩
    rw [UInt512.modulus_eq, Nat.mul_comm 2, ← Nat.pow_succ, ← Nat.pow_add, UInt512.bits]
    congr 1
    omega
  have htwo : 2 ^ bits = 2 * 2 ^ (bits - 1) := by
    rw [Nat.mul_comm, ← Nat.pow_succ]
    congr 1
    omega
  rw [signedNat, InRange, htwo]
  have hw : 0 < 2 ^ (bits - 1) := Nat.two_pow_pos _
  generalize 2 ^ (bits - 1) = w at hpow hw
  have hdiv := Nat.div_add_mod n (2 * w)
  have hlt : n % (2 * w) < 2 * w := Nat.mod_lt _ (by omega)
  have hq' : n / (2 * w) < q := Nat.div_lt_of_lt_mul (hpow ▸ hn)
  -- the quotient is 0 for the low numbers and the last one for the high ones
  have hfirst : n / (2 * w) = 0 ∨ 2 * w ≤ 2 * w * (n / (2 * w)) :=
    (Nat.eq_zero_or_pos _).imp_right fun hone => Nat.le_mul_of_pos_right _ hone
  have hlast : 2 * w * (n / (2 * w)) + 2 * w = modulus ∨
      2 * w * (n / (2 * w)) + 2 * w + 2 * w ≤ modulus := by
    rcases Nat.lt_or_ge (n / (2 * w) + 1) q with hlt' | hge'
    · refine .inr ?_
      rw [← Nat.mul_succ, ← Nat.mul_succ, hpow]
      exact Nat.mul_le_mul_left _ hlt'
    · refine .inl ?_
      rw [← Nat.mul_succ, hpow]
      congr 1
      omega
  rcases hfirst with hzero | hone
  · rw [hzero, Nat.mul_zero] at hdiv hlast
    split <;> omega
  · split <;> omega

/-- The low word of a number, cut to some bytes. -/
theorem low_mod (v : UInt512) {k : ℕ} (hk : k ≤ 8) : v.low % 256 ^ k = v.toNat % 2 ^ (8 * k) := by
  have hdvd : 2 ^ (8 * k) ∣ 2 ^ 64 := Nat.pow_dvd_pow 2 (by omega)
  rw [UInt512.low_eq, show (256 : ℕ) = 2 ^ 8 from rfl, ← Nat.pow_mul, Nat.mod_mod_of_dvd _ hdvd]

theorem fits_take_limbs (v : UInt512) {n : ℕ} (hn : n ≤ 8) :
    Limbs.Fits (2 ^ 64) n (v.limbs.take n) :=
  ⟨by rw [List.length_take, v.fits.length]; omega,
    fun w hw => v.fits.lt w (List.mem_of_mem_take hw)⟩

/-- The low words of a number. -/
theorem ofDigits_take_limbs (v : UInt512) {n : ℕ} (hn : n ≤ 8) :
    ofDigits (2 ^ 64) (v.limbs.take n) = v.toNat % 2 ^ (64 * n) := by
  have hfits := fits_take_limbs v hn
  have hsplit : v.toNat = ofDigits (2 ^ 64) (v.limbs.take n) +
      (2 ^ 64) ^ n * ofDigits (2 ^ 64) (v.limbs.drop n) := by
    conv_lhs => rw [UInt512.toNat, ← List.take_append_drop n v.limbs, Nat.ofDigits_append, hfits.length]
  rw [hsplit, Nat.pow_mul, Nat.add_mul_mod_self_left, Nat.mod_eq_of_lt (hfits.ofDigits_lt (by decide))]

/-- The sign of the low words is the one of their number. -/
theorem toNat_extendSign {n : ℕ} {words : List ℕ} (h : Limbs.Fits (2 ^ 64) (n + 1) words)
    (hn : n + 1 ≤ 8) :
    (extendSign words).toNat = signedNat (64 * (n + 1)) (ofDigits (2 ^ 64) words) := by
  obtain ⟨low, w, rfl⟩ : ∃ low w, words = low ++ [w] := by
    rcases List.eq_nil_or_concat words with rfl | ⟨low, w, hcat⟩
    · exact absurd h.length (by simp)
    · exact ⟨low, w, by rw [hcat, List.concat_eq_append]⟩
  have hlen : low.length = n := by
    have := h.length
    rw [List.length_append, List.length_singleton] at this
    omega
  have hlow : Limbs.Fits (2 ^ 64) n low := ⟨hlen, fun x hx => h.lt x (List.mem_append_left _ hx)⟩
  have hw : w < 2 ^ 64 := h.lt w (by simp)
  have hlt := hlow.ofDigits_lt (by decide)
  have hnum : ofDigits (2 ^ 64) (low ++ [w]) = ofDigits (2 ^ 64) low + (2 ^ 64) ^ n * w := by
    rw [Nat.ofDigits_append, hlen, Nat.ofDigits_singleton]
  have hhalf : 2 ^ (64 * (n + 1) - 1) = (2 ^ 64) ^ n * 2 ^ 63 := by
    rw [← Nat.pow_mul, ← Nat.pow_add]
    congr 1
  have hfull : 2 ^ (64 * (n + 1)) = (2 ^ 64) ^ (n + 1) := Nat.pow_mul ..
  rw [extendSign, List.getLastD_concat, signedNat, hnum, hhalf]
  by_cases hsign : 2 ^ 63 ≤ w
  · have hmul : (2 ^ 64) ^ n * 2 ^ 63 ≤ (2 ^ 64) ^ n * w := Nat.mul_le_mul_left _ hsign
    have hmax := toNat_extendWords_max h hn
    rw [if_pos hsign, if_neg (by omega), hfull, ← hnum]
    omega
  · have hmul : (2 ^ 64) ^ n * (w + 1) ≤ (2 ^ 64) ^ n * 2 ^ 63 :=
      Nat.mul_le_mul_left _ (by omega)
    rw [Nat.mul_succ] at hmul
    rw [if_neg hsign, if_pos (by omega), toNat_extendWords_zero h hn, hnum]

namespace Cell

variable {F : Type} (fmt : FloatFormat F) {column : SchemaColumn} {c c' : Cell F} {bytes : Bytes}

/-! ### The integers of a cell -/

theorem fits_singleton {w : ℕ} (h : w < 2 ^ 64) : Limbs.Fits (2 ^ 64) 1 [w] :=
  .cons h Limbs.fits_nil

theorem toNat_setUinteger (c : Cell F) {value : ℕ} (h : value < 2 ^ 64) :
    (c.setUinteger value).integer.toNat = value := by
  rw [setUinteger]
  simp only
  rw [toNat_extendWords_zero (fits_singleton h) (by decide), Nat.ofDigits_singleton]

/-- A number that is not negative is kept in the low word by both. -/
theorem setInteger_natCast (c : Cell F) {value : ℕ} (h : value < 2 ^ 64) :
    c.setInteger value = c.setUinteger value := by
  have hword : ((value : ℤ) % 2 ^ 64).toNat = value := by omega
  rw [setInteger, setUinteger, hword, if_neg (by omega)]

theorem toNat_setInteger_natCast (c : Cell F) {value : ℕ} (h : value < 2 ^ 64) :
    (c.setInteger value).integer.toNat = value := by
  rw [setInteger_natCast c h, toNat_setUinteger c h]

/-- A signed number is kept in two's complement. -/
theorem toNat_setInteger_neg (c : Cell F) {value : ℤ} (hneg : value < 0) (hge : -2 ^ 64 ≤ value) :
    (c.setInteger value).integer.toNat = modulus - value.natAbs := by
  have hword : (value % 2 ^ 64).toNat = 2 ^ 64 - value.natAbs := by omega
  have hlt : 2 ^ 64 - value.natAbs < 2 ^ 64 := by omega
  have hmax := toNat_extendWords_max (fits_singleton hlt) (by decide)
  have hle := two_pow_le_modulus (show 64 ≤ 512 by decide)
  rw [Nat.ofDigits_singleton, Nat.pow_one] at hmax
  rw [setInteger]
  simp only
  rw [hword, if_pos hneg]
  omega

theorem toNat_setInteger_signedCast (c : Cell F) {bits m : ℕ} (hpos : 0 < bits) (hbits : bits ≤ 64)
    (hm : m < 2 ^ bits) :
    (c.setInteger (signedCast bits m)).integer.toNat = signedNat bits m := by
  have h64 : 2 ^ bits ≤ 2 ^ 64 := Nat.pow_le_pow_right (by decide) hbits
  have hle := two_pow_le_modulus (show bits ≤ 512 by omega)
  rw [signedCast, signedNat]
  by_cases hlow : m < 2 ^ (bits - 1)
  · rw [if_pos hlow, if_pos hlow, toNat_setInteger_natCast _ (by omega)]
  · have hcast : (m : ℤ) - 2 ^ bits = -((2 ^ bits - m : ℕ) : ℤ) := by
      rw [Nat.cast_sub hm.le]
      push_cast
      omega
    rw [if_neg hlow, if_neg hlow, hcast, toNat_setInteger_neg _ (by omega) (by omega),
      Int.natAbs_neg, Int.natAbs_natCast]
    omega

/-- A signed number of some bits is in their range. -/
theorem inRange_setInteger (c : Cell F) {bits : ℕ} {value : ℤ} (hbits : bits ≤ 64)
    (hge : -2 ^ (bits - 1) ≤ value) (hlt : value < 2 ^ (bits - 1)) :
    InRange bits (c.setInteger value).integer.toNat := by
  have h64 : (2 : ℤ) ^ (bits - 1) ≤ 2 ^ 64 := pow_le_pow_right₀ (by decide) (by omega)
  rcases lt_or_ge value 0 with hneg | hpos
  · refine .inr ?_
    rw [toNat_setInteger_neg _ hneg (by omega)]
    have hcast : ((2 ^ (bits - 1) : ℕ) : ℤ) = 2 ^ (bits - 1) := by push_cast; rfl
    omega
  · refine .inl ?_
    obtain ⟨n, rfl⟩ := Int.eq_ofNat_of_zero_le hpos
    have hcast : ((2 ^ (bits - 1) : ℕ) : ℤ) = 2 ^ (bits - 1) := by push_cast; rfl
    rw [toNat_setInteger_natCast _ (by omega)]
    omega

/-! ### What the setters leave -/

/-- The numbers that the setters of a type can give. -/
def IntegerOf : StructType → ℕ → Prop
  | .bits8 | .uint8 => (· < 2 ^ 8)
  | .bits16 | .uint16 => (· < 2 ^ 16)
  | .bits32 | .uint32 | .version => (· < 2 ^ 32)
  | .bits64 | .uint64 | .oid | .time | .mstime | .ustime => (· < 2 ^ 64)
  | .int8 => InRange 8
  | .int16 => InRange 16
  | .int32 => InRange 32
  | .int64 => InRange 64
  | .int128 | .uint128 | .int256 | .uint256 | .int512 | .uint512 => fun _ => True
  | _ => (· = 0)

/-- The floating points that the setters of a type can give. -/
def FloatOf (fmt : FloatFormat F) : StructType → F → Prop
  | .float32 => fun x => ∃ bits, x = fmt.ofFloat bits
  | .float64 => fun x => ∃ bits, x = fmt.ofDouble bits
  | .float128 => fun _ => True
  | _ => (· = fmt.zero)

/-- The strings that the setters of a type can give. -/
def StringOf : StructType → Bytes → Prop
  | .p8string | .p16string | .p32string => fun _ => True
  | _ => (· = [])

/-- The members of a cell are those its type can have. -/
structure Settled (fmt : FloatFormat F) (column : SchemaColumn) (c : Cell F) : Prop where
  schemaColumn : c.schemaColumn = column
  integer : IntegerOf column.type c.integer.toNat
  float : FloatOf fmt column.type c.floatValue
  string : StringOf column.type c.string

theorem verifyCellType_eq_ok {expected : List StructType} {changed : Cell F} :
    c.verifyCellType expected changed = .ok c' ↔ c.schemaColumn.type ∈ expected ∧ changed = c' := by
  rw [verifyCellType]
  by_cases h : c.schemaColumn.type ∈ expected
  · rw [if_pos h]
    simp [h]
  · rw [if_neg h]
    simp [h]

variable {fmt}

/-- A setter of the number. -/
theorem Settled.integer_set {expected : List StructType} (h : Settled fmt column c)
    {integer : UInt512} (hset : c.verifyCellType expected { c with integer := integer } = .ok c')
    (hinteger : ∀ type ∈ expected, IntegerOf type integer.toNat) : Settled fmt column c' := by
  obtain ⟨htype, rfl⟩ := verifyCellType_eq_ok.1 hset
  rw [h.schemaColumn] at htype
  exact ⟨h.schemaColumn, hinteger _ htype, h.float, h.string⟩

theorem Settled.setUinteger {expected : List StructType} (h : Settled fmt column c) {bits value : ℕ}
    (hset : c.verifyCellType expected (c.setUinteger value) = .ok c') (hbits : bits ≤ 64)
    (hvalue : value < 2 ^ bits) (hexpected : ∀ type ∈ expected, IntegerOf type = (· < 2 ^ bits)) :
    Settled fmt column c' := by
  have hle : 2 ^ bits ≤ 2 ^ 64 := Nat.pow_le_pow_right (by decide) hbits
  refine h.integer_set hset fun type htype => ?_
  rw [hexpected type htype]
  exact (toNat_setUinteger c (hvalue.trans_le hle)).trans_lt hvalue

theorem Settled.setInteger {expected : List StructType} (h : Settled fmt column c) {bits : ℕ}
    {value : ℤ} (hset : c.verifyCellType expected (c.setInteger value) = .ok c') (hbits : bits ≤ 64)
    (hge : -2 ^ (bits - 1) ≤ value) (hlt : value < 2 ^ (bits - 1))
    (hexpected : ∀ type ∈ expected, IntegerOf type = InRange bits) : Settled fmt column c' := by
  refine h.integer_set hset fun type htype => ?_
  rw [hexpected type htype]
  exact inRange_setInteger c hbits hge hlt

theorem Settled.set (h : Settled fmt column c) (setter : Setter F)
    (hset : c.set fmt setter = .ok c') : Settled fmt column c' := by
  have hone : ∀ {p : StructType → Prop} {type : StructType}, p type → ∀ x ∈ [type], p x :=
    fun hp => List.forall_mem_singleton.2 hp
  have htwo : ∀ {p : StructType → Prop} {type type' : StructType}, p type → p type' →
      ∀ x ∈ [type, type'], p x := fun hp hp' => List.forall_mem_cons.2 ⟨hp, hone hp'⟩
  cases setter with
  | void =>
    obtain ⟨-, rfl⟩ := verifyCellType_eq_ok.1 hset
    exact h
  | oid x | time x | timeMs x | timeUs x =>
    exact h.setUinteger hset (Nat.le_refl 64) x.toNat_lt (hone rfl)
  | timeUsTimespec s n => exact h.setUinteger hset (Nat.le_refl 64) (by omega) (hone rfl)
  | uint8 x => exact h.setUinteger hset (show 8 ≤ 64 by decide) x.toNat_lt (htwo rfl rfl)
  | uint16 x => exact h.setUinteger hset (show 16 ≤ 64 by decide) x.toNat_lt (htwo rfl rfl)
  | uint32 x => exact h.setUinteger hset (show 32 ≤ 64 by decide) x.toNat_lt (htwo rfl rfl)
  | uint64 x => exact h.setUinteger hset (Nat.le_refl 64) x.toNat_lt (htwo rfl rfl)
  | version major minor =>
    have hmajor : major.toNat < 2 ^ 16 := major.toNat_lt
    have hminor : minor.toNat < 2 ^ 16 := minor.toNat_lt
    refine h.setUinteger hset (show 32 ≤ 64 by decide) ?_ (hone rfl)
    rw [Nat.shiftLeft_eq]
    omega
  | int8 x => exact h.setInteger hset (show 8 ≤ 64 by decide) x.le_toInt x.toInt_lt (hone rfl)
  | int16 x => exact h.setInteger hset (show 16 ≤ 64 by decide) x.le_toInt x.toInt_lt (hone rfl)
  | int32 x => exact h.setInteger hset (show 32 ≤ 64 by decide) x.le_toInt x.toInt_lt (hone rfl)
  | int64 x => exact h.setInteger hset (Nat.le_refl 64) x.le_toInt x.toInt_lt (hone rfl)
  | int128 x | uint128 x | int256 x | uint256 x | int512 x | uint512 x =>
    exact h.integer_set hset (hone trivial)
  | float32 bits =>
    obtain ⟨htype, rfl⟩ := verifyCellType_eq_ok.1 hset
    rw [h.schemaColumn, List.mem_singleton] at htype
    exact ⟨h.schemaColumn, h.integer, by rw [htype]; exact ⟨bits, rfl⟩, h.string⟩
  | float64 bits =>
    obtain ⟨htype, rfl⟩ := verifyCellType_eq_ok.1 hset
    rw [h.schemaColumn, List.mem_singleton] at htype
    exact ⟨h.schemaColumn, h.integer, by rw [htype]; exact ⟨bits, rfl⟩, h.string⟩
  | float128 x =>
    obtain ⟨htype, rfl⟩ := verifyCellType_eq_ok.1 hset
    rw [h.schemaColumn, List.mem_singleton] at htype
    exact ⟨h.schemaColumn, h.integer, by rw [htype]; trivial, h.string⟩
  | string s =>
    obtain ⟨htype, rfl⟩ := verifyCellType_eq_ok.1 hset
    have hstring : ∀ type ∈ [StructType.p8string, .p16string, .p32string], StringOf type s :=
      List.forall_mem_cons.2 ⟨trivial, htwo trivial trivial⟩
    rw [h.schemaColumn] at htype
    exact ⟨h.schemaColumn, h.integer, h.float, hstring _ htype⟩

theorem IsSet.settled (h : IsSet fmt column c) : Settled fmt column c := by
  induction h with
  | new =>
    refine ⟨rfl, ?_, ?_, ?_⟩
    · have hzero : (Cell.new fmt column).integer.toNat = 0 := UInt512.toNat_zero
      rw [hzero]
      cases column.type <;> first | exact Nat.two_pow_pos _ | exact .inl (Nat.two_pow_pos _) | trivial
    · cases column.type <;> first
        | exact ⟨0, fmt.ofFloat_zero.symm⟩
        | exact ⟨0, fmt.ofDouble_zero.symm⟩
        | trivial
    · cases column.type <;> trivial
  | set setter _ hset ih => exact ih.set setter hset

/-! ### Values that are read back -/

/-- The numbers that a type keeps: all those the setters give but for the columns of 64 bits that
are not signed, which are read as signed, and those whose parameter is a number of 512 bits. -/
def KeptBy : StructType → ℕ → Prop
  | .bits64 | .uint64 | .oid | .time | .mstime | .ustime => (· < 2 ^ 63)
  | .uint128 => (· < 2 ^ 128)
  | .uint256 => (· < 2 ^ 256)
  | .int128 => InRange 128
  | .int256 => InRange 256
  | _ => fun _ => True

/-- The value of a cell is kept. -/
def Representable (c : Cell F) : Prop := KeptBy c.schemaColumn.type c.integer.toNat

/-- These bytes are read as this cell of the column. -/
structure Rereads (fmt : FloatFormat F) (column : SchemaColumn) (bytes : Bytes) (c' : Cell F) :
    Prop where
  schemaColumn : c'.schemaColumn = column
  read : ∀ rest, (Cell.new fmt column).valueFromBinary fmt (bytes ++ rest) = .ok (c', rest)

/-- A number is kept when the words that are read are the same number. -/
theorem Settled.rereads_integer (h : Settled fmt column c) (hfloat : c.floatValue = fmt.zero)
    (hstring : c.string = []) {X : UInt512}
    (hread : ∀ rest, (Cell.new fmt column).valueFromBinary fmt (bytes ++ rest) =
      .ok ({ Cell.new fmt column with integer := X }, rest))
    (hX : X.toNat = c.integer.toNat ↔ KeptBy column.type c.integer.toNat) :
    ∃ c', Rereads fmt column bytes c' ∧ (c' = c ↔ c.Representable) := by
  refine ⟨_, ⟨rfl, hread⟩, ?_⟩
  rw [Representable, h.schemaColumn, ← hX]
  constructor
  · rintro rfl
    rfl
  · intro heq
    obtain ⟨col, n, x, s⟩ := c
    obtain rfl : col = column := h.schemaColumn
    obtain rfl : x = fmt.zero := hfloat
    obtain rfl : s = [] := hstring
    obtain rfl : X = n := UInt512.toNat_inj heq
    rfl

/-- A floating point or a string is kept. -/
theorem rereads_same (hread : ∀ rest,
      (Cell.new fmt column).valueFromBinary fmt (bytes ++ rest) = .ok (c, rest))
    (hcolumn : c.schemaColumn = column) (hrep : KeptBy column.type c.integer.toNat) :
    ∃ c', Rereads fmt column bytes c' ∧ (c' = c ↔ c.Representable) :=
  ⟨c, ⟨hcolumn, hread⟩, fun _ => by rw [Representable, hcolumn]; exact hrep, fun _ => rfl⟩

variable {bits k n : ℕ}

/-- The low bytes of a number that is not signed. -/
theorem Settled.rereads_low (h : Settled fmt column c) (hfloat : c.floatValue = fmt.zero)
    (hstring : c.string = []) (hk : k ≤ 8) (hinteger : c.integer.toNat < 2 ^ (8 * k))
    {set : ℕ → Cell F} (hset : ∀ m < 2 ^ 64, set m = (Cell.new fmt column).setUinteger m)
    (hread : ∀ bytes, (Cell.new fmt column).valueFromBinary fmt bytes =
      (readBe k bytes).bind fun x => .ok (set x.1, x.2))
    (hkept : KeptBy column.type c.integer.toNat) :
    ∃ c', Rereads fmt column (pushBe k c.integer.low) c' ∧ (c' = c ↔ c.Representable) := by
  have hle : 2 ^ (8 * k) ≤ 2 ^ 64 := Nat.pow_le_pow_right (by decide) (by omega)
  have hlow : c.integer.low % 256 ^ k = c.integer.toNat := by
    rw [low_mod _ hk, Nat.mod_eq_of_lt hinteger]
  have hX := toNat_setUinteger (Cell.new fmt column) (hinteger.trans_le hle)
  refine h.rereads_integer hfloat hstring (fun rest => ?_) ⟨fun _ => hkept, fun _ => hX⟩
  rw [hread, readBe_pushBe, hlow]
  exact congrArg (fun d => Except.ok (d, rest)) (hset _ (hinteger.trans_le hle))

/-- The low bytes of a number, read as signed. -/
theorem Settled.rereads_signed (h : Settled fmt column c) (hfloat : c.floatValue = fmt.zero)
    (hstring : c.string = []) (hpos : 0 < k) (hk : k ≤ 8)
    (hread : ∀ bytes, (Cell.new fmt column).valueFromBinary fmt bytes =
      (readBe k bytes).bind fun x =>
        .ok ((Cell.new fmt column).setInteger (signedCast (8 * k) x.1), x.2))
    (hkept : InRange (8 * k) c.integer.toNat ↔ KeptBy column.type c.integer.toNat) :
    ∃ c', Rereads fmt column (pushBe k c.integer.low) c' ∧ (c' = c ↔ c.Representable) := by
  have hwords : ∀ rest, (Cell.new fmt column).valueFromBinary fmt
      (pushBe k c.integer.low ++ rest) =
        .ok ((Cell.new fmt column).setInteger (signedCast (8 * k) (c.integer.low % 256 ^ k)), rest) :=
    fun rest => by rw [hread, readBe_pushBe]; rfl
  refine h.rereads_integer hfloat hstring hwords ?_
  rw [← hkept, ← signedNat_mod (by omega) (by omega) (UInt512.toNat_lt _), ← low_mod _ hk]
  have hlt : c.integer.low % 256 ^ k < 2 ^ (8 * k) := by
    rw [low_mod _ hk]
    exact Nat.mod_lt _ (Nat.two_pow_pos _)
  rw [← toNat_setInteger_signedCast (Cell.new fmt column) (by omega) (by omega) hlt]
  rfl

/-- The low words of a number that is not signed. -/
theorem Settled.rereads_words (h : Settled fmt column c) (hfloat : c.floatValue = fmt.zero)
    (hstring : c.string = []) (hn : n ≤ 8)
    (hread : ∀ bytes, (Cell.new fmt column).valueFromBinary fmt bytes =
      (readWords n bytes).bind fun x =>
        .ok ({ Cell.new fmt column with integer := extendWords x.1 0 }, x.2))
    (hkept : c.integer.toNat < 2 ^ (64 * n) ↔ KeptBy column.type c.integer.toNat) :
    ∃ c', Rereads fmt column (pushWords n c.integer) c' ∧ (c' = c ↔ c.Representable) := by
  refine h.rereads_integer hfloat hstring (X := extendWords (c.integer.limbs.take n) 0)
    (fun rest => by rw [hread, readWords_pushWords _ hn]; rfl) ?_
  rw [← hkept, toNat_extendWords_zero (fits_take_limbs _ hn) hn, ofDigits_take_limbs _ hn]
  constructor
  · intro heq
    rw [← heq]
    exact Nat.mod_lt _ (Nat.two_pow_pos _)
  · exact Nat.mod_eq_of_lt

/-- The low words of a number, read as signed. -/
theorem Settled.rereads_words_signed (h : Settled fmt column c) (hfloat : c.floatValue = fmt.zero)
    (hstring : c.string = []) (hn : n + 1 < 8)
    (hread : ∀ bytes, (Cell.new fmt column).valueFromBinary fmt bytes =
      (readWords (n + 1) bytes).bind fun x =>
        .ok ({ Cell.new fmt column with integer := extendSign x.1 }, x.2))
    (hkept : InRange (64 * (n + 1)) c.integer.toNat ↔ KeptBy column.type c.integer.toNat) :
    ∃ c', Rereads fmt column (pushWords (n + 1) c.integer) c' ∧ (c' = c ↔ c.Representable) := by
  refine h.rereads_integer hfloat hstring (X := extendSign (c.integer.limbs.take (n + 1)))
    (fun rest => by rw [hread, readWords_pushWords _ hn.le]; rfl) ?_
  rw [← hkept, toNat_extendSign (fits_take_limbs _ hn.le) hn.le, ofDigits_take_limbs _ hn.le,
    signedNat_mod (by omega) (by omega) (UInt512.toNat_lt _)]

/-- The eight words of a number. -/
theorem Settled.rereads_all (h : Settled fmt column c) (hfloat : c.floatValue = fmt.zero)
    (hstring : c.string = [])
    (hread : ∀ bytes, (Cell.new fmt column).valueFromBinary fmt bytes =
      (readWords 8 bytes).bind fun x =>
        .ok ({ Cell.new fmt column with integer := UInt512.ofWords x.1 }, x.2))
    (hkept : KeptBy column.type c.integer.toNat) :
    ∃ c', Rereads fmt column (pushWords 8 c.integer) c' ∧ (c' = c ↔ c.Representable) := by
  refine h.rereads_integer hfloat hstring (X := c.integer) (fun rest => ?_)
    ⟨fun _ => hkept, fun _ => rfl⟩
  rw [hread, readWords_pushWords _ (Nat.le_refl 8),
    List.take_of_length_le (Nat.le_of_eq c.integer.fits.length)]
  exact congrArg (fun X => Except.ok ({ Cell.new fmt column with integer := X }, rest))
    (ofWords_limbs _)

/-- A number of 64 bits is in the range of a signed one when its high bit is not set. -/
theorem inRange_iff_of_lt {m : ℕ} (h : m < 2 ^ 64) : InRange 64 m ↔ m < 2 ^ 63 := by
  have hle := two_pow_le_modulus (show 128 ≤ 512 by decide)
  rw [InRange]
  omega

theorem inRange_of_eq_zero {m : ℕ} (h : m = 0) : InRange bits m :=
  .inl (h.trans_lt (Nat.two_pow_pos _))

/-- A string with its size before it is read back. -/
theorem pstring_reread {type max : String} (c d : Cell F)
    (h : pstringToBinary k type max c.string = .ok bytes) (rest : Bytes) :
    pstringFromBinary k d (bytes ++ rest) = .ok ({ d with string := c.string }, rest) := by
  rw [pstringToBinary] at h
  split at h
  · cases h
  · rename_i hle
    cases h
    have hpow : 256 ^ k = 2 ^ (k * 8) := by
      rw [show (256 : ℕ) = 2 ^ 8 from rfl, ← Nat.pow_mul, Nat.mul_comm]
    have hsize : c.string.length % 256 ^ k = c.string.length :=
      Nat.mod_eq_of_lt (by rw [hpow]; have := Nat.two_pow_pos (k * 8); omega)
    rw [pstringFromBinary, List.append_assoc, readBe_pushBe, ok_bind, hsize]
    simp only
    rw [readString_append, ok_bind]

/-- A floating point is the only member of its cell that is set. -/
theorem Settled.eq_float (h : Settled fmt column c) (hinteger : c.integer.toNat = 0)
    (hstring : c.string = []) : c = { Cell.new fmt column with floatValue := c.floatValue } := by
  obtain ⟨col, n, x, s⟩ := c
  obtain rfl : col = column := h.schemaColumn
  obtain rfl : n = UInt512.zero := UInt512.toNat_inj (hinteger.trans UInt512.toNat_zero.symm)
  obtain rfl : s = [] := hstring
  rfl

/-- A string is the only member of its cell that is set. -/
theorem Settled.eq_string (h : Settled fmt column c) (hinteger : c.integer.toNat = 0)
    (hfloat : c.floatValue = fmt.zero) : c = { Cell.new fmt column with string := c.string } := by
  obtain ⟨col, n, x, s⟩ := c
  obtain rfl : col = column := h.schemaColumn
  obtain rfl : n = UInt512.zero := UInt512.toNat_inj (hinteger.trans UInt512.toNat_zero.symm)
  obtain rfl : x = fmt.zero := hfloat
  rfl

/-- The columns that keep a number and do not read it as signed, but for those of 64 bits. -/
theorem Settled.rereads_of_unsigned (h : Settled fmt column c) (he : c.valueToBinary fmt = .ok bytes)
    (htype : storage column.type = .unsigned) :
    ∃ c', Rereads fmt column bytes c' ∧ (c' = c ↔ c.Representable) := by
  have hinteger := h.integer
  have hfloat := h.float
  have hstring := h.string
  rw [valueToBinary, h.schemaColumn] at he
  cases hcolumn : column.type with
  | bits8 | uint8 =>
    rw [hcolumn] at he hinteger hfloat hstring
    cases he
    exact h.rereads_low hfloat hstring (k := 1) (by decide) hinteger (fun _ _ => rfl)
      (fun rest => by rw [valueFromBinary, new, hcolumn]; rfl) (by rw [hcolumn]; trivial)
  | bits16 | uint16 =>
    rw [hcolumn] at he hinteger hfloat hstring
    cases he
    exact h.rereads_low hfloat hstring (k := 2) (by decide) hinteger
      (fun m hm => setInteger_natCast _ hm)
      (fun rest => by rw [valueFromBinary, new, hcolumn]; rfl) (by rw [hcolumn]; trivial)
  | bits32 | uint32 | version =>
    rw [hcolumn] at he hinteger hfloat hstring
    cases he
    exact h.rereads_low hfloat hstring (k := 4) (by decide) hinteger
      (fun m hm => setInteger_natCast _ hm)
      (fun rest => by rw [valueFromBinary, new, hcolumn]; rfl) (by rw [hcolumn]; trivial)
  | bits64 | uint64 | oid =>
    -- read as signed: a number whose high bit is set is not kept
    rw [hcolumn] at he hinteger hfloat hstring
    cases he
    exact h.rereads_signed hfloat hstring (k := 8) (by decide) (by decide)
      (fun rest => by rw [valueFromBinary, new, hcolumn]; rfl)
      (by rw [hcolumn]; exact inRange_iff_of_lt hinteger)
  | reference =>
    rw [hcolumn] at he hinteger hfloat hstring
    cases he
    exact h.rereads_signed hfloat hstring (k := 8) (by decide) (by decide)
      (fun rest => by rw [valueFromBinary, new, hcolumn]; rfl)
      (by rw [hcolumn]; exact ⟨fun _ => trivial, fun _ => inRange_of_eq_zero hinteger⟩)
  | bits128 =>
    rw [hcolumn] at he hinteger hfloat hstring
    cases he
    have hzero : c.integer.toNat < 2 ^ (64 * 2) := hinteger.trans_lt (Nat.two_pow_pos _)
    exact h.rereads_words hfloat hstring (n := 2) (by decide)
      (fun rest => by rw [valueFromBinary, new, hcolumn]; rfl)
      (by rw [hcolumn]; exact ⟨fun _ => trivial, fun _ => hzero⟩)
  | bits256 =>
    rw [hcolumn] at he hinteger hfloat hstring
    cases he
    have hzero : c.integer.toNat < 2 ^ (64 * 4) := hinteger.trans_lt (Nat.two_pow_pos _)
    exact h.rereads_words hfloat hstring (n := 4) (by decide)
      (fun rest => by rw [valueFromBinary, new, hcolumn]; rfl)
      (by rw [hcolumn]; exact ⟨fun _ => trivial, fun _ => hzero⟩)
  | uint128 =>
    rw [hcolumn] at he hinteger hfloat hstring
    cases he
    exact h.rereads_words hfloat hstring (n := 2) (by decide)
      (fun rest => by rw [valueFromBinary, new, hcolumn]; rfl) (by rw [hcolumn]; exact Iff.rfl)
  | uint256 =>
    rw [hcolumn] at he hinteger hfloat hstring
    cases he
    exact h.rereads_words hfloat hstring (n := 4) (by decide)
      (fun rest => by rw [valueFromBinary, new, hcolumn]; rfl) (by rw [hcolumn]; exact Iff.rfl)
  | bits512 | uint512 =>
    rw [hcolumn] at he hfloat hstring
    cases he
    exact h.rereads_all hfloat hstring (fun rest => by rw [valueFromBinary, new, hcolumn]; rfl)
      (by rw [hcolumn]; trivial)
  | _ =>
    rw [hcolumn] at htype
    cases htype

/-- The columns that keep a number and read it with its sign, or as 64 bits. -/
theorem Settled.rereads_of_signed (h : Settled fmt column c) (he : c.valueToBinary fmt = .ok bytes)
    (htype : storage column.type = .signed) :
    ∃ c', Rereads fmt column bytes c' ∧ (c' = c ↔ c.Representable) := by
  have hinteger := h.integer
  have hfloat := h.float
  have hstring := h.string
  rw [valueToBinary, h.schemaColumn] at he
  cases hcolumn : column.type with
  | int8 =>
    rw [hcolumn] at he hinteger hfloat hstring
    cases he
    exact h.rereads_signed hfloat hstring (k := 1) (by decide) (by decide)
      (fun rest => by rw [valueFromBinary, new, hcolumn]; rfl)
      (by rw [hcolumn]; exact ⟨fun _ => trivial, fun _ => hinteger⟩)
  | int16 =>
    rw [hcolumn] at he hinteger hfloat hstring
    cases he
    exact h.rereads_signed hfloat hstring (k := 2) (by decide) (by decide)
      (fun rest => by rw [valueFromBinary, new, hcolumn]; rfl)
      (by rw [hcolumn]; exact ⟨fun _ => trivial, fun _ => hinteger⟩)
  | int32 =>
    rw [hcolumn] at he hinteger hfloat hstring
    cases he
    exact h.rereads_signed hfloat hstring (k := 4) (by decide) (by decide)
      (fun rest => by rw [valueFromBinary, new, hcolumn]; rfl)
      (by rw [hcolumn]; exact ⟨fun _ => trivial, fun _ => hinteger⟩)
  | int64 =>
    rw [hcolumn] at he hinteger hfloat hstring
    cases he
    exact h.rereads_signed hfloat hstring (k := 8) (by decide) (by decide)
      (fun rest => by rw [valueFromBinary, new, hcolumn]; rfl)
      (by rw [hcolumn]; exact ⟨fun _ => trivial, fun _ => hinteger⟩)
  | time | mstime | ustime =>
    -- their setters take a number that is not signed
    rw [hcolumn] at he hinteger hfloat hstring
    cases he
    exact h.rereads_signed hfloat hstring (k := 8) (by decide) (by decide)
      (fun rest => by rw [valueFromBinary, new, hcolumn]; rfl)
      (by rw [hcolumn]; exact inRange_iff_of_lt hinteger)
  | nstime =>
    rw [hcolumn] at he hinteger hfloat hstring
    cases he
    exact h.rereads_words_signed hfloat hstring (n := 1) (by decide)
      (fun rest => by rw [valueFromBinary, new, hcolumn]; rfl)
      (by rw [hcolumn]; exact ⟨fun _ => trivial, fun _ => inRange_of_eq_zero hinteger⟩)
  | int128 =>
    rw [hcolumn] at he hinteger hfloat hstring
    cases he
    exact h.rereads_words_signed hfloat hstring (n := 1) (by decide)
      (fun rest => by rw [valueFromBinary, new, hcolumn]; rfl) (by rw [hcolumn]; exact Iff.rfl)
  | int256 =>
    rw [hcolumn] at he hinteger hfloat hstring
    cases he
    exact h.rereads_words_signed hfloat hstring (n := 3) (by decide)
      (fun rest => by rw [valueFromBinary, new, hcolumn]; rfl) (by rw [hcolumn]; exact Iff.rfl)
  | int512 =>
    rw [hcolumn] at he hfloat hstring
    cases he
    exact h.rereads_all hfloat hstring (fun rest => by rw [valueFromBinary, new, hcolumn]; rfl)
      (by rw [hcolumn]; trivial)
  | _ =>
    rw [hcolumn] at htype
    cases htype

/-- The columns that keep a floating point. -/
theorem Settled.rereads_of_float (h : Settled fmt column c) (he : c.valueToBinary fmt = .ok bytes)
    (htype : storage column.type = .float) :
    ∃ c', Rereads fmt column bytes c' ∧ (c' = c ↔ c.Representable) := by
  have hinteger := h.integer
  have hfloat := h.float
  have hstring := h.string
  rw [valueToBinary, h.schemaColumn] at he
  cases hcolumn : column.type with
  | float32 =>
    rw [hcolumn] at he hinteger hfloat hstring
    cases he
    obtain ⟨bits, hbits⟩ := hfloat
    refine rereads_same (fun rest => ?_) h.schemaColumn (by rw [hcolumn]; trivial)
    have hword : (fmt.toFloat c.floatValue).toNat % 256 ^ 4 = (fmt.toFloat c.floatValue).toNat :=
      Nat.mod_eq_of_lt (UInt32.toNat_lt _)
    rw [valueFromBinary]
    simp only [Cell.new, hcolumn]
    rw [readBe_pushBe, ok_bind, hword, UInt32.ofNat_toNat, hbits, fmt.ofFloat_toFloat, ← hbits]
    exact congrArg (fun x => Except.ok (x, rest)) (h.eq_float hinteger hstring).symm
  | float64 =>
    rw [hcolumn] at he hinteger hfloat hstring
    cases he
    obtain ⟨bits, hbits⟩ := hfloat
    refine rereads_same (fun rest => ?_) h.schemaColumn (by rw [hcolumn]; trivial)
    have hword : (fmt.toDouble c.floatValue).toNat % 256 ^ 8 = (fmt.toDouble c.floatValue).toNat :=
      Nat.mod_eq_of_lt (UInt64.toNat_lt _)
    rw [valueFromBinary]
    simp only [Cell.new, hcolumn]
    rw [readBe_pushBe, ok_bind, hword, UInt64.ofNat_toNat, hbits, fmt.ofDouble_toDouble, ← hbits]
    exact congrArg (fun x => Except.ok (x, rest)) (h.eq_float hinteger hstring).symm
  | float128 =>
    rw [hcolumn] at he hinteger hfloat hstring
    cases he
    refine rereads_same (fun rest => ?_) h.schemaColumn (by rw [hcolumn]; trivial)
    have hword : ∀ w : UInt64, w.toNat % 256 ^ 8 = w.toNat := fun w =>
      Nat.mod_eq_of_lt (UInt64.toNat_lt w)
    rw [valueFromBinary]
    simp only [Cell.new, hcolumn]
    rw [List.append_assoc, readBe_pushBe, ok_bind]
    simp only
    rw [readBe_pushBe, ok_bind, hword, hword, UInt64.ofNat_toNat, UInt64.ofNat_toNat,
      fmt.ofWords_words]
    exact congrArg (fun x => Except.ok (x, rest)) (h.eq_float hinteger hstring).symm
  | _ =>
    rw [hcolumn] at htype
    cases htype

/-- The columns that keep a string: no setter gives a `CHAR` its value, so it is empty. -/
theorem Settled.rereads_of_string (h : Settled fmt column c) (he : c.valueToBinary fmt = .ok bytes)
    (htype : storage column.type = .string) :
    ∃ c', Rereads fmt column bytes c' ∧ (c' = c ↔ c.Representable) := by
  have hinteger := h.integer
  have hfloat := h.float
  have hstring := h.string
  rw [valueToBinary, h.schemaColumn] at he
  cases hcolumn : column.type with
  | char =>
    rw [hcolumn] at he hinteger hfloat hstring
    cases he
    refine rereads_same (fun rest => ?_) h.schemaColumn (by rw [hcolumn]; trivial)
    have hempty : c.string = [] := hstring
    have hzeroes : charToBinary column.minimumLength.toNat c.string =
        List.replicate column.minimumLength.toNat 0 := by
      rw [charToBinary, hempty, List.nil_append, List.length_nil, Nat.sub_zero]
      split
      · rfl
      · rw [show column.minimumLength.toNat = 0 by omega, List.replicate_zero]
    have hread := readString_append (List.replicate column.minimumLength.toNat 0) rest
    rw [List.length_replicate] at hread
    rw [valueFromBinary]
    simp only [Cell.new, hcolumn]
    rw [hzeroes, hread, ok_bind, List.takeWhile_replicate]
    simp only [ne_eq, not_true_eq_false, decide_false, Bool.false_eq_true, if_false]
    exact congrArg (fun x => Except.ok (x, rest)) (hempty ▸ h.eq_string hinteger hfloat).symm
  | p8string | p16string | p32string =>
    rw [hcolumn] at he hinteger hfloat hstring
    refine rereads_same (fun rest => ?_) h.schemaColumn (by rw [hcolumn]; trivial)
    rw [valueFromBinary]
    simp only [Cell.new, hcolumn]
    rw [pstring_reread c _ he]
    exact congrArg (fun x => Except.ok (x, rest)) (h.eq_string hinteger hfloat).symm
  | _ =>
    rw [hcolumn] at htype
    cases htype

/-- **A cell comes back as one of its column**, and as itself exactly when its value is
representable. -/
theorem Settled.rereads (h : Settled fmt column c) (he : c.valueToBinary fmt = .ok bytes) :
    ∃ c', Rereads fmt column bytes c' ∧ (c' = c ↔ c.Representable) := by
  cases hstorage : storage column.type with
  | void =>
    have hvoid : column.type = .void := by
      cases hcolumn : column.type <;> rw [hcolumn] at hstorage <;> first | rfl | cases hstorage
    have hinteger := h.integer
    have hfloat := h.float
    have hstring := h.string
    rw [valueToBinary, h.schemaColumn, hvoid] at he
    rw [hvoid] at hinteger hfloat hstring
    cases he
    refine h.rereads_integer hfloat hstring (X := UInt512.zero)
      (fun rest => by rw [valueFromBinary, new, hvoid]; rfl) ?_
    rw [hvoid, UInt512.toNat_zero]
    exact ⟨fun _ => trivial, fun _ => hinteger.symm⟩
  | unsigned => exact h.rereads_of_unsigned he hstorage
  | signed => exact h.rereads_of_signed he hstorage
  | float => exact h.rereads_of_float he hstorage
  | string => exact h.rereads_of_string he hstorage
  | none =>
    -- the types a cell cannot have
    rw [valueToBinary, h.schemaColumn] at he
    cases hcolumn : column.type <;> rw [hcolumn] at hstorage he <;>
      first | cases hstorage; done | cases he

end Cell

end Prinbee
