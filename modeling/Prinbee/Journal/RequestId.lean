import Prinbee.BigInt.UInt512

/-!
# Identifiers as request identifiers

`journal.h`: `id_to_string()` and `string_to_id()` write an integer of any integral type as the
bytes of a request identifier, the highest one first, and read it back.  The loop that writes ends
when the shifts have made the integer zero.  A negative one stays negative.

## Main definitions

* `IntegralType` — the types, with their values and the conversion to them.
* `idToString`, `stringToId` — the two functions.
* `IdentifierSurvives` — an integer is written and read back.

## Main results

* `identifierSurvives_iff` — it is exactly when it is not negative.
-/

namespace Prinbee

open UInt512 (ofBytes toBytes)

/-- An integral type, by its number of bytes; `bool` has one. -/
inductive IntegralType
  | bool
  | unsigned (size : ℕ)
  | signed (size : ℕ)
  deriving DecidableEq, Repr

namespace IntegralType

/-- `sizeof()`. -/
def size : IntegralType → ℕ
  | bool => 1
  | unsigned n => n
  | signed n => n

/-- The values of the type. -/
def Holds : IntegralType → ℤ → Prop
  | bool, v => v = 0 ∨ v = 1
  | unsigned n, v => 0 ≤ v ∧ v < 256 ^ n
  | signed n, v => -256 ^ n ≤ 2 * v ∧ 2 * v < 256 ^ n

instance (t : IntegralType) (v : ℤ) : Decidable (t.Holds v) :=
  match t with
  | bool => inferInstanceAs (Decidable (v = 0 ∨ v = 1))
  | unsigned n => inferInstanceAs (Decidable (0 ≤ v ∧ v < 256 ^ n))
  | signed n => inferInstanceAs (Decidable (-256 ^ n ≤ 2 * v ∧ 2 * v < 256 ^ n))

/-- The conversion of an integer to the type. -/
def convert : IntegralType → ℤ → ℤ
  | bool, v => if v = 0 then 0 else 1
  | unsigned n, v => v % 256 ^ n
  | signed n, v => v.bmod (256 ^ n)

theorem convert_of_holds {t : IntegralType} {v : ℤ} (h : t.Holds v) : t.convert v = v := by
  cases t with
  | bool => rcases h with rfl | rfl <;> rfl
  | unsigned n => exact Int.emod_eq_of_lt h.1 h.2
  | signed n =>
    simp only [Holds] at h
    apply Int.bmod_eq_of_le
    · push_cast
      omega
    · push_cast
      omega

/-- The values that are not negative go from zero on. -/
theorem Holds.of_le {t : IntegralType} {v w : ℤ} (h : t.Holds v) (hw : 0 ≤ w) (hle : w ≤ v) :
    t.Holds w := by
  cases t <;> simp only [Holds] at h ⊢ <;> omega

/-- They fit in the bytes of the type. -/
theorem Holds.lt {t : IntegralType} {n : ℕ} (h : t.Holds n) : n < 256 ^ t.size := by
  zify
  cases t <;> simp only [Holds] at h ⊢ <;> simp only [size] <;> omega

end IntegralType

/-- The loop of `id_to_string()`, with `left` positions in front of the last one written. -/
def idToStringLoop : ℕ → ℤ → List UInt8 → Except Failure (List UInt8)
  | 0, id, result => if id = 0 then .ok result else .error .undefinedBehavior
  | left + 1, id, result =>
    if id = 0 then .ok result
    else idToStringLoop left (id >>> (8 : ℕ)) (result.set left (UInt8.ofInt id))

/-- `id_to_string()`. -/
def idToString (t : IntegralType) (id : ℤ) : Except Failure (List UInt8) :=
  idToStringLoop t.size id (List.replicate t.size 0)

/-- `string_to_id()`: the low byte of the shifted identifier is free. -/
def stringToId (t : IntegralType) (value : List UInt8) : Except Failure ℤ :=
  if value.length ≠ t.size then
    .error (.thrown .invalidParameter "input string is not the right size")
  else .ok (value.foldl (fun id c => t.convert (id * 256 + c.toNat)) 0)

/-! ### Writing -/

/-- `id & 255` of a number. -/
theorem ofInt_natCast (n : ℕ) : UInt8.ofInt n = UInt8.ofNat n := by
  rw [← UInt8.ofNat_mod_size]
  rfl

theorem toBytes_succ (k n : ℕ) : toBytes (k + 1) n = UInt8.ofNat n :: toBytes k (n / 256) := by
  simp only [toBytes, Limbs.digits, List.map_cons, List.cons.injEq, and_true]
  exact UInt8.ofNat_mod_size

theorem toBytes_zero (k : ℕ) : toBytes k 0 = List.replicate k 0 := by
  have h := UInt512.toBytes_ofBytes (List.replicate k 0)
  rwa [List.length_replicate, UInt512.ofBytes_replicate_zero] at h

/-- The loop writes the bytes of a number in front of those it has written. -/
theorem idToStringLoop_ofNat {left n : ℕ} (h : n < 256 ^ left) (written : List UInt8) :
    idToStringLoop left n (List.replicate left 0 ++ written) =
      .ok ((toBytes left n).reverse ++ written) := by
  induction left generalizing n written with
  | zero =>
    obtain rfl : n = 0 := by omega
    rfl
  | succ left ih =>
    rw [idToStringLoop]
    split
    · next hzero =>
      obtain rfl : n = 0 := by omega
      rw [toBytes_zero, List.reverse_replicate]
    · have hshift : ((n : ℤ) >>> (8 : ℕ)) = ((n / 256 : ℕ) : ℤ) := by
        rw [Int.shiftRight_eq_div_pow]
        rfl
      have hset : (List.replicate (left + 1) 0 ++ written).set left (UInt8.ofInt n) =
          List.replicate left 0 ++ UInt8.ofNat n :: written := by
        rw [List.replicate_succ', List.append_assoc, List.set_append_right _ _ (by simp)]
        simp [ofInt_natCast]
      rw [hshift, hset, ih (by omega), toBytes_succ, List.reverse_cons, List.append_assoc]
      rfl

/-- A negative number stays negative, and the loop comes to the start of the string. -/
theorem idToStringLoop_neg {left : ℕ} {id : ℤ} (h : id < 0) (result : List UInt8) :
    idToStringLoop left id result = .error .undefinedBehavior := by
  induction left generalizing id result with
  | zero => rw [idToStringLoop, if_neg h.ne]
  | succ left ih =>
    have hshift : id >>> (8 : ℕ) < 0 := by
      rw [Int.shiftRight_eq_div_pow]
      omega
    rw [idToStringLoop, if_neg h.ne, ih hshift]

theorem idToString_ofNat {t : IntegralType} {n : ℕ} (h : t.Holds n) :
    idToString t n = .ok (toBytes t.size n).reverse := by
  have hloop := idToStringLoop_ofNat h.lt []
  rwa [List.append_nil, List.append_nil] at hloop

/-! ### Reading -/

/-- The bytes of a value are read as that value: what is read on the way is not greater. -/
theorem foldr_convert {t : IntegralType} (bytes : List UInt8) (h : t.Holds (ofBytes bytes)) :
    bytes.foldr (fun c id => t.convert (id * 256 + c.toNat)) 0 = ofBytes bytes := by
  induction bytes with
  | nil => rfl
  | cons c bytes ih =>
    have hcons : ofBytes (c :: bytes) = ofBytes bytes * 256 + c.toNat := by
      simp only [ofBytes, List.map_cons, Nat.ofDigits_cons]
      omega
    rw [List.foldr_cons, ih (h.of_le (by omega) (by omega)), hcons]
    rw [hcons] at h
    exact_mod_cast IntegralType.convert_of_holds h

theorem stringToId_toBytes {t : IntegralType} {n : ℕ} (h : t.Holds n) :
    stringToId t (toBytes t.size n).reverse = .ok (n : ℤ) := by
  have hvalue : ofBytes (toBytes t.size n) = n := by
    rw [UInt512.ofBytes_toBytes, Nat.mod_eq_of_lt h.lt]
  rw [stringToId, if_neg (by simp), List.foldl_reverse, foldr_convert _ (by rwa [hvalue]), hvalue]

/-! ### The round trip -/

/-- `id_to_string()` returns, and `string_to_id()` reads the value from what it returns. -/
def IdentifierSurvives (t : IntegralType) (v : ℤ) : Prop :=
  ∃ s, idToString t v = .ok s ∧ stringToId t s = .ok v

/-- **A value of an integral type survives exactly when it is not negative.** -/
theorem identifierSurvives_iff {t : IntegralType} {v : ℤ} (h : t.Holds v) :
    IdentifierSurvives t v ↔ 0 ≤ v := by
  constructor
  · rintro ⟨s, hs, -⟩
    by_contra hneg
    rw [idToString, idToStringLoop_neg (Int.not_le.1 hneg)] at hs
    cases hs
  · intro hle
    obtain ⟨n, rfl⟩ := Int.eq_ofNat_of_zero_le hle
    exact ⟨_, idToString_ofNat h, stringToId_toBytes h⟩

theorem identifierSurvives_1234 : IdentifierSurvives (.signed 4) 0x31323334 :=
  (identifierSurvives_iff (by decide)).2 (by decide)

/-- For `-1` of type `int`, the loop writes in front of the string. -/
theorem minusOne_not_survives :
    (IntegralType.signed 4).Holds (-1) ∧
    idToString (.signed 4) (-1) = .error .undefinedBehavior ∧
    ¬ IdentifierSurvives (.signed 4) (-1) := by
  have hloop : idToString (.signed 4) (-1) = .error .undefinedBehavior := by decide
  refine ⟨by decide, hloop, ?_⟩
  rintro ⟨s, hs, -⟩
  rw [hloop] at hs
  cases hs

end Prinbee
