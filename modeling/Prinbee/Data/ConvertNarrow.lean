import Prinbee.Data.ConvertRange

/-!
# Numbers of at most 64 bits

`convert_to_int()` and `convert_to_uint()` read a number with `string_to_int()` and compare the
bits of its absolute value with a size.  A signed value of that size has one bit less, and what
512 bits keep of a number is all that is compared.

## Main definitions

* `convertToInt`, `convertToUint` — the conversions, without a unit.
* `DenotesPlainly` — a text denotes an integer, with digits and without a null byte.
* `ConvertsExactly` — the conversion of a text succeeds with the integer in range that the text
  denotes, and throws when there is none.

## Main results

* `stringToInt_throwsOr` — a text is read, or an exception is thrown.
* `convertToInt_exact_iff` — when the conversions are right.
-/

namespace Prinbee

open UInt512 (modulus)

/-- What the conversions throw on a number that has too many bits. -/
def numberTooLarge (value : Bytes) (type : String) (maxSize : ℕ) : Failure :=
  .thrown .outOfRange
    ("number \"" ++ textOf value ++ "\" too large for " ++ type ++ " " ++ toString maxSize
      ++ " bit value.")

/-- `convert_to_int()`. -/
def convertToInt (value : Bytes) (maxSize : ℕ) : Except Failure ℤ := do
  let n ← stringToInt value true
  if maxSize < (Int512.mk n).bitSize then .error (numberTooLarge value "a signed" maxSize)
  else .ok ((n.low : ℤ).bmod (2 ^ 64))

/-- `convert_to_uint()`. -/
def convertToUint (value : Bytes) (maxSize : ℕ) : Except Failure ℤ := do
  let n ← stringToInt value false
  if maxSize < n.bitSize then .error (numberTooLarge value "an unsigned" maxSize)
  else .ok n.low

/-! ### What is read -/

theorem numberSign_throwsOr (number l : Bytes) (acceptNegativeValues : Bool) :
    ThrowsOr (fun _ => True) (numberSign number l acceptNegativeValues) := by
  unfold numberSign
  split
  · exact .ok trivial
  · split
    · split
      · exact .ok trivial
      · exact .thrown _ _
    · exact .ok trivial

/-- A text is read, or an exception is thrown. -/
theorem stringToInt_throwsOr (s : Bytes) (acceptNegativeValues : Bool) :
    ThrowsOr (fun _ => True) (stringToInt s acceptNegativeValues) := by
  have hrest : ∀ (l : Bytes) (message : String) (r : UInt512), ThrowsOr (fun _ => True)
      (if l.dropWhile isSpace ≠ [] then .error (.thrown .invalidNumber message) else .ok r) := by
    intro l message r
    split
    · exact .thrown _ _
    · exact .ok trivial
  unfold stringToInt
  refine ThrowsOr.bind (numberSign_throwsOr _ _ _) fun r _ => ?_
  dsimp only
  split
  · split
    · exact .thrown _ _
    · exact hrest _ _ _
  · exact hrest _ _ _

/-- A text that denotes nothing is refused. -/
theorem throws_of_not_denotes {s : Bytes} {acceptNegativeValues : Bool}
    (h : ∀ z, ¬ Denotes acceptNegativeValues s z) : Throws (stringToInt s acceptNegativeValues) := by
  rcases stringToInt_throwsOr s acceptNegativeValues with hthrows | ⟨r, hr, -⟩
  · exact hthrows
  · obtain ⟨z, hz⟩ := denotes_of_stringToInt hr
    exact absurd hz (h z)

/-! ### When the conversions are right -/

/-- The conversion to a signed or an unsigned number. -/
def convertTo (isSigned : Bool) (value : Bytes) (maxSize : ℕ) : Except Failure ℤ :=
  if isSigned then convertToInt value maxSize else convertToUint value maxSize

/-- A text denotes an integer, with the digits that it needs and no null byte. -/
def DenotesPlainly (acceptNegativeValues : Bool) (s : Bytes) (z : ℤ) : Prop :=
  ∃ n : Numeral, n.text = s ∧ n.value = z ∧ (n.sign = some true → acceptNegativeValues = true) ∧
    n.rest = [] ∧ (n.digits ≠ [] ∨ n.introducer = .octal)

/-- The text denotes an integer that is in range. -/
def HasValue (isSigned : Bool) (s : Bytes) (bits : ℕ) (z : ℤ) : Prop :=
  DenotesPlainly isSigned s z ∧ InTypeRange isSigned bits z

/-- The conversion succeeds with the integer in range that the text denotes, and throws when there
is none. -/
def ConvertsExactly (result : Except Failure ℤ) (isSigned : Bool) (s : Bytes) (bits : ℕ) : Prop :=
  (∀ z, result = .ok z ↔ HasValue isSigned s bits z) ∧
    ((∀ z, ¬ HasValue isSigned s bits z) → Throws result)

/-- What is left of a number in a word. -/
def lowWord (isSigned : Bool) (z : ℤ) : ℤ :=
  if isSigned then z.bmod (2 ^ 64) else z % 2 ^ 64

/-- The size of what 512 bits keep decides. -/
theorem convertTo_spec {isSigned : Bool} {s : Bytes} {z : ℤ} (hs : Denotes isSigned s z)
    (bits : ℕ) :
    (|wrapped isSigned z| < 2 ^ bits → convertTo isSigned s bits = .ok (lowWord isSigned z)) ∧
      (2 ^ bits ≤ |wrapped isSigned z| → Throws (convertTo isSigned s bits)) := by
  obtain ⟨r, hread, hr⟩ := stringToInt_of_denotes hs
  have hlow : (r.low : ℤ) = z % 2 ^ 64 := by
    have hdvd : (2 ^ 64 : ℤ) ∣ modulus := ⟨(2 ^ 64) ^ 7, by rw [UInt512.modulus]; norm_num⟩
    rw [UInt512.low_eq, Int.natCast_mod, hr]
    exact Int.emod_emod_of_dvd z hdvd
  cases isSigned with
  | true =>
    have hsize : (Int512.mk r).bitSize = (wrapped true z).natAbs.size := by
      rw [Int512.bitSize_eq_size, Int512.toInt_eq_bmod hr, wrapped, if_pos rfl]
    have hbits : bits < (wrapped true z).natAbs.size ↔ 2 ^ bits ≤ |wrapped true z| := by
      rw [Nat.lt_size, ← Int.natCast_natAbs]
      exact_mod_cast Iff.rfl
    have hbmod : (z % 2 ^ 64).bmod (2 ^ 64) = z.bmod (2 ^ 64) := Int.emod_bmod z _
    rw [convertTo, if_pos rfl, convertToInt, hread, ok_bind, hsize, lowWord, if_pos rfl, hlow, hbmod]
    exact ⟨fun h => if_neg (mt hbits.1 h.not_ge), fun h => ⟨_, _, if_pos (hbits.2 h)⟩⟩
  | false =>
    have hvalue : wrapped false z = r.toNat := hr.symm
    have hbits : bits < r.bitSize ↔ 2 ^ bits ≤ |wrapped false z| := by
      rw [UInt512.bitSize_eq, Nat.lt_size, hvalue, Nat.abs_cast]
      exact_mod_cast Iff.rfl
    rw [convertTo, if_neg Bool.false_ne_true, convertToUint, hread, ok_bind, lowWord,
      if_neg Bool.false_ne_true, hlow]
    exact ⟨fun h => if_neg (mt hbits.1 h.not_ge), fun h => ⟨_, _, if_pos (hbits.2 h)⟩⟩

theorem DenotesPlainly.denotes {acceptNegativeValues : Bool} {s : Bytes} {z : ℤ}
    (h : DenotesPlainly acceptNegativeValues s z) : Denotes acceptNegativeValues s z := by
  obtain ⟨n, htext, hvalue, haccept, -⟩ := h
  exact ⟨n, htext, hvalue, haccept⟩

/-- An integer in range is not too large, and a word keeps it. -/
theorem inTypeRange_narrow {isSigned : Bool} {bits : ℕ} (hpos : 1 ≤ bits) (hle : bits ≤ 64) {z : ℤ}
    (h : InTypeRange isSigned bits z) :
    |wrapped isSigned z| < 2 ^ bits ∧ lowWord isSigned z = z := by
  refine ⟨?_, mod_of_inTypeRange hpos hle h⟩
  rw [wrapped_of_inTypeRange hpos (by omega) h]
  cases isSigned with
  | false =>
    simp only [InTypeRange, Bool.false_eq_true, if_false] at h
    rw [abs_of_nonneg h.1]
    exact h.2
  | true =>
    simp only [InTypeRange, if_true] at h
    have hlt : (2 : ℤ) ^ (bits - 1) < 2 ^ bits := pow_lt_pow_right₀ (by decide) (by omega)
    rw [abs_lt]
    omega

/-- The conversion of a text is right if and only if the text denotes an integer in range, or what 512
bits keep of any integer that it may be taken for has too many bits. -/
theorem convertsExactly_iff (isSigned : Bool) (s : Bytes) {bits : ℕ} (hpos : 1 ≤ bits)
    (hle : bits ≤ 64) :
    ConvertsExactly (convertTo isSigned s bits) isSigned s bits ↔
      (∃ z, HasValue isSigned s bits z) ∨
        ∀ z, Denotes isSigned s z → 2 ^ bits ≤ |wrapped isSigned z| := by
  have hvalue : ∀ z, HasValue isSigned s bits z → convertTo isSigned s bits = .ok z := by
    rintro z ⟨hz, hrange⟩
    obtain ⟨hsize, hword⟩ := inTypeRange_narrow hpos hle hrange
    rw [(convertTo_spec hz.denotes bits).1 hsize, hword]
  constructor
  · rintro ⟨hok, -⟩
    by_contra hnot
    rw [not_or] at hnot
    obtain ⟨hnone, hsmall⟩ := hnot
    push Not at hsmall
    obtain ⟨z, hz, hlt⟩ := hsmall
    exact hnone ⟨_, (hok _).1 ((convertTo_spec hz bits).1 hlt)⟩
  · rintro (⟨z, hz⟩ | hlarge)
    · refine ⟨fun z' => ⟨fun h => ?_, hvalue z'⟩, fun h => absurd hz (h z)⟩
      rw [hvalue z hz] at h
      cases h
      exact hz
    · have hnone : ∀ z, ¬ HasValue isSigned s bits z := by
        rintro z ⟨hz, hrange⟩
        exact absurd (inTypeRange_narrow hpos hle hrange).1 (hlarge z hz.denotes).not_gt
      have hthrows : Throws (convertTo isSigned s bits) := by
        by_cases hs : ∃ z, Denotes isSigned s z
        · obtain ⟨z, hz⟩ := hs
          exact (convertTo_spec hz bits).2 (hlarge z hz)
        · have hread := throws_of_not_denotes (not_exists.1 hs)
          cases isSigned with
          | true => exact hread.bind _
          | false => exact hread.bind _
      refine ⟨fun z => ⟨fun h => ?_, fun h => absurd h (hnone z)⟩, fun _ => hthrows⟩
      obtain ⟨kind, message, herror⟩ := hthrows
      rw [h] at herror
      cases herror

/-- **The conversions are right if and only if** the text denotes an integer in range, or what 512
bits keep of any number that it may be taken for has too many bits. -/
theorem convertToInt_exact_iff (s : Bytes) {maxSize : ℕ} (hpos : 1 ≤ maxSize) (hle : maxSize ≤ 64) :
    (ConvertsExactly (convertToInt s maxSize) true s maxSize ↔
      (∃ z, HasValue true s maxSize z) ∨
        ∀ z, Denotes true s z → 2 ^ maxSize ≤ |z.bmod modulus|) ∧
    (ConvertsExactly (convertToUint s maxSize) false s maxSize ↔
      (∃ z, HasValue false s maxSize z) ∨
        ∀ z, Denotes false s z → 2 ^ maxSize ≤ |z % modulus|) :=
  ⟨convertsExactly_iff true s hpos hle, convertsExactly_iff false s hpos hle⟩

theorem noSpace : ∀ c ∈ ([] : Bytes), isSpace c = true := List.forall_mem_nil _

theorem headD_nil : ([] : Bytes).headD 0 = 0 := rfl

/-- The number 128. -/
def oneHundredTwentyEight : Numeral where
  before := []
  sign := none
  introducer := .decimal
  digits := [49, 50, 56]
  after := []
  rest := []
  before_space := noSpace
  isDigit := List.forall_mem_cons.2
    ⟨⟨1, rfl⟩, List.forall_mem_cons.2 ⟨⟨2, rfl⟩, List.forall_mem_singleton.2 ⟨8, rfl⟩⟩⟩
  decimal_head _ := by decide
  after_space := noSpace
  rest_null := headD_nil

/-- It is an unsigned number of 8 bits. -/
theorem convertToUint_exact_128 :
    ConvertsExactly (convertToUint oneHundredTwentyEight.text 8) false
      oneHundredTwentyEight.text 8 :=
  (convertToInt_exact_iff oneHundredTwentyEight.text (by decide) (by decide)).2.2
    (.inl ⟨128, ⟨oneHundredTwentyEight, rfl, by decide, by decide, rfl, .inl (by decide)⟩,
      by unfold InTypeRange; decide⟩)

/-- It is returned as a signed number of 8 bits too. -/
theorem convertToInt_not_exact_128 :
    ¬ ConvertsExactly (convertToInt oneHundredTwentyEight.text 8) true
      oneHundredTwentyEight.text 8 := by
  rintro ⟨hok, -⟩
  have hresult : convertToInt oneHundredTwentyEight.text 8 = .ok 128 := by decide
  obtain ⟨-, hrange⟩ := (hok 128).1 hresult
  revert hrange
  unfold InTypeRange
  decide

end Prinbee
