import Prinbee.Data.Convert
import Mathlib.Data.List.TakeWhile

/-!
# From a buffer to text and back

For each kind of type, the text of a valid buffer is read back as the same buffer.  An integer
goes through the digits of its base: the text that `to_string()` writes is one of the forms that
`string_to_int()` reads, and the two's complement of a negative one comes back from its
absolute value.

## Main definitions

* `ValidBuffer` — the buffers that are a value of a type.
* `BaseFor` — the bases, or the size of a `CHAR`, that go with a type.
* `FillsChar` — a `CHAR` is the text with zeros behind it.

## Main results

* `stringToInt_digits` — the digits of a number are read as that number.
* `typedBuffer_roundTrip` — **the round trip**, for every type.
* `fillsChar_iff` — a `CHAR` is filled exactly when it has room for the text.
-/

namespace Prinbee

open UInt512 (modulus digitChar digitsText introducerOf bases ofBytes toBytes)

/-! ### The digits of a number -/

/-- The base of a number type. -/
def NumberType.base : NumberType → ℕ
  | .binary => 2
  | .octal => 8
  | .decimal => 10
  | .hexadecimal => 16

theorem toNat_add_self (v : UInt512) : (v.add v).toNat = 2 * v.toNat % modulus := by
  rw [UInt512.toNat_add, ← Nat.two_mul]

theorem timesBase_eq (t : NumberType) (v : UInt512) :
    (timesBase t v).toNat = t.base * v.toNat % modulus := by
  cases t with
  | binary => exact toNat_add_self v
  | octal =>
    simp only [timesBase, toNat_add_self, Nat.mul_mod_mod, NumberType.base]
    congr 1
    omega
  | decimal =>
    simp only [timesBase, toNat_add_self, UInt512.toNat_add, Nat.mul_mod_mod, NumberType.base,
      Nat.mod_add_mod, Nat.add_mod_mod]
    congr 1
    omega
  | hexadecimal =>
    simp only [timesBase, toNat_add_self, Nat.mul_mod_mod, NumberType.base]
    congr 1
    omega

/-- Every digit is read back. -/
theorem digitOf_digitChar (t : NumberType) {d : ℕ} (h : d < t.base) (uppercase : Bool) :
    digitOf t (digitChar uppercase d) = some d := by
  have hall : ∀ t : NumberType, ∀ d < 16, d < t.base → ∀ u, digitOf t (digitChar u d) = some d := by
    intro t
    cases t <;> decide
  have hbase : t.base ≤ 16 := by cases t <;> decide
  exact hall t d (by omega) h uppercase

/-- The digits of a number, the most significant one first, are read as that number. -/
theorem readDigits_eq (t : NumberType) (uppercase : Bool) (ds : List ℕ)
    (h : ∀ d ∈ ds, d < t.base) (v : UInt512) :
    ∃ r, readDigits t v (ds.map (digitChar uppercase)) = (r, []) ∧
      r.toNat = ds.foldl (fun n d => t.base * n + d) v.toNat % modulus := by
  induction ds generalizing v with
  | nil => exact ⟨v, rfl, (Nat.mod_eq_of_lt v.toNat_lt).symm⟩
  | cons d ds ih =>
    have hd := h d (by simp)
    have hbase : t.base ≤ 16 := by cases t <;> decide
    obtain ⟨r, hread, hr⟩ := ih (fun e he => h e (by simp [he]))
      ((timesBase t v).add (UInt512.ofUInt64 d))
    refine ⟨r, ?_, ?_⟩
    · rw [List.map_cons, readDigits, digitOf_digitChar t hd]
      exact hread
    · rw [hr, UInt512.toNat_add, timesBase_eq, UInt512.toNat_ofUInt64 (by omega), Nat.mod_add_mod,
        List.foldl_cons, Limbs.foldl_mod]

/-! ### The text of a number -/

/-- The text of a number in a base. -/
def numberText (base : ℤ) (n : ℕ) : Bytes :=
  if n = 0 then [48] else introducerOf base true ++ digitsText base.toNat true n

theorem toText_eq_numberText (v : UInt512) {base : ℤ} (hbase : base ∈ bases) :
    v.toText base true true = .ok (numberText base v.toNat) := by
  rw [numberText]
  split
  · rename_i hv
    exact UInt512.toText_zero base hv
  · rename_i hv
    exact UInt512.toText_eq hbase hv

/-- The first digit of a number is not zero. -/
theorem digits_reverse_eq_cons {b n : ℕ} (hb : 1 < b) (hn : n ≠ 0) :
    ∃ d ds, (Nat.digits b n).reverse = d :: ds ∧ d ≠ 0 ∧ d < b := by
  have hne : Nat.digits b n ≠ [] := Nat.digits_ne_nil_iff_ne_zero.2 hn
  cases hrev : (Nat.digits b n).reverse with
  | nil => exact absurd (List.reverse_eq_nil_iff.1 hrev) hne
  | cons d ds =>
    have hlast : (Nat.digits b n).getLast hne = d := by
      have := List.head_reverse (l := Nat.digits b n) (by rw [hrev]; simp)
      simpa [hrev] using this.symm
    refine ⟨d, ds, rfl, hlast ▸ Nat.getLast_digit_ne_zero b hn, ?_⟩
    exact hlast ▸ Nat.digits_lt_base hb (List.getLast_mem hne)

/-- The characters of digits, as the syntax of numbers tells them apart. -/
theorem digitChar_spec {d : ℕ} (h : d < 16) :
    48 ≤ (digitChar true d).toNat ∧ (d ≠ 0 → digitChar true d ≠ 48) ∧
      (d < 10 → digitChar true d ≠ 120 ∧ digitChar true d ≠ 88 ∧ digitChar true d ≠ 98 ∧
        digitChar true d ≠ 66) := by
  revert h
  revert d
  decide

/-- The text of a number in one of the bases tells the base, and has its digits. -/
theorem numberType_numberText {base : ℤ} (hbase : base ∈ bases) (n : ℕ) :
    ∃ t ds, numberType (numberText base n) = (t, false, List.map (digitChar true) ds) ∧
      (∀ d ∈ ds, d < t.base) ∧ ds.foldl (fun n d => t.base * n + d) 0 = n := by
  rw [numberText]
  split
  · rename_i hn
    exact ⟨.octal, [], rfl, by simp, hn.symm⟩
  rename_i hn
  have hlt : ∀ b : ℕ, 1 < b → ∀ d ∈ (Nat.digits b n).reverse, d < b :=
    fun b hb d hd => Nat.digits_lt_base hb (List.mem_reverse.1 hd)
  simp only [bases, List.mem_cons, List.not_mem_nil, or_false] at hbase
  rcases hbase with rfl | rfl | rfl | rfl
  · exact ⟨.binary, _, rfl, hlt 2 (by decide), Limbs.foldl_digits 2 n⟩
  · -- the digit after the 0 is not a letter
    obtain ⟨d, ds, hds, -, hd⟩ := digits_reverse_eq_cons (by decide : 1 < 8) hn
    obtain ⟨-, -, hletter⟩ := digitChar_spec (by omega : d < 16)
    obtain ⟨h1, h2, h3, h4⟩ := hletter (by omega)
    refine ⟨.octal, _, ?_, hlt 8 (by decide), Limbs.foldl_digits 8 n⟩
    show numberType (48 :: List.map (digitChar true) (Nat.digits 8 n).reverse) = _
    rw [hds]
    simp [numberType, h1, h2, h3, h4]
  · obtain ⟨d, ds, hds, hd0, hd⟩ := digits_reverse_eq_cons (by decide : 1 < 10) hn
    obtain ⟨-, hzero, hletter⟩ := digitChar_spec (by omega : d < 16)
    obtain ⟨h1, h2, -, -⟩ := hletter (by omega)
    refine ⟨.decimal, _, ?_, hlt 10 (by decide), Limbs.foldl_digits 10 n⟩
    show numberType (List.map (digitChar true) (Nat.digits 10 n).reverse) = _
    rw [hds]
    simp [numberType, hzero hd0, h1, h2]
  · exact ⟨.hexadecimal, _, rfl, hlt 16 (by decide), Limbs.foldl_digits 16 n⟩

/-- The text of a number has no space, no sign and no null byte. -/
theorem numberText_ge {base : ℤ} (hbase : base ∈ bases) (n : ℕ) :
    ∀ c ∈ numberText base n, 48 ≤ c.toNat := by
  intro c hc
  rw [numberText] at hc
  split at hc
  · obtain rfl := List.mem_singleton.1 hc
    decide
  · have hb : 1 < base.toNat ∧ base.toNat ≤ 16 ∧ ∀ c ∈ introducerOf base true, 48 ≤ c.toNat := by
      simp only [bases, List.mem_cons, List.not_mem_nil, or_false] at hbase
      rcases hbase with rfl | rfl | rfl | rfl <;> simp [introducerOf]
    rcases List.mem_append.1 hc with hc | hc
    · exact hb.2.2 c hc
    · obtain ⟨d, hd, rfl⟩ := List.mem_map.1 hc
      have hlt := Nat.digits_lt_base hb.1 (List.mem_reverse.1 hd)
      exact (digitChar_spec (by omega)).1

theorem numberText_ne_nil (base : ℤ) (n : ℕ) : numberText base n ≠ [] := by
  rw [numberText]
  split
  · simp
  · rename_i hn
    simp [digitsText, Nat.digits_ne_nil_iff_ne_zero.2 hn]

/-- What `string_to_int()` does with a text that has no space and no null byte. -/
theorem stringToInt_plain {number text : Bytes} {accept negative : Bool}
    (hne : ∀ c ∈ number, c ≠ 0 ∧ isSpace c = false)
    (hsign : numberSign number number accept = .ok (negative, text)) {t : NumberType}
    {ds : List ℕ} (htype : numberType text = (t, false, List.map (digitChar true) ds))
    (hds : ∀ d ∈ ds, d < t.base) :
    ∃ r, stringToInt number accept = .ok (if negative then r.neg else r) ∧
      r.toNat = ds.foldl (fun n d => t.base * n + d) 0 % modulus := by
  have htake : number.takeWhile (· ≠ 0) = number :=
    List.takeWhile_eq_self_iff.2 fun c hc => by simpa using (hne c hc).1
  have hdrop : number.dropWhile isSpace = number := by
    cases number with
    | nil => rfl
    | cons c number => exact List.dropWhile_cons_of_neg (by simp [(hne c (by simp)).2])
  obtain ⟨r, hread, hr⟩ := readDigits_eq t true ds hds UInt512.zero
  rw [UInt512.toNat_zero] at hr
  refine ⟨r, ?_, hr⟩
  rw [stringToInt]
  simp only [htake, hdrop, hsign, ok_bind, htype, hread]
  rfl

theorem ne_of_toNat_gt {c d : UInt8} (h : d.toNat < c.toNat) : c ≠ d := by
  rintro rfl
  exact lt_irrefl _ h

theorem isSpace_of_ge {c : UInt8} (h : 45 ≤ c.toNat) : c ≠ 0 ∧ isSpace c = false := by
  have h13 : ¬ c ≤ 13 := by
    rw [UInt8.le_iff_toNat_le, show (13 : UInt8).toNat = 13 from rfl]
    omega
  have h0 : (0 : UInt8).toNat < c.toNat := (by decide : 0 < 45).trans_le h
  have h32 : (32 : UInt8).toNat < c.toNat := (by decide : 32 < 45).trans_le h
  exact ⟨ne_of_toNat_gt h0, by simp [isSpace, h13, ne_of_toNat_gt h32]⟩

/-- **The text of a number** is read as that number. -/
theorem stringToInt_numberText {base : ℤ} (hbase : base ∈ bases) {n : ℕ} (hn : n < modulus)
    (accept : Bool) : ∃ r, stringToInt (numberText base n) accept = .ok r ∧ r.toNat = n := by
  have hge := numberText_ge hbase n
  obtain ⟨t, ds, htype, hds, hvalue⟩ := numberType_numberText hbase n
  have hsign : numberSign (numberText base n) (numberText base n) accept =
      .ok (false, numberText base n) := by
    obtain ⟨c, text, hc⟩ := List.exists_cons_of_ne_nil (numberText_ne_nil base n)
    have h48 := hge c (by simp [hc])
    have h43 : c ≠ 43 := ne_of_toNat_gt ((by decide : 43 < 48).trans_le h48)
    have h45 : c ≠ 45 := ne_of_toNat_gt ((by decide : 45 < 48).trans_le h48)
    rw [hc]
    simp [numberSign, h43, h45]
  obtain ⟨r, hread, hr⟩ := stringToInt_plain
    (fun c hc => isSpace_of_ge ((by decide : 45 ≤ 48).trans (hge c hc))) hsign htype hds
  refine ⟨r, hread, ?_⟩
  rw [hr, hvalue, Nat.mod_eq_of_lt hn]

/-- With a minus sign, it is read as its opposite. -/
theorem stringToInt_minus {base : ℤ} (hbase : base ∈ bases) {n : ℕ} (hn : n < modulus) :
    ∃ r, stringToInt (45 :: numberText base n) true = .ok r ∧
      r.toNat = (modulus - n) % modulus := by
  have hge := numberText_ge hbase n
  obtain ⟨t, ds, htype, hds, hvalue⟩ := numberType_numberText hbase n
  have hsign : numberSign (45 :: numberText base n) (45 :: numberText base n) true =
      .ok (true, numberText base n) := by simp [numberSign]
  obtain ⟨r, hread, hr⟩ := stringToInt_plain (fun c hc => isSpace_of_ge (by
    rcases List.mem_cons.1 hc with rfl | hc
    · exact le_rfl
    · exact (by decide : 45 ≤ 48).trans (hge c hc))) hsign htype hds
  refine ⟨r.neg, hread, ?_⟩
  rw [UInt512.toNat_neg, hr, hvalue, Nat.mod_eq_of_lt hn]

/-! ### Unsigned integers -/

theorem byteSizeLoop_le (expected : UInt8) (total : ℕ) (l : Bytes) (h : l.length ≤ total) :
    byteSizeLoop expected total l ≤ total := by
  induction l with
  | nil => exact Nat.zero_le _
  | cons c rest ih =>
    rw [List.length_cons] at h
    rw [byteSizeLoop]
    split
    · split
      · rename_i hcond
        have := hcond.2.2
        omega
      · exact h
    · exact ih (by omega)

theorem valueByteSize_le (value : Bytes) (isSigned : Bool) :
    valueByteSize value isSigned ≤ value.length :=
  byteSizeLoop_le _ _ _ (by rw [List.length_reverse])

/-- Zeros after the value are not counted. -/
theorem valueByteSize_append_zero (value : Bytes) (m : ℕ) :
    valueByteSize (value ++ List.replicate m 0) false ≤ value.length := by
  have hskip : ∀ (m : ℕ) (l : Bytes) (total : ℕ), byteSizeLoop 0 total l ≤ l.length →
      byteSizeLoop 0 total (List.replicate m 0 ++ l) ≤ l.length := by
    intro m l total h
    induction m with
    | zero => exact h
    | succ m ih => exact ih
  have hle : ∀ (l : Bytes) (total : ℕ), byteSizeLoop 0 total l ≤ l.length := by
    intro l total
    induction l with
    | nil => exact le_rfl
    | cons c rest ih =>
      rw [byteSizeLoop]
      split
      · rw [if_neg (by simp), List.length_cons]
      · exact ih.trans (by simp)
  rw [valueByteSize, if_neg (by simp), List.reverse_append, List.reverse_replicate]
  exact (hskip m _ _ (hle _ _)).trans_eq List.length_reverse

/-- The text of an unsigned integer is that of its number. -/
theorem uintegerToString_eq {value : Bytes} {k : ℕ} {base : ℤ} (hbase : base ∈ bases)
    (hsize : valueByteSize value false ≤ k) (hlen : value.length ≤ 64) :
    uintegerToString value k base = .ok (numberText base (ofBytes value)) := by
  rw [uintegerToString, if_neg (by omega), if_neg (by omega), toText_eq_numberText _ hbase,
    UInt512.toNat_ofMemory hlen]

theorem pow_eq (k : ℕ) : 256 ^ k = 2 ^ (8 * k) := by
  rw [show 256 = 2 ^ 8 from rfl, ← Nat.pow_mul]

theorem ofBytes_lt_modulus {value : Bytes} (h : value.length ≤ 64) : ofBytes value < modulus := by
  refine (UInt512.ofBytes_lt value).trans_le ?_
  rw [UInt512.modulus, UInt512.word_eq, ← Nat.pow_mul]
  exact Nat.pow_le_pow_right (by decide) h

/-- **Unsigned integers**, bits, references and identifiers. -/
theorem uinteger_roundTrip {value : Bytes} {base : ℤ} (hbase : base ∈ bases)
    (hlen : value.length ≤ 64) :
    ∃ text, uintegerToString value value.length base = .ok text ∧
      stringToUinteger text (8 * value.length) = .ok value := by
  refine ⟨_, uintegerToString_eq hbase (valueByteSize_le value false) hlen, ?_⟩
  obtain ⟨r, hread, hr⟩ := stringToInt_numberText hbase (ofBytes_lt_modulus hlen) false
  have hsize : r.bitSize ≤ 8 * value.length := by
    rw [UInt512.bitSize_eq, hr, Nat.size_le, ← pow_eq]
    exact UInt512.ofBytes_lt value
  rw [stringToUinteger, hread, ok_bind, if_neg (by omega), Nat.mul_div_cancel_left _ (by decide),
    UInt512.take_memory _ hlen, hr, UInt512.toBytes_ofBytes]

/-! ### Signed integers -/

/-- The bytes that `value_byte_size()` leaves out extend the sign. -/
theorem byteSizeLoop_sign (total : ℕ) (l : Bytes) :
    ∀ c ∈ l.take (l.length - byteSizeLoop 255 total l), c = 255 := by
  induction l with
  | nil => simp
  | cons c rest ih =>
    rw [byteSizeLoop]
    split
    · intro d hd
      split at hd <;> simp [List.length_cons] at hd
    · rename_i hc
      rw [List.length_cons]
      intro d hd
      by_cases hle : byteSizeLoop 255 total rest ≤ rest.length
      · rw [Nat.succ_sub hle, List.take_succ_cons] at hd
        rcases List.mem_cons.1 hd with rfl | hd
        · exact not_not.1 hc
        · exact ih d hd
      · rw [show rest.length + 1 - byteSizeLoop 255 total rest = 0 by omega] at hd
        simp at hd

theorem drop_valueByteSize {value : Bytes} (hneg : 128 ≤ value.getLastD 0) :
    value.drop (valueByteSize value true) =
      List.replicate (value.length - valueByteSize value true) 255 := by
  refine List.eq_replicate_iff.2 ⟨List.length_drop, fun c hc => ?_⟩
  have hloop : valueByteSize value true = byteSizeLoop 255 value.length value.reverse := by
    rw [valueByteSize, if_pos ⟨rfl, hneg⟩]
  have hsign := byteSizeLoop_sign value.length value.reverse c
  rw [List.length_reverse, ← hloop, List.take_reverse, List.mem_reverse] at hsign
  rw [Nat.sub_sub_self (valueByteSize_le value true)] at hsign
  exact hsign hc

theorem ofBytes_replicate (m : ℕ) : ofBytes (List.replicate m 255) + 1 = 256 ^ m := by
  induction m with
  | zero => rfl
  | succ m ih =>
    have hcons : ofBytes (List.replicate (m + 1) 255) = 255 + 256 * ofBytes (List.replicate m 255) :=
      Nat.ofDigits_cons
    rw [hcons, Nat.pow_succ, ← ih]
    omega

/-- A number with zeros above it. -/
theorem toBytes_append_zero {k m : ℕ} (h : m < 256 ^ k) (j : ℕ) :
    toBytes (k + j) m = toBytes k m ++ List.replicate j 0 := by
  have hvalue : ofBytes (toBytes k m ++ List.replicate j 0) = m := by
    rw [UInt512.ofBytes_append, UInt512.ofBytes_replicate_zero, UInt512.ofBytes_toBytes, Nat.mul_zero,
      Nat.add_zero, Nat.mod_eq_of_lt h]
  have hback := UInt512.toBytes_ofBytes (toBytes k m ++ List.replicate j 0)
  rwa [List.length_append, UInt512.length_toBytes, List.length_replicate, hvalue] at hback

theorem modulus_split {k : ℕ} (h : k ≤ 64) : modulus = 256 ^ k * 256 ^ (64 - k) := by
  rw [UInt512.modulus, UInt512.word_eq, ← Nat.pow_mul, ← Nat.pow_add]
  congr 1
  omega

/-- The sign of a value is in its last byte. -/
theorem getLast_sign {value : Bytes} (h : value ≠ []) :
    128 ≤ value.getLastD 0 ↔ 256 ^ value.length ≤ 2 * ofBytes value := by
  obtain ⟨init, last, rfl⟩ := List.eq_nil_or_concat value |>.resolve_left h
  have hinit := UInt512.ofBytes_lt init
  have hlast : ofBytes [last] = last.toNat := by simp [UInt512.ofBytes]
  rw [List.concat_eq_append, UInt512.ofBytes_append, hlast, List.length_append, List.length_singleton,
    Nat.pow_succ, UInt8.le_iff_toNat_le]
  have hD : (init ++ [last]).getLastD 0 = last := by simp
  rw [hD, show (128 : UInt8).toNat = 128 from rfl]
  constructor
  · intro hle
    have := Nat.mul_le_mul_left (256 ^ init.length) hle
    omega
  · intro hle
    by_contra hlt
    have : 256 ^ init.length * last.toNat ≤ 256 ^ init.length * 127 :=
      Nat.mul_le_mul_left _ (by omega)
    omega

/-- The number that `integer_to_string()` writes for a negative value that fits. -/
theorem integerToString_neg {value : Bytes} (hlen : value.length ≤ 64) {k : ℕ} (hk : k ≤ 64)
    (hsize : valueByteSize value true ≤ k) (hfit : 256 ^ value.length - ofBytes value < 256 ^ k)
    {base : ℤ} (hbase : base ∈ bases) (hneg : 128 ≤ value.getLastD 0) (hne : value ≠ []) :
    integerToString value k base =
      .ok (45 :: numberText base (256 ^ value.length - ofBytes value)) := by
  have hle := valueByteSize_le value true
  have hlt := UInt512.ofBytes_lt value
  have hsplit := modulus_split hlen
  have hhalf := (getLast_sign hne).1 hneg
  have hmodulus : 256 ^ value.length ≤ modulus := by
    rw [hsplit]
    exact Nat.le_mul_of_pos_right _ (Nat.pow_pos (by decide))
  -- the words are those of the value, with its sign extended
  have hwords : value.take (valueByteSize value true) ++
      List.replicate (64 - valueByteSize value true) 255 =
        value ++ List.replicate (64 - value.length) 255 := by
    conv_rhs => rw [← List.take_append_drop (valueByteSize value true) value]
    rw [drop_valueByteSize hneg, List.append_assoc, List.replicate_append_replicate]
    congr 2
    have := List.length_take_of_le hle
    rw [List.length_append, this, List.length_replicate]
    omega
  have hlength : (value ++ List.replicate (64 - value.length) 255).length ≤ 64 := by
    rw [List.length_append, List.length_replicate]
    omega
  have hvalue : ofBytes (value ++ List.replicate (64 - value.length) 255) + 256 ^ value.length =
      ofBytes value + modulus := by
    rw [UInt512.ofBytes_append, hsplit, ← ofBytes_replicate (64 - value.length), Nat.mul_add]
    omega
  have hopposite : (⟨UInt512.ofMemory (value ++ List.replicate (64 - value.length) 255)⟩ :
      Int512).neg.words.toNat = 256 ^ value.length - ofBytes value := by
    rw [Int512.toNat_neg, UInt512.toNat_ofMemory hlength, Nat.mod_eq_of_lt (by omega)]
    omega
  rw [integerToString, if_neg hne, if_pos hneg]
  dsimp only
  rw [if_neg (by omega), if_neg (by omega), hwords, UInt512.memory_eq, hopposite]
  have hbytes := toBytes_append_zero hfit (64 - k)
  rw [Nat.add_sub_cancel' hk] at hbytes
  have htext := uintegerToString_eq hbase
    ((valueByteSize_append_zero _ _).trans_eq (UInt512.length_toBytes _ _))
    (by rw [← hbytes, UInt512.length_toBytes]) (k := k)
  rw [← hbytes, UInt512.ofBytes_toBytes, Nat.mod_eq_of_lt] at htext
  · rw [htext, ok_bind]
  · exact hfit.trans_le (Nat.pow_le_pow_right (by decide) hk)

/-- The largest negative magnitude of a width is recognised. -/
theorem isMinimum_eq {n : Int512} {k : ℕ} (hk : k ∈ [1, 2, 4, 8, 16, 32])
    (hn : n.words.toNat + 2 ^ (8 * k - 1) = modulus) : isMinimum n (8 * k) = .ok true := by
  have hlimbs : n.words.limbs = Limbs.digits (2 ^ 64) 8 (modulus - 2 ^ (8 * k - 1)) := by
    rw [← hn, Nat.add_sub_cancel]
    exact (Limbs.digits_ofDigits (by decide) n.words.fits).symm
  rw [isMinimum]
  dsimp only
  rw [hlimbs]
  simp only [List.mem_cons, List.not_mem_nil, or_false] at hk
  rcases hk with rfl | rfl | rfl | rfl | rfl | rfl <;> rfl

/-- **Signed integers**. -/
theorem integer_roundTrip {value : Bytes} {base : ℤ} (hbase : base ∈ bases)
    (hlen : value.length ∈ [1, 2, 4, 8, 16, 32, 64]) :
    ∃ text, integerToString value value.length base = .ok text ∧
      stringToInteger text (8 * value.length) = .ok value := by
  have hk : 1 ≤ value.length ∧ value.length ≤ 64 := by
    simp only [List.mem_cons, List.not_mem_nil, or_false] at hlen
    omega
  have hne : value ≠ [] := by
    rintro rfl
    simp at hk
  have hlt := UInt512.ofBytes_lt value
  have hsplit := modulus_split hk.2
  have hmodulus : 256 ^ value.length ≤ modulus := by
    rw [hsplit]
    exact Nat.le_mul_of_pos_right _ (Nat.pow_pos (by decide))
  have hpow : 256 ^ value.length = 2 * 2 ^ (8 * value.length - 1) := by
    rw [pow_eq, ← Nat.pow_succ']
    congr 1
    omega
  have hdiv : 8 * value.length / 8 = value.length := Nat.mul_div_cancel_left _ (by decide)
  by_cases hneg : 128 ≤ value.getLastD 0
  · have hhalf := (getLast_sign hne).1 hneg
    refine ⟨_, integerToString_neg hk.2 hk.2 (valueByteSize_le value true) (by omega) hbase hneg hne,
      ?_⟩
    obtain ⟨r, hread, hr⟩ := stringToInt_minus hbase
      (n := 256 ^ value.length - ofBytes value) (by omega)
    rw [Nat.mod_eq_of_lt (by omega)] at hr
    have hsign : (⟨r⟩ : Int512).isNegative = true := by
      rw [Int512.isNegative_iff]
      dsimp only
      omega
    have hbits : (⟨r⟩ : Int512).bitSize = (256 ^ value.length - ofBytes value).size := by
      rw [Int512.bitSize_eq, if_pos hsign]
      dsimp only
      rw [hr]
      congr 1
      omega
    -- the low bytes of the opposite are the value
    have hbytes : r.memory.take value.length = value := by
      have hmod : r.toNat % 256 ^ value.length = ofBytes value := by
        have hrest : r.toNat =
            ofBytes value + 256 ^ value.length * (256 ^ (64 - value.length) - 1) := by
          rw [Nat.mul_sub, ← hsplit, Nat.mul_one]
          omega
        rw [hrest, Nat.add_mul_mod_self_left, Nat.mod_eq_of_lt hlt]
      rw [UInt512.take_memory _ hk.2, ← UInt512.toBytes_mod, hmod, UInt512.toBytes_ofBytes]
    rw [stringToInteger, hread, ok_bind]
    dsimp only
    rw [hbits, hdiv, hbytes]
    split
    · rename_i hbig
      -- only the minimum needs all its bits
      have hge : 2 ^ (8 * value.length - 1) ≤ 256 ^ value.length - ofBytes value :=
        Nat.lt_size.1 hbig.2
      have hmin : 256 ^ value.length - ofBytes value = 2 ^ (8 * value.length - 1) := by omega
      have hmem : value.length ∈ [1, 2, 4, 8, 16, 32] := by
        simp only [List.mem_cons, List.not_mem_nil, or_false] at hlen ⊢
        omega
      have hcheck := isMinimum_eq (n := ⟨r⟩) hmem (by dsimp only; omega)
      rw [hmin, Nat.size_pow, if_pos (by omega), hcheck]
      rfl
    · rfl
  · have hhalf := mt (getLast_sign hne).2 hneg
    refine ⟨numberText base (ofBytes value), ?_, ?_⟩
    · rw [integerToString, if_neg hne, if_neg hneg]
      exact uintegerToString_eq hbase (valueByteSize_le value false) hk.2
    obtain ⟨r, hread, hr⟩ := stringToInt_numberText hbase (ofBytes_lt_modulus hk.2) true
    have hsign : (⟨r⟩ : Int512).isNegative ≠ true := by
      rw [Ne, Int512.isNegative_iff]
      dsimp only
      omega
    have hbits : (⟨r⟩ : Int512).bitSize ≤ 8 * value.length - 1 := by
      rw [Int512.bitSize_eq, if_neg hsign, Nat.size_le]
      dsimp only
      omega
    rw [stringToInteger, hread, ok_bind]
    dsimp only
    rw [if_neg (by omega), hdiv, UInt512.take_memory _ hk.2, hr, UInt512.toBytes_ofBytes]

/-! ### Versions -/

theorem decimalText_eq (n : ℕ) : decimalText n = numberText 10 n := by
  rw [decimalText, numberText]
  split
  · rfl
  · show (Nat.digits 10 n).reverse.map (digitChar false) =
      (Nat.digits 10 n).reverse.map (digitChar true)
    refine List.map_congr_left fun d hd => ?_
    have hlt : d < 10 := Nat.digits_lt_base (by decide) (List.mem_reverse.1 hd)
    rw [digitChar, digitChar, if_neg (by omega), if_neg (by omega)]

theorem decimalText_digits {n : ℕ} {c : UInt8} (hc : c ∈ decimalText n) :
    48 ≤ c.toNat ∧ c.toNat ≤ 57 := by
  rw [decimalText] at hc
  split at hc
  · obtain rfl := List.mem_singleton.1 hc
    decide
  · obtain ⟨d, hd, rfl⟩ := List.mem_map.1 hc
    have hlt : d < 10 := Nat.digits_lt_base (by decide) (List.mem_reverse.1 hd)
    have hall : ∀ d < 10, 48 ≤ (digitChar false d).toNat ∧ (digitChar false d).toNat ≤ 57 := by
      decide
    exact hall d hlt

theorem idxOf?_append {l r : Bytes} (h : 46 ∉ l) : (l ++ 46 :: r).idxOf? 46 = some l.length := by
  induction l with
  | nil => simp [List.idxOf?_cons]
  | cons c l ih =>
    have hc : c ≠ 46 := fun heq => h (by simp [heq])
    rw [List.cons_append, List.idxOf?_cons, if_neg (by simpa using hc),
      ih fun hl => h (List.mem_cons_of_mem _ hl)]
    rfl

/-- **Versions**. -/
theorem version_roundTrip {value : Bytes} (hlen : value.length = 4) :
    ∃ text, versionToString value = .ok text ∧ stringToVersion text = .ok value := by
  have hlt := UInt512.ofBytes_lt value
  rw [hlen] at hlt
  refine ⟨_, by rw [versionToString, if_neg (not_not.2 hlen)], ?_⟩
  set major := ofBytes value / 2 ^ 16 with hmajor
  set minor := ofBytes value % 2 ^ 16 with hminor
  have hperiod : (46 : UInt8) ∉ decimalText major := fun hin =>
    absurd (decimalText_digits hin).1 (by decide)
  -- no space and no v before the first digit
  obtain ⟨c, text, hc⟩ := List.exists_cons_of_ne_nil
    (decimalText_eq major ▸ numberText_ne_nil 10 major)
  have hdigit := decimalText_digits (by simp [hc] : c ∈ decimalText major)
  have hspace := (isSpace_of_ge (by omega : 45 ≤ c.toNat)).2
  have hv : c ≠ 118 ∧ c ≠ 86 := by
    constructor
    · rintro rfl
      exact absurd hdigit.2 (by decide)
    · rintro rfl
      exact absurd hdigit.2 (by decide)
  have hskip : ((decimalText major ++ 46 :: decimalText minor).takeWhile isSpace).length = 0 := by
    rw [hc, List.cons_append, List.takeWhile_cons_of_neg (by simp [hspace])]
    rfl
  have hletter : (decimalText major ++ 46 :: decimalText minor).getD 0 0 = c := by
    rw [hc]
    rfl
  have hbase : (10 : ℤ) ∈ bases := by decide
  have hfits : ∀ n : ℕ, n < 2 ^ 16 → n < modulus := fun n hn =>
    hn.trans_le (by rw [UInt512.modulus_eq]; exact Nat.pow_le_pow_right (by decide) (by decide))
  have hread : ∀ n : ℕ, n < 2 ^ 16 → ∃ r, stringToInt (decimalText n) false = .ok r ∧
      r.bitSize ≤ 16 ∧ r.low = n := by
    intro n hn
    obtain ⟨r, hread, hr⟩ := stringToInt_numberText hbase (hfits n hn) false
    refine ⟨r, by rw [decimalText_eq, hread], ?_, ?_⟩
    · rw [UInt512.bitSize_eq, hr, Nat.size_le]
      exact hn
    · rw [UInt512.low_eq, hr]
      omega
  obtain ⟨a, ha, hasize, halow⟩ := hread major (by omega)
  obtain ⟨b, hb, hbsize, hblow⟩ := hread minor (by omega)
  rw [stringToVersion, idxOf?_append hperiod]
  simp only [hskip, hletter, hv.1, hv.2, or_self, if_false, List.drop_zero,
    sub64_of_le (Nat.zero_le _), Nat.sub_zero, List.take_left]
  rw [ha, ok_bind, ← List.drop_drop, List.drop_left, List.drop_one, List.tail_cons, hb, ok_bind,
    if_neg (by omega), halow, hblow, show major * 2 ^ 16 + minor = ofBytes value by omega, ← hlen,
    UInt512.toBytes_ofBytes]

/-! ### Strings and buffers -/

/-- **`CHAR`**: the text ends at the zeros. -/
theorem char_roundTrip {text : Bytes} {n : ℕ} (h : 0 ∉ text) (hpos : 0 < text.length + n) :
    bufferToChar (text ++ List.replicate n 0) (text.length + n) = .ok text ∧
      charToBuffer text (text.length + n) = .ok (text ++ List.replicate n 0) := by
  constructor
  · rw [bufferToChar, if_neg (by simp), List.take_of_length_le (by simp)]
    congr 1
    have hne : ∀ c ∈ text, decide (c ≠ 0) = true := by
      intro c hc
      rw [decide_eq_true_eq]
      rintro rfl
      exact h hc
    rw [List.takeWhile_append_of_pos hne]
    cases n with
    | zero => simp
    | succ n => simp [List.replicate_succ]
  · rw [charToBuffer, if_neg (by omega), if_neg (by omega), Nat.add_sub_cancel_left]

/-- A size on `k` bytes, and as many bytes. -/
def HasSize (k : ℕ) (value : Bytes) : Prop :=
  ∃ content : Bytes, content.length < 256 ^ k ∧ value = toBytes k content.length ++ content

/-- The parts of such a value. -/
theorem HasSize.parts {k : ℕ} {content : Bytes} (h : content.length < 256 ^ k) :
    (toBytes k content.length ++ content).length = k + content.length ∧
      ofBytes ((toBytes k content.length ++ content).take k) = content.length ∧
      (toBytes k content.length ++ content).drop k = content := by
  have hlen := UInt512.length_toBytes k content.length
  refine ⟨by rw [List.length_append, hlen], ?_, ?_⟩
  · rw [List.take_left' hlen, UInt512.ofBytes_toBytes, Nat.mod_eq_of_lt h]
  · rw [List.drop_left' hlen]

/-- **P-strings**. -/
theorem string_roundTrip {k : ℕ} (hk : k ≤ 4) {value : Bytes} (h : HasSize k value) :
    ∃ text, bufferToString value k = .ok text ∧ stringToBuffer text k = .ok value := by
  obtain ⟨content, hlt, rfl⟩ := h
  obtain ⟨hlen, hsize, hdrop⟩ := HasSize.parts hlt
  have hpow : 256 ^ k ≤ 2 ^ 32 := by
    rw [pow_eq]
    exact Nat.pow_le_pow_right (by decide) (by omega)
  refine ⟨content, ?_, ?_⟩
  · rw [bufferToString, if_neg (by omega)]
    dsimp only
    rw [hsize, if_neg (by omega), hdrop, List.take_length]
  · rw [stringToBuffer, Nat.mod_eq_of_lt (by omega), if_neg]
    rw [Nat.mul_comm, ← pow_eq]
    omega

/-- **Buffers**, written in hexadecimal. -/
theorem pbuffer_roundTrip {lib : Conversions}
    (hhex : ∀ bin, lib.hexToBin (lib.binToHex bin) = .ok bin) {k : ℕ} {value : Bytes}
    (h : HasSize k value) :
    ∃ text, pbufferToString lib value k = .ok text ∧ stringToPbuffer lib text k = .ok value := by
  obtain ⟨content, hlt, rfl⟩ := h
  obtain ⟨hlen, hsize, hdrop⟩ := HasSize.parts hlt
  refine ⟨lib.binToHex content, ?_, ?_⟩
  · rw [pbufferToString, if_neg (by omega)]
    dsimp only
    rw [hsize, if_neg (by omega), hdrop, List.take_length]
  · rw [stringToPbuffer, hhex, ok_bind, if_neg]
    rw [Nat.mul_comm, ← pow_eq]
    omega

/-! ### Every type -/

/-- The buffers that are a value of a type; a `CHAR` field has a size, and zeros after its
text. -/
def ValidBuffer (type : StructType) (value : Bytes) (size : ℕ) : Prop :=
  match type with
  | .bits8 | .uint8 | .int8 => value.length = 1
  | .bits16 | .uint16 | .int16 => value.length = 2
  | .bits32 | .uint32 | .int32 | .structureVersion | .version => value.length = 4
  | .bits64 | .uint64 | .int64 | .oid | .reference => value.length = 8
  | .bits128 | .uint128 | .int128 => value.length = 16
  | .bits256 | .uint256 | .int256 => value.length = 32
  | .bits512 | .uint512 | .int512 => value.length = 64
  | .char => 0 < size ∧ value.length = size ∧
    ∃ (text : Bytes) (n : ℕ), 0 ∉ text ∧ value = text ++ List.replicate n 0
  | .p8string | .buffer8 => HasSize 1 value
  | .p16string | .buffer16 => HasSize 2 value
  | .p32string | .buffer32 => HasSize 4 value
  | _ => False

/-- The last parameter of `typed_buffer_to_string()`: one of the bases for an integer, the size
of the field for a `CHAR`. -/
def BaseFor (type : StructType) (size : ℕ) (baseOrSize : ℤ) : Prop :=
  match type with
  | .char => baseOrSize = size ∧ size < 2 ^ 31
  | .structureVersion | .version | .p8string | .p16string | .p32string | .buffer8 | .buffer16
  | .buffer32 => True
  | _ => baseOrSize ∈ bases

/-- **The round trip**: the text of a valid buffer is read back as that buffer, for every type
and every base. -/
theorem typedBuffer_roundTrip {lib : Conversions}
    (hhex : ∀ bin, lib.hexToBin (lib.binToHex bin) = .ok bin) {type : StructType} {value : Bytes}
    {size : ℕ} {baseOrSize : ℤ} (hvalid : ValidBuffer type value size)
    (hbase : BaseFor type size baseOrSize) :
    ∃ text, typedBufferToString lib type value baseOrSize = .ok text ∧
      stringToTypedBuffer lib type text size = .ok value := by
  have huinteger : ∀ k ≤ 64, value.length = k → baseOrSize ∈ bases →
      ∃ text, uintegerToString value k baseOrSize = .ok text ∧
        stringToUinteger text (8 * k) = .ok value := by
    rintro k hk rfl hbase
    exact uinteger_roundTrip hbase hk
  have hinteger : ∀ k ∈ [1, 2, 4, 8, 16, 32, 64], value.length = k → baseOrSize ∈ bases →
      ∃ text, integerToString value k baseOrSize = .ok text ∧
        stringToInteger text (8 * k) = .ok value := by
    rintro k hk rfl hbase
    exact integer_roundTrip hbase hk
  cases type
  case bits8 | uint8 => exact huinteger 1 (by decide) hvalid hbase
  case bits16 | uint16 => exact huinteger 2 (by decide) hvalid hbase
  case bits32 | uint32 => exact huinteger 4 (by decide) hvalid hbase
  case bits64 | uint64 | oid | reference => exact huinteger 8 (by decide) hvalid hbase
  case bits128 | uint128 => exact huinteger 16 (by decide) hvalid hbase
  case bits256 | uint256 => exact huinteger 32 (by decide) hvalid hbase
  case bits512 | uint512 => exact huinteger 64 (by decide) hvalid hbase
  case int8 => exact hinteger 1 (by decide) hvalid hbase
  case int16 => exact hinteger 2 (by decide) hvalid hbase
  case int32 => exact hinteger 4 (by decide) hvalid hbase
  case int64 => exact hinteger 8 (by decide) hvalid hbase
  case int128 => exact hinteger 16 (by decide) hvalid hbase
  case int256 => exact hinteger 32 (by decide) hvalid hbase
  case int512 => exact hinteger 64 (by decide) hvalid hbase
  case structureVersion | version => exact version_roundTrip hvalid
  case char =>
    obtain ⟨hpos, hlen, text, n, hzero, rfl⟩ := hvalid
    obtain ⟨rfl, hsize⟩ := hbase
    rw [List.length_append, List.length_replicate] at hlen
    subst hlen
    obtain ⟨htext, hbuffer⟩ := char_roundTrip hzero hpos
    have hmod : (((text.length + n : ℕ) : ℤ) % 2 ^ 64).toNat = text.length + n := by omega
    refine ⟨text, ?_, hbuffer⟩
    rw [typedBufferToString, hmod]
    exact htext
  case p8string => exact string_roundTrip (by decide) hvalid
  case p16string => exact string_roundTrip (by decide) hvalid
  case p32string => exact string_roundTrip (by decide) hvalid
  case buffer8 => exact pbuffer_roundTrip hhex hvalid
  case buffer16 => exact pbuffer_roundTrip hhex hvalid
  case buffer32 => exact pbuffer_roundTrip hhex hvalid
  all_goals exact hvalid.elim

/-- Two hexadecimal digits for each byte, and back. -/
def hexDigit (d : ℕ) : UInt8 := digitChar false d

def readHex : Bytes → Except Failure Bytes
  | [] => .ok []
  | [_] => .error (.thrown .invalidParameter "the hex parameter must have an even size.")
  | c :: d :: rest =>
    match digitOf .hexadecimal c, digitOf .hexadecimal d with
    | some h, some l => do .ok (UInt8.ofNat (h * 16 + l) :: (← readHex rest))
    | _, _ => .error (.thrown .invalidParameter "the hex parameter must be hexadecimal digits.")

/-- A library that only converts hexadecimal. -/
def hexConversions : Conversions where
  hexToBin := readHex
  binToHex bin := bin.flatMap fun b => [hexDigit (b.toNat / 16), hexDigit (b.toNat % 16)]
  stringToOther type _ := .error (unexpectedType type)
  otherToString type _ := .error (unexpectedType type)

theorem hexToBin_binToHex (bin : Bytes) :
    hexConversions.hexToBin (hexConversions.binToHex bin) = .ok bin := by
  induction bin with
  | nil => rfl
  | cons b bin ih =>
    have hb := b.toNat_lt
    have hread : readHex (hexDigit (b.toNat / 16) :: hexDigit (b.toNat % 16) ::
        hexConversions.binToHex bin) = .ok (b :: bin) := by
      rw [readHex, hexDigit, hexDigit,
        digitOf_digitChar .hexadecimal (show b.toNat / 16 < 16 by omega),
        digitOf_digitChar .hexadecimal (show b.toNat % 16 < 16 by omega)]
      dsimp only
      rw [show readHex (hexConversions.binToHex bin) = .ok bin from ih, ok_bind,
        Nat.div_add_mod', UInt8.ofNat_toNat]
    exact hread

/-- The minimum of 16 bits, in hexadecimal. -/
theorem typedBuffer_roundTrip_min :
    ∃ text, typedBufferToString hexConversions .int16 [0, 128] 16 = .ok text ∧
      stringToTypedBuffer hexConversions .int16 text 2 = .ok [0, 128] :=
  typedBuffer_roundTrip hexToBin_binToHex (rfl : ValidBuffer .int16 [0, 128] 2)
    (by decide : (16 : ℤ) ∈ bases)

/-! ### Text that a field has no room for -/

/-- A `CHAR` of `size` bytes is the text with zeros behind it, unless the conversion throws. -/
def FillsChar (converted : Except Failure Bytes) (value : Bytes) (size : ℕ) : Prop :=
  ThrowsOr (fun data => data.length = size ∧ ∃ n, data = value ++ List.replicate n 0) converted

theorem fillsChar_of_le {value : Bytes} {size : ℕ} (h : value.length ≤ size) :
    FillsChar (charToBuffer value size) value size := by
  unfold charToBuffer
  split
  · exact .thrown _ _
  · rw [if_neg (Nat.not_lt.2 h)]
    refine .ok ⟨?_, size - value.length, rfl⟩
    rw [List.length_append, List.length_replicate]
    omega

/-- **A `CHAR` is filled exactly when the size is refused or has room for the text.** -/
theorem fillsChar_iff (lib : Conversions) (value : Bytes) (size : ℕ) :
    FillsChar (stringToTypedBuffer lib .char value size) value size ↔
      size = 0 ∨ value.length ≤ size := by
  simp only [stringToTypedBuffer]
  constructor
  · intro h
    by_contra hlong
    have hlong := not_or.1 hlong
    -- the copy goes on behind the end of the buffer
    have hcopy : charToBuffer value size = .error .undefinedBehavior := by
      rw [charToBuffer, if_neg hlong.1, if_pos (Nat.not_le.1 hlong.2)]
    rw [hcopy] at h
    rcases h with h | ⟨data, h, -⟩
    · exact not_throws_undefinedBehavior h
    · cases h
  · rintro (rfl | hle)
    · exact .thrown _ _
    · exact fillsChar_of_le hle

/-- Three characters for a field of two. -/
theorem fillsChar_overflow :
    stringToTypedBuffer hexConversions .char [97, 98, 99] 2 = .error .undefinedBehavior ∧
    ¬ FillsChar (stringToTypedBuffer hexConversions .char [97, 98, 99] 2) [97, 98, 99] 2 := by
  have hcopy : stringToTypedBuffer hexConversions .char [97, 98, 99] 2 =
      .error .undefinedBehavior := rfl
  refine ⟨hcopy, ?_⟩
  rw [hcopy]
  rintro (h | ⟨data, h, -⟩)
  · exact not_throws_undefinedBehavior h
  · cases h

end Prinbee
