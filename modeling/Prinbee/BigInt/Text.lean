import Prinbee.BigInt.Int512
import Prinbee.BigInt.UInt512Arithmetic

/-!
# Text and big integers

`from_string()` of `uint512_t` and of `int512_t`, next to `to_string()`.  The reader knows the
introducers `0b`, `0o` and `0x`, and takes anything else as decimal digits; and once it has read
the digits after `0o`, it goes on to read the whole text as decimal digits.  The writer puts a
lone `0` before octal digits, so that they are read as decimal ones.

## Main definitions

* `HexDigits` — the functions of another library on hexadecimal digits.
* `UInt512.fromText`, `Int512.fromText` — `from_string()`.
* `Int512.toText` — `to_string()`.
* `readAsDecimal` — the number that is read in the place of one in octal.

## Main results

* `UInt512.fromText_toText`, `Int512.fromText_toText` — what is read from what was written.
* `UInt512.textReadsBack_iff`, `Int512.textReadsBack_iff` — when that is the same number.
-/

namespace Prinbee

open Nat (ofDigits)
open UInt512 (modulus digitChar digitsText introducerOf bases)

/-- The functions on hexadecimal digits that the reader uses. -/
structure HexDigits where
  isHexdigit : UInt8 → Bool
  hexdigitToNumber : UInt8 → ℕ
  isHexdigit_digitChar :
    ∀ uppercase : Bool, ∀ d < 16, isHexdigit (digitChar uppercase d) = true
  hexdigitToNumber_digitChar :
    ∀ uppercase : Bool, ∀ d < 16, hexdigitToNumber (digitChar uppercase d) = d

/-- A `char` as an `int`. -/
def charInt (c : UInt8) : ℤ := if c < 128 then c.toNat else (c.toNat : ℤ) - 256

/-- What the reader throws on a character that is not a digit. -/
def unexpectedDigit (expected : String) (c : UInt8) : Failure :=
  .thrown .unexpectedToken
    ("expected " ++ expected ++ " digit, found character " ++ toString (charInt c) ++ " instead.")

/-- A digit of a base up to ten. -/
def digitBelow (base : ℕ) (c : UInt8) : Option ℕ :=
  if 48 ≤ c.toNat ∧ c.toNat < 48 + base then some (c.toNat - 48) else none

/-- A hexadecimal digit. -/
def HexDigits.digit (lib : HexDigits) (c : UInt8) : Option ℕ :=
  if lib.isHexdigit c then some (lib.hexdigitToNumber c) else none

theorem HexDigits.digit_digitChar (lib : HexDigits) (uppercase : Bool) (d : ℕ) (hd : d < 16) :
    lib.digit (digitChar uppercase d) = some d := by
  rw [HexDigits.digit, lib.isHexdigit_digitChar uppercase d hd, if_pos rfl,
    lib.hexdigitToNumber_digitChar uppercase d hd]

namespace UInt512

/-- A loop of `from_string()`: the digits that there are, how the number makes room for one, and
what is expected. -/
def readLoop (digit : UInt8 → Option ℕ) (next : UInt512 → UInt512) (expected : String) :
    UInt512 → List UInt8 → Except Failure UInt512
  | v, [] => .ok v
  | v, c :: s =>
    match digit c with
    | some d => readLoop digit next expected ((next v).add (ofUInt64 d)) s
    | none => .error (unexpectedDigit expected c)

/-- The loop on decimal digits. -/
def readDecimal : UInt512 → List UInt8 → Except Failure UInt512 :=
  readLoop (digitBelow 10) (·.mul (ofUInt64 10)) "a decimal"

/-- `from_string()`. -/
def fromText (lib : HexDigits) (s : List UInt8) : Except Failure UInt512 :=
  if s.headD 0 = 48 ∧ 3 ≤ s.length then
    if s.getD 1 0 = 98 ∨ s.getD 1 0 = 66 then
      readLoop (digitBelow 2) (·.lsl 1) "a hexadecimal" zero (s.drop 2)
    else if s.getD 1 0 = 111 ∨ s.getD 1 0 = 79 then do
      -- this loop is not followed by a `return`
      let v ← readLoop (digitBelow 8) (·.lsl 3) "an octal" zero (s.drop 2)
      readDecimal v s
    else if s.getD 1 0 = 120 ∨ s.getD 1 0 = 88 then
      readLoop lib.digit (·.lsl 4) "a hexadecimal" zero (s.drop 2)
    else readDecimal zero s
  else readDecimal zero s

/-! ### What is read -/

theorem toNat_digitChar {d : ℕ} (uppercase : Bool) (h : d < 10) :
    (digitChar uppercase d).toNat = d + 48 := by
  rw [digitChar, if_neg (by omega)]
  exact UInt8.toNat_ofNat_of_lt' (show d + 48 < 256 by omega)

theorem digitBelow_digitChar {base d : ℕ} (uppercase : Bool) (hbase : base ≤ 10) (hd : d < base) :
    digitBelow base (digitChar uppercase d) = some d := by
  rw [digitBelow, toNat_digitChar uppercase (by omega), if_pos (by omega), Nat.add_sub_cancel]

/-- A loop reads digits in the base by which it makes room, whatever the base they are of. -/
theorem readLoop_eq {digit : UInt8 → Option ℕ} {next : UInt512 → UInt512} {base : ℕ}
    (hnext : ∀ v, (next v).toNat = base * v.toNat % modulus) (expected : String) {text : ℕ → UInt8}
    {ds : List ℕ} (hds : ∀ d ∈ ds, digit (text d) = some d ∧ d < 2 ^ 64) (v : UInt512) :
    ∃ w, readLoop digit next expected v (ds.map text) = .ok w ∧
      w.toNat = ds.foldl (fun n d => base * n + d) v.toNat % modulus := by
  induction ds generalizing v with
  | nil => exact ⟨v, rfl, (Nat.mod_eq_of_lt v.toNat_lt).symm⟩
  | cons d ds ih =>
    obtain ⟨hdigit, hlt⟩ := hds d (by simp)
    obtain ⟨w, hread, hw⟩ := ih (fun e he => hds e (by simp [he])) ((next v).add (ofUInt64 d))
    refine ⟨w, ?_, ?_⟩
    · rw [List.map_cons, readLoop, hdigit]
      exact hread
    · rw [hw, toNat_add, hnext, toNat_ofUInt64 hlt, Nat.mod_add_mod, List.foldl_cons,
        Limbs.foldl_mod]

/-- What is read from the digits of a number, when the loop makes room for digits of `base`. -/
theorem readLoop_digits {digit : UInt8 → Option ℕ} {next : UInt512 → UInt512} {base b : ℕ}
    (hnext : ∀ v, (next v).toNat = base * v.toNat % modulus) (expected : String) (uppercase : Bool)
    (hb : 1 < b) (hb' : b ≤ 16) (hdigit : ∀ d < b, digit (digitChar uppercase d) = some d) (n : ℕ) :
    ∃ w, readLoop digit next expected zero (digitsText b uppercase n) = .ok w ∧
      w.toNat = ofDigits base (Nat.digits b n) % modulus := by
  have hds : ∀ d ∈ (Nat.digits b n).reverse, digit (digitChar uppercase d) = some d ∧ d < 2 ^ 64 := by
    intro d hd
    have hlt := Nat.digits_lt_base hb (List.mem_reverse.1 hd)
    exact ⟨hdigit d hlt, by omega⟩
  obtain ⟨w, hread, hw⟩ := readLoop_eq hnext expected hds zero
  refine ⟨w, hread, ?_⟩
  rw [hw, toNat_zero, Limbs.foldl_reverse]

/-- Decimal digits are not taken for an introducer. -/
theorem fromText_of_digits (lib : HexDigits) {s : List UInt8}
    (hs : ∀ c ∈ s, 48 ≤ c.toNat ∧ c.toNat < 58) : fromText lib s = readDecimal zero s := by
  have hsecond : (s.getD 1 0).toNat < 58 := by
    rcases lt_or_ge 1 s.length with h | h
    · rw [List.getD_eq_getElem _ _ h]
      exact (hs _ (List.getElem_mem h)).2
    · rw [List.getD_eq_default _ _ h]
      decide
  have hne : ∀ c : UInt8, 58 ≤ c.toNat → s.getD 1 0 ≠ c := by
    rintro c hc rfl
    omega
  rw [fromText, if_neg (not_or.2 ⟨hne 98 (by decide), hne 66 (by decide)⟩),
    if_neg (not_or.2 ⟨hne 111 (by decide), hne 79 (by decide)⟩),
    if_neg (not_or.2 ⟨hne 120 (by decide), hne 88 (by decide)⟩), ite_self]

theorem digitChar_lt {d : ℕ} (uppercase : Bool) (h : d < 10) :
    48 ≤ (digitChar uppercase d).toNat ∧ (digitChar uppercase d).toNat < 58 := by
  rw [toNat_digitChar uppercase h]
  omega

theorem digitsText_lt {b n : ℕ} (uppercase : Bool) (hb : 1 < b) (hle : b ≤ 10) :
    ∀ c ∈ digitsText b uppercase n, 48 ≤ c.toNat ∧ c.toNat < 58 := by
  intro c hc
  obtain ⟨d, hd, rfl⟩ := List.mem_map.1 hc
  exact digitChar_lt uppercase ((Nat.digits_lt_base hb (List.mem_reverse.1 hd)).trans_le hle)

theorem digitsText_ne_nil {b n : ℕ} (uppercase : Bool) (hn : n ≠ 0) :
    digitsText b uppercase n ≠ [] := by
  intro h
  exact hn (Nat.digits_eq_nil_iff_eq_zero.1 (List.reverse_eq_nil_iff.1 (List.map_eq_nil_iff.1 h)))

theorem toNat_lsl_base (k : ℕ) (v : UInt512) : (v.lsl k).toNat = 2 ^ k * v.toNat % modulus := by
  rw [toNat_lsl, Nat.mul_comm]

theorem toNat_mul_ten (v : UInt512) : (v.mul (ofUInt64 10)).toNat = 10 * v.toNat % modulus := by
  rw [toNat_mul, toNat_ofUInt64 (by decide), Nat.mul_comm]

/-- Digits of a base up to ten, read as decimal ones. -/
theorem readDecimal_digits (uppercase : Bool) {b : ℕ} (hb : 1 < b) (hle : b ≤ 10) (n : ℕ) :
    ∃ w, readDecimal zero (digitsText b uppercase n) = .ok w ∧
      w.toNat = ofDigits 10 (Nat.digits b n) % modulus :=
  readLoop_digits toNat_mul_ten _ uppercase hb (by omega)
    (fun _ hd => digitBelow_digitChar uppercase le_rfl (hd.trans_le hle)) n

/-- The number that decimal digits give in the place of the octal digits that they are. -/
def readAsDecimal (n : ℕ) : ℕ := ofDigits 10 (Nat.digits 8 n)

theorem readAsDecimal_eq (n : ℕ) (hn : n ≠ 0) :
    readAsDecimal n = n % 8 + 10 * readAsDecimal (n / 8) := by
  rw [readAsDecimal, Nat.digits_def' (by decide) (Nat.pos_of_ne_zero hn), Nat.ofDigits_cons]
  rfl

theorem le_readAsDecimal (n : ℕ) : n ≤ readAsDecimal n := by
  induction n using Nat.strong_induction_on with
  | _ n ih =>
    by_cases hn : n = 0
    · rw [hn]
      exact Nat.zero_le _
    · have hle := ih (n / 8) (by omega)
      rw [readAsDecimal_eq n hn]
      omega

/-- Without the modulus, octal digits read as decimal ones are a greater number, but for a single
digit. -/
theorem readAsDecimal_eq_self_iff (n : ℕ) : readAsDecimal n = n ↔ n < 8 := by
  by_cases hn : n = 0
  · rw [hn]
    exact iff_of_true rfl (by decide)
  have hle := le_readAsDecimal (n / 8)
  rw [readAsDecimal_eq n hn]
  constructor
  · omega
  · intro hlt
    rw [Nat.div_eq_of_lt hlt, Nat.mod_eq_of_lt hlt]
    rfl

/-- A zero before decimal digits does not count. -/
theorem readDecimal_zero (s : List UInt8) : readDecimal zero (48 :: s) = readDecimal zero s := by
  have hzero : (zero.mul (ofUInt64 10)).add (ofUInt64 0) = zero := by
    apply toNat_inj
    rw [toNat_add, toNat_mul_ten, toNat_zero, toNat_ofUInt64 (by decide)]
    rfl
  rw [readDecimal, readLoop, digitBelow, if_pos (by decide)]
  exact congrArg (readLoop _ _ _ · s) hzero

/-- A binary introducer. -/
theorem fromText_binary (lib : HexDigits) (uppercase : Bool) {s : List UInt8} (hs : s ≠ []) :
    fromText lib (introducerOf 2 uppercase ++ s)
      = readLoop (digitBelow 2) (·.lsl 1) "a hexadecimal" zero s := by
  have hlen := List.length_pos_iff.2 hs
  cases uppercase with
  | false => exact if_pos ⟨rfl, Nat.add_le_add_right hlen 2⟩
  | true => exact if_pos ⟨rfl, Nat.add_le_add_right hlen 2⟩

/-- A hexadecimal introducer. -/
theorem fromText_hexadecimal (lib : HexDigits) (uppercase : Bool) {s : List UInt8} (hs : s ≠ []) :
    fromText lib (introducerOf 16 uppercase ++ s)
      = readLoop lib.digit (·.lsl 4) "a hexadecimal" zero s := by
  have hlen := List.length_pos_iff.2 hs
  cases uppercase with
  | false => exact if_pos ⟨rfl, Nat.add_le_add_right hlen 2⟩
  | true => exact if_pos ⟨rfl, Nat.add_le_add_right hlen 2⟩

/-- **What is read** from the text of a number. -/
theorem fromText_toText (lib : HexDigits) (v : UInt512) {base : ℤ} (hbase : base ∈ bases)
    (uppercase : Bool) :
    ∃ s w, v.toText base true uppercase = .ok s ∧ fromText lib s = .ok w ∧
      w.toNat = if base = 8 then readAsDecimal v.toNat % modulus else v.toNat := by
  by_cases hv : v.toNat = 0
  · refine ⟨_, zero, toText_zero base hv, ?_, ?_⟩
    · rw [fromText_of_digits lib (List.forall_mem_singleton.2 (by decide)), readDecimal_zero]
      rfl
    · rw [hv, toNat_zero]
      split <;> rfl
  have hvalue : ∀ b, ofDigits b (Nat.digits b v.toNat) % modulus = v.toNat := by
    intro b
    rw [Nat.ofDigits_digits, Nat.mod_eq_of_lt v.toNat_lt]
  have hne : ∀ b, digitsText b uppercase v.toNat ≠ [] := fun b => digitsText_ne_nil uppercase hv
  have htext : v.toText base true uppercase = _ := toText_eq hbase hv
  simp only [bases, List.mem_cons, List.not_mem_nil, or_false] at hbase
  rcases hbase with rfl | rfl | rfl | rfl
  · obtain ⟨w, hread, hw⟩ := readLoop_digits (b := 2) (toNat_lsl_base 1) "a hexadecimal" uppercase
      (by decide) (by decide) (fun d hd => digitBelow_digitChar uppercase (by decide) hd) v.toNat
    exact ⟨_, w, htext, (fromText_binary lib uppercase (hne 2)).trans hread, hw.trans (hvalue 2)⟩
  · obtain ⟨w, hread, hw⟩ := readDecimal_digits uppercase (by decide : 1 < 8) (by decide) v.toNat
    have hdigits := digitsText_lt uppercase (by decide : 1 < 8) (by decide) (n := v.toNat)
    refine ⟨_, w, htext, ?_, hw⟩
    refine (fromText_of_digits lib ?_).trans ((readDecimal_zero _).trans hread)
    intro c hc
    rcases List.mem_cons.1 hc with rfl | hc
    · decide
    · exact hdigits c hc
  · obtain ⟨w, hread, hw⟩ := readDecimal_digits uppercase (by decide : 1 < 10) le_rfl v.toNat
    have hdigits := digitsText_lt uppercase (by decide : 1 < 10) le_rfl (n := v.toNat)
    exact ⟨_, w, htext, (fromText_of_digits lib hdigits).trans hread, hw.trans (hvalue 10)⟩
  · obtain ⟨w, hread, hw⟩ := readLoop_digits (b := 16) (toNat_lsl_base 4) "a hexadecimal" uppercase
      (by decide) (by decide) (lib.digit_digitChar uppercase) v.toNat
    exact ⟨_, w, htext, (fromText_hexadecimal lib uppercase (hne 16)).trans hread,
      hw.trans (hvalue 16)⟩

/-- The text of a number starts with a digit. -/
theorem le_head_toText {v : UInt512} {base : ℤ} (hbase : base ∈ bases) {uppercase : Bool}
    {s : List UInt8} (h : v.toText base true uppercase = .ok s) : 48 ≤ (s.headD 0).toNat := by
  by_cases hv : v.toNat = 0
  · rw [toText_zero base hv] at h
    cases h
    decide
  rw [toText_eq hbase hv] at h
  cases h
  simp only [bases, List.mem_cons, List.not_mem_nil, or_false] at hbase
  rcases hbase with rfl | rfl | rfl | rfl
  · exact (by decide : 48 ≤ (48 : UInt8).toNat)
  · exact (by decide : 48 ≤ (48 : UInt8).toNat)
  · have hdigits := digitsText_lt uppercase (by decide : 1 < 10) le_rfl (n := v.toNat)
    have hne : digitsText 10 uppercase v.toNat ≠ [] := digitsText_ne_nil uppercase hv
    change 48 ≤ ((digitsText 10 uppercase v.toNat).headD 0).toNat
    cases htext : digitsText 10 uppercase v.toNat with
    | nil => exact absurd htext hne
    | cons c s => exact (hdigits c (htext ▸ List.mem_cons_self)).1
  · exact (by decide : 48 ≤ (48 : UInt8).toNat)

/-- The text of a number, read again, is the number. -/
def RoundTrips (lib : HexDigits) (v : UInt512) (base : ℤ) (uppercase : Bool) : Prop :=
  ∃ s, v.toText base true uppercase = .ok s ∧ fromText lib s = .ok v

/-- In another base than 8, the text is read as the number; in base 8, its digits are read as
decimal ones. -/
theorem textReadsBack_iff (lib : HexDigits) (v : UInt512) {base : ℤ} (hbase : base ∈ bases)
    (uppercase : Bool) :
    RoundTrips lib v base uppercase ↔ base ≠ 8 ∨ readAsDecimal v.toNat % modulus = v.toNat := by
  obtain ⟨s, w, htext, hread, hw⟩ := fromText_toText lib v hbase uppercase
  have hiff : RoundTrips lib v base uppercase ↔ w.toNat = v.toNat := by
    constructor
    · rintro ⟨s', htext', hread'⟩
      rw [htext] at htext'
      cases htext'
      rw [hread] at hread'
      cases hread'
      rfl
    · intro h
      exact ⟨s, htext, toNat_inj h ▸ hread⟩
  rw [hiff, hw]
  split
  · next h => rw [or_iff_right (not_not.2 h)]
  · next h => exact iff_of_true rfl (.inl h)

end UInt512

namespace Int512

open UInt512 (readAsDecimal)

/-- `from_string()`. -/
def fromText (lib : HexDigits) (s : List UInt8) : Except Failure Int512 :=
  if s.headD 0 = 43 then do
    let v ← UInt512.fromText lib (s.drop 1)
    .ok ⟨v⟩
  else if s.headD 0 = 45 then do
    let v ← UInt512.fromText lib (s.drop 1)
    .ok (neg ⟨v⟩)
  else do
    let v ← UInt512.fromText lib s
    .ok ⟨v⟩

/-- `to_string()`. -/
def toText (v : Int512) (base : ℤ) (introducer uppercase : Bool) :
    Except Failure (List UInt8) := do
  let result ← (if v.isNegative then v.words.neg else v.words).toText base introducer uppercase
  .ok ((if v.isNegative then [45] else []) ++ result)

/-- The text of a number, read again, is the number. -/
def RoundTrips (lib : HexDigits) (v : Int512) (base : ℤ) (uppercase : Bool) : Prop :=
  ∃ s, v.toText base true uppercase = .ok s ∧ fromText lib s = .ok v

theorem fromText_minus (lib : HexDigits) (s : List UInt8) :
    fromText lib (45 :: s) = UInt512.fromText lib s >>= fun v => .ok (neg ⟨v⟩) := by
  simp only [fromText, List.headD_cons, List.drop_one, List.tail_cons]
  rw [if_neg (by decide), if_pos trivial]

theorem fromText_of_digit (lib : HexDigits) {s : List UInt8} (h : 48 ≤ (s.headD 0).toNat) :
    fromText lib s = UInt512.fromText lib s >>= fun v => .ok ⟨v⟩ := by
  have hne : ∀ c : UInt8, c.toNat < 48 → s.headD 0 ≠ c := by
    rintro c hc rfl
    omega
  rw [fromText, if_neg (hne 43 (by decide)), if_neg (hne 45 (by decide))]

/-- The words of the absolute value. -/
theorem toNat_magnitude (v : Int512) :
    (if v.isNegative then v.words.neg else v.words).toNat = v.toInt.natAbs := by
  have hlt := v.words.toNat_lt
  unfold toInt
  split
  · next h =>
    rw [isNegative_iff] at h
    rw [UInt512.toNat_neg, Nat.mod_eq_of_lt (by omega)]
    omega
  · rfl

/-- **What is read** from the text of a number: the sign, and what is read from that of the
absolute value. -/
theorem fromText_toText (lib : HexDigits) (v : Int512) {base : ℤ} (hbase : base ∈ bases)
    (uppercase : Bool) :
    ∃ s w, v.toText base true uppercase = .ok s ∧
      fromText lib s = .ok (if v.isNegative then neg ⟨w⟩ else ⟨w⟩) ∧
      w.toNat = if base = 8 then readAsDecimal v.toInt.natAbs % modulus else v.toInt.natAbs := by
  obtain ⟨s, w, htext, hread, hw⟩ := UInt512.fromText_toText lib
    (if v.isNegative then v.words.neg else v.words) hbase uppercase
  have hhead := UInt512.le_head_toText hbase htext
  rw [toNat_magnitude] at hw
  refine ⟨_, w, by rw [toText, htext, ok_bind], ?_, hw⟩
  cases v.isNegative with
  | true => exact (fromText_minus lib s).trans (by rw [hread]; rfl)
  | false => exact (fromText_of_digit lib hhead).trans (by rw [hread]; rfl)

/-- As for unsigned numbers. -/
theorem textReadsBack_iff (lib : HexDigits) (v : Int512) {base : ℤ} (hbase : base ∈ bases)
    (uppercase : Bool) :
    RoundTrips lib v base uppercase ↔
      base ≠ 8 ∨ readAsDecimal v.toInt.natAbs % modulus = v.toInt.natAbs := by
  obtain ⟨s, w, htext, hread, hw⟩ := fromText_toText lib v hbase uppercase
  have hmagnitude := v.toNat_magnitude
  have hiff : RoundTrips lib v base uppercase ↔ w.toNat = v.toInt.natAbs := by
    rw [← hmagnitude]
    constructor
    · rintro ⟨s', htext', hread'⟩
      rw [htext] at htext'
      cases htext'
      rw [hread, Except.ok.injEq] at hread'
      split at hread'
      · next hneg =>
        rw [if_pos hneg, ← hread']
        exact congrArg UInt512.toNat (UInt512.neg_neg w).symm
      · next hneg =>
        rw [if_neg hneg, ← hread']
    · intro h
      refine ⟨s, htext, hread.trans (congrArg _ ?_)⟩
      rw [UInt512.toNat_inj h]
      split
      · exact congrArg Int512.mk (UInt512.neg_neg v.words)
      · rfl
  rw [hiff, hw]
  split
  · next h => rw [or_iff_right (not_not.2 h)]
  · next h => exact iff_of_true rfl (.inl h)

end Int512

/-- **The round trip of big integers**, unsigned and signed: in every base but 8, and in base 8 of
the numbers of which the octal digits, read as decimal ones, give the number again. -/
theorem text_roundTrips (lib : HexDigits) {base : ℤ} (hbase : base ∈ bases) (uppercase : Bool) :
    (∀ v : UInt512, v.RoundTrips lib base uppercase ↔
      base ≠ 8 ∨ UInt512.readAsDecimal v.toNat % modulus = v.toNat) ∧
    (∀ v : Int512, v.RoundTrips lib base uppercase ↔
      base ≠ 8 ∨ UInt512.readAsDecimal v.toInt.natAbs % modulus = v.toInt.natAbs) :=
  ⟨fun v => v.textReadsBack_iff lib hbase uppercase, fun v => v.textReadsBack_iff lib hbase uppercase⟩

/-- The hexadecimal digits of ASCII. -/
def asciiHexDigits : HexDigits where
  isHexdigit c := (48 ≤ c ∧ c ≤ 57) ∨ (97 ≤ c ∧ c ≤ 102) ∨ (65 ≤ c ∧ c ≤ 70)
  hexdigitToNumber c := if c ≤ 57 then c.toNat - 48 else (c &&& 0x5F).toNat - 55
  isHexdigit_digitChar := by decide
  hexdigitToNumber_digitChar := by decide

/-- Five in hexadecimal comes back, as an instance. -/
theorem text_roundTrips_five : (UInt512.ofUInt64 5).RoundTrips asciiHexDigits 16 true :=
  ((text_roundTrips asciiHexDigits (by decide : (16 : ℤ) ∈ bases) true).1 _).2 (.inl (by decide))

/-- Eight is written as 010 in base 8, which is read as ten. -/
theorem eight_not_roundTrips : ¬ (UInt512.ofUInt64 8).RoundTrips asciiHexDigits 8 false := by
  have hten : UInt512.readAsDecimal 8 = 10 := by
    rw [UInt512.readAsDecimal_eq 8 (by decide),
      (UInt512.readAsDecimal_eq_self_iff (8 / 8)).2 (by decide)]
  rw [UInt512.textReadsBack_iff asciiHexDigits _ (by decide), UInt512.toNat_ofUInt64 (by decide),
    or_iff_right (by decide), hten]
  decide

end Prinbee
