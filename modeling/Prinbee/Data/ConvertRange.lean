import Prinbee.Data.ConvertRoundTrip
import Mathlib.Algebra.Order.Ring.Int

/-!
# The numbers that are in range

`string_to_int()` reads any number of digits in 512 bits, and nothing tells it that they do not
fit: the number it returns is what the text denotes, modulo `2 ^ 512`.  The types compare sizes
afterwards, `string_to_integer()` by the bits of the absolute value.

`Numeral` is the syntax of numbers with the integer that a text denotes, whatever its size.
It is compared with what the conversions do with the text.

## Main definitions

* `Numeral`, `Denotes` — the texts of the syntax, and the integers they denote.
* `integerBits`, `InTypeRange`, `encoding` — the integer types, their values, and their bytes.
* `ConvertsText` — a text is converted when its integer is a value of the type, to that value.

## Main results

* `denotes_of_stringToInt`, `stringToInt_of_denotes` — the syntax is what `string_to_int()` reads.
* `convertsText_iff` — when the conversion of a text is right.
-/

namespace Prinbee

open UInt512 (modulus ofBytes toBytes)

/-! ### The syntax of numbers -/

/-- How the digits of a number are introduced; the letters may be in uppercase. -/
inductive Introducer
  | decimal
  | octal
  | hexadecimal (uppercase : Bool)
  | binary (uppercase : Bool)
  | quoted (uppercase : Bool)
  deriving DecidableEq, Repr

namespace Introducer

/-- The characters before the digits. -/
def text : Introducer → Bytes
  | decimal => []
  | octal => [48]
  | hexadecimal uppercase => [48, if uppercase then 88 else 120]
  | binary uppercase => [48, if uppercase then 66 else 98]
  | quoted uppercase => [if uppercase then 88 else 120, 39]

/-- The characters after the digits. -/
def closing : Introducer → Bytes
  | quoted _ => [39]
  | _ => []

/-- The digits that follow. -/
def type : Introducer → NumberType
  | decimal => .decimal
  | octal => .octal
  | hexadecimal _ | quoted _ => .hexadecimal
  | binary _ => .binary

end Introducer

/-- A character is a digit. -/
def IsDigit (t : NumberType) (c : UInt8) : Prop := ∃ d, digitOf t c = some d

/-- The number that digits denote, after a number. -/
def digitsValue (t : NumberType) (n : ℕ) (digits : Bytes) : ℕ :=
  (digits.map fun c => (digitOf t c).getD 0).foldl (fun n d => t.base * n + d) n

/-- A text that is a number: spaces, a sign, an introducer, digits, a closing quote, spaces, and
whatever is behind a null byte.  There may be no digit. -/
structure Numeral where
  before : Bytes
  sign : Option Bool
  introducer : Introducer
  digits : Bytes
  after : Bytes
  rest : Bytes
  before_space : ∀ c ∈ before, isSpace c = true
  isDigit : ∀ c ∈ digits, IsDigit introducer.type c
  decimal_head : introducer = .decimal → digits.headD 0 ≠ 48
  after_space : ∀ c ∈ after, isSpace c = true
  rest_null : rest.headD 0 = 0

namespace Numeral

/-- The sign, `some true` for the minus. -/
def signText : Option Bool → Bytes
  | none => []
  | some false => [43]
  | some true => [45]

/-- What is between the spaces. -/
def body (n : Numeral) : Bytes :=
  signText n.sign ++ (n.introducer.text ++ (n.digits ++ n.introducer.closing))

/-- The text. -/
def text (n : Numeral) : Bytes := n.before ++ (n.body ++ n.after) ++ n.rest

/-- The absolute value that the digits denote. -/
def magnitude (n : Numeral) : ℕ := digitsValue n.introducer.type 0 n.digits

/-- The integer that the text denotes. -/
def value (n : Numeral) : ℤ := if n.sign = some true then -n.magnitude else n.magnitude

end Numeral

/-- A text denotes an integer; not all types accept a minus sign. -/
def Denotes (acceptNegativeValues : Bool) (s : Bytes) (z : ℤ) : Prop :=
  ∃ n : Numeral, n.text = s ∧ n.value = z ∧ (n.sign = some true → acceptNegativeValues = true)

/-! ### The characters -/

theorem toNat_of_isDigit {t : NumberType} {c : UInt8} (h : IsDigit t c) :
    48 ≤ c.toNat ∧ c.toNat ≤ 102 ∧ (t ≠ .hexadecimal → c.toNat ≤ 57) := by
  obtain ⟨d, hd⟩ := h
  cases t
  all_goals
    simp only [digitOf, UInt8.le_iff_toNat_le, UInt8.reduceToNat] at hd
    grind

theorem toNat_of_isSpace {c : UInt8} (h : isSpace c = true) : 9 ≤ c.toNat ∧ c.toNat ≤ 32 := by
  unfold isSpace at h
  rw [decide_eq_true_iff] at h
  simp only [UInt8.le_iff_toNat_le, UInt8.reduceToNat] at h
  rcases h with rfl | h
  · decide
  · omega

theorem digitOf_lt {t : NumberType} {c : UInt8} {d : ℕ} (h : digitOf t c = some d) : d < 256 := by
  have hc := c.toNat_lt
  have hmask := (c &&& 0x5F).toNat_lt
  cases t
  all_goals
    simp only [digitOf] at h
    grind

/-- A digit is no null byte, no space, no sign and no quote. -/
theorem IsDigit.ne {t : NumberType} {c : UInt8} (h : IsDigit t c) :
    c ≠ 0 ∧ isSpace c = false ∧ c ≠ 43 ∧ c ≠ 45 ∧ c ≠ 39 := by
  have hc := toNat_of_isDigit h
  refine ⟨?_, ?_, ?_, ?_, ?_⟩
  · rintro rfl
    simp at hc
  · cases hspace : isSpace c with
    | false => rfl
    | true =>
      have := toNat_of_isSpace hspace
      omega
  all_goals
    rintro rfl
    simp at hc

theorem ne_zero_of_isSpace {c : UInt8} (h : isSpace c = true) : c ≠ 0 := by
  rintro rfl
  cases h

theorem not_isDigit_of_isSpace {c : UInt8} (h : isSpace c = true) (t : NumberType) :
    digitOf t c = none := by
  cases hd : digitOf t c with
  | none => rfl
  | some d =>
    have hne := (IsDigit.ne ⟨d, hd⟩).2.1
    rw [h] at hne
    cases hne

/-! ### Reading digits -/

/-- The loop reads the digits at the start, and stops at the first character that is none. -/
theorem readDigits_append (t : NumberType) (digits rest : Bytes)
    (hdigits : ∀ c ∈ digits, IsDigit t c) (hrest : digitOf t (rest.headD 0) = none)
    (v : UInt512) :
    ∃ r, readDigits t v (digits ++ rest) = (r, rest) ∧
      r.toNat = digitsValue t v.toNat digits % modulus := by
  induction digits generalizing v with
  | nil =>
    refine ⟨v, ?_, (Nat.mod_eq_of_lt v.toNat_lt).symm⟩
    cases rest with
    | nil => rfl
    | cons c rest =>
      rw [List.headD_cons] at hrest
      rw [List.nil_append, readDigits, hrest]
  | cons c digits ih =>
    obtain ⟨d, hd⟩ := hdigits c (by simp)
    have hlt := digitOf_lt hd
    obtain ⟨r, hread, hr⟩ := ih (fun e he => hdigits e (by simp [he]))
      ((timesBase t v).add (UInt512.ofUInt64 d))
    refine ⟨r, ?_, ?_⟩
    · rw [List.cons_append, readDigits, hd]
      exact hread
    · have hstep : digitsValue t v.toNat (c :: digits)
          = digitsValue t (t.base * v.toNat + d) digits := by
        rw [digitsValue, List.map_cons, hd]
        rfl
      rw [hr, hstep, UInt512.toNat_add, timesBase_eq, UInt512.toNat_ofUInt64 (by omega),
        Nat.mod_add_mod]
      exact Limbs.foldl_mod _ _ _ _

/-! ### What the syntax denotes -/

theorem dropWhile_of_all {p : UInt8 → Bool} {l : Bytes} (h : ∀ c ∈ l, p c = true) (rest : Bytes) :
    (l ++ rest).dropWhile p = rest.dropWhile p := by
  rw [List.dropWhile_append, List.dropWhile_eq_nil_iff.2 h]
  rfl

namespace Numeral

variable (n : Numeral)

/-- The first character of what is between the spaces is no space. -/
theorem isSpace_body (h : n.body ≠ []) (rest : Bytes) :
    (n.body ++ rest).dropWhile isSpace = n.body ++ rest := by
  obtain ⟨c, l, hc⟩ := List.exists_cons_of_ne_nil h
  have hspace : isSpace c = false := by
    unfold body at hc
    cases hsign : n.sign with
    | some b =>
      cases b
      all_goals
        simp only [hsign, signText, List.cons_append, List.cons.injEq] at hc
        rw [← hc.1]
        rfl
    | none =>
      cases hintro : n.introducer with
      | decimal =>
        cases hdigits : n.digits with
        | nil => simp [hsign, hintro, hdigits, signText, Introducer.text, Introducer.closing] at hc
        | cons d ds =>
          simp only [hsign, hintro, hdigits, signText, Introducer.text, List.nil_append,
            List.cons_append, List.cons.injEq] at hc
          rw [← hc.1]
          exact (n.isDigit d (by simp [hdigits])).ne.2.1
      | octal | hexadecimal u | binary u =>
        simp only [hsign, hintro, signText, Introducer.text, List.nil_append,
          List.cons_append, List.cons.injEq] at hc
        rw [← hc.1]
        rfl
      | quoted u =>
        simp only [hsign, hintro, signText, Introducer.text, List.nil_append,
          List.cons_append, List.cons.injEq] at hc
        rw [← hc.1]
        cases u <;> rfl
  rw [hc, List.cons_append, List.dropWhile_cons_of_neg (by rw [hspace]; exact Bool.false_ne_true)]

/-- No character before the rest is null. -/
theorem ne_zero_of_mem {c : UInt8} (h : c ∈ n.before ++ (n.body ++ n.after)) : c ≠ 0 := by
  simp only [List.mem_append, body] at h
  rcases h with h | (h | h | h | h) | h
  · exact ne_zero_of_isSpace (n.before_space c h)
  · rintro rfl
    cases hsign : n.sign with
    | none => simp [hsign, signText] at h
    | some b => cases b <;> simp [hsign, signText] at h
  · rintro rfl
    cases hintro : n.introducer with
    | decimal | octal => simp [hintro, Introducer.text] at h
    | hexadecimal u | binary u | quoted u => cases u <;> simp [hintro, Introducer.text] at h
  · exact (n.isDigit c h).ne.1
  · rintro rfl
    cases hintro : n.introducer <;> simp [hintro, Introducer.closing] at h
  · exact ne_zero_of_isSpace (n.after_space c h)

/-- The text ends at its null byte. -/
theorem takeWhile_text : n.text.takeWhile (· ≠ 0) = n.before ++ (n.body ++ n.after) := by
  have hrest : n.rest.takeWhile (· ≠ 0) = [] := by
    cases hr : n.rest with
    | nil => rfl
    | cons c rest =>
      have hnull := n.rest_null
      rw [hr, List.headD_cons] at hnull
      rw [hnull]
      rfl
  rw [text, List.takeWhile_append_of_pos
    (fun c hc => by simpa using n.ne_zero_of_mem hc), hrest, List.append_nil]

/-- The spaces are skipped.  Without anything between them, all are. -/
theorem dropWhile_text :
    ∃ after, (∀ c ∈ after, isSpace c = true) ∧
      (n.before ++ (n.body ++ n.after)).dropWhile isSpace = n.body ++ after := by
  rw [dropWhile_of_all n.before_space]
  by_cases h : n.body = []
  · refine ⟨[], by simp, ?_⟩
    rw [h, List.nil_append, List.append_nil, List.dropWhile_eq_nil_iff]
    exact n.after_space
  · exact ⟨n.after, n.after_space, n.isSpace_body h n.after⟩

/-- Behind the introducer there is a digit, the closing quote, a space, or the end. -/
theorem head_digits {after : Bytes} (hafter : ∀ c ∈ after, isSpace c = true) :
    let c := (n.digits ++ (n.introducer.closing ++ after)).headD 0
    (IsDigit n.introducer.type c ∧ (n.introducer = .decimal → c ≠ 48)) ∨ c.toNat ≤ 32 ∨
      c = 39 := by
  intro c
  cases hdigits : n.digits with
  | cons d ds =>
    have hc : c = d := by simp [c, hdigits]
    rw [hc]
    refine .inl ⟨n.isDigit d (by simp [hdigits]), fun hdecimal => ?_⟩
    have hhead := n.decimal_head hdecimal
    rwa [hdigits, List.headD_cons] at hhead
  | nil =>
    cases hintro : n.introducer with
    | quoted u => exact .inr (.inr (by simp [c, hdigits, hintro, Introducer.closing]))
    | decimal | octal | hexadecimal u | binary u =>
      refine .inr (.inl ?_)
      cases hspaces : after with
      | nil => simp [c, hdigits, hintro, Introducer.closing, hspaces]
      | cons e es =>
        have hc : c = e := by simp [c, hdigits, hintro, Introducer.closing, hspaces]
        rw [hc]
        exact (toNat_of_isSpace (hafter e (by simp [hspaces]))).2

/-- The sign is read. -/
theorem numberSign_text {after : Bytes} (hafter : ∀ c ∈ after, isSpace c = true) (number : Bytes)
    {acceptNegativeValues : Bool} (h : n.sign = some true → acceptNegativeValues = true) :
    numberSign number (n.body ++ after) acceptNegativeValues =
      .ok (decide (n.sign = some true),
        n.introducer.text ++ (n.digits ++ (n.introducer.closing ++ after))) := by
  have hbody : n.body ++ after = signText n.sign ++
      (n.introducer.text ++ (n.digits ++ (n.introducer.closing ++ after))) := by
    simp only [body, List.append_assoc]
  rw [hbody]
  cases hsign : n.sign with
  | some b =>
    cases b with
    | false => simp [numberSign, signText]
    | true =>
      rw [h hsign]
      simp [numberSign, signText]
  | none =>
    have hne : ∀ c : UInt8, (c = 43 ∨ c = 45) →
        (n.introducer.text ++ (n.digits ++ (n.introducer.closing ++ after))).headD 0 ≠ c := by
      intro c hc heq
      cases hintro : n.introducer with
      | decimal =>
        have hhead := n.head_digits hafter
        rw [hintro, Introducer.text, List.nil_append] at heq
        rw [hintro] at hhead
        dsimp only at hhead
        rw [heq] at hhead
        rcases hhead with ⟨hd, -⟩ | hle | h39
        · rcases hc with rfl | rfl
          · exact hd.ne.2.2.1 rfl
          · exact hd.ne.2.2.2.1 rfl
        · rcases hc with rfl | rfl <;> simp at hle
        · rcases hc with rfl | rfl <;> simp at h39
      | octal | hexadecimal u | binary u =>
        rcases hc with rfl | rfl <;> simp [hintro, Introducer.text] at heq
      | quoted u =>
        rcases hc with rfl | rfl <;> cases u <;> simp [hintro, Introducer.text] at heq
    rw [signText, List.nil_append, numberSign, if_neg (hne 43 (.inl rfl)),
      if_neg (hne 45 (.inr rfl))]
    rfl

/-- The introducer is read. -/
theorem numberType_text {after : Bytes} (hafter : ∀ c ∈ after, isSpace c = true) :
    numberType (n.introducer.text ++ (n.digits ++ (n.introducer.closing ++ after))) =
      (n.introducer.type, decide (n.introducer.closing ≠ []),
        n.digits ++ (n.introducer.closing ++ after)) := by
  have hhead := n.head_digits hafter
  dsimp only at hhead
  generalize n.digits ++ (n.introducer.closing ++ after) = l at hhead ⊢
  have hdigit {t : NumberType} (ht : t ≠ .hexadecimal) {c : UInt8} (h : IsDigit t c) :
      c.toNat ≤ 57 := (toNat_of_isDigit h).2.2 ht
  cases hintro : n.introducer with
  | decimal =>
    rw [hintro] at hhead
    have hne : l.headD 0 ≠ 48 ∧ l.headD 0 ≠ 120 ∧ l.headD 0 ≠ 88 := by
      rcases hhead with ⟨hd, h48⟩ | hle | h39
      · have hle := hdigit (by decide) hd
        refine ⟨h48 rfl, ?_, ?_⟩
        all_goals
          intro heq
          rw [heq] at hle
          simp at hle
      · refine ⟨?_, ?_, ?_⟩
        all_goals
          intro heq
          rw [heq] at hle
          simp at hle
      · rw [h39]
        decide
    rw [Introducer.text, List.nil_append, numberType, if_neg hne.1,
      if_neg fun h => h.1.elim hne.2.1 hne.2.2]
    rfl
  | octal =>
    rw [hintro] at hhead
    have hne : l.headD 0 ≠ 120 ∧ l.headD 0 ≠ 88 ∧ l.headD 0 ≠ 98 ∧ l.headD 0 ≠ 66 := by
      have hle : (l.headD 0).toNat ≤ 57 := by
        rcases hhead with ⟨hd, -⟩ | hle | h39
        · exact hdigit (by decide) hd
        · omega
        · rw [h39]
          decide
      refine ⟨?_, ?_, ?_, ?_⟩
      all_goals
        intro heq
        rw [heq] at hle
        simp at hle
    have hget : (48 :: l).getD 1 0 = l.headD 0 := by cases l <;> rfl
    rw [Introducer.text, List.singleton_append, numberType, List.headD_cons, if_pos rfl, hget,
      if_neg fun h => h.elim hne.1 hne.2.1, if_neg fun h => h.elim hne.2.2.1 hne.2.2.2]
    rfl
  | hexadecimal u => cases u <;> rfl
  | binary u => cases u <;> rfl
  | quoted u => cases u <;> rfl

/-- **A number is read as what it denotes**, modulo `2 ^ 512`. -/
theorem stringToInt_text {acceptNegativeValues : Bool}
    (h : n.sign = some true → acceptNegativeValues = true) :
    ∃ r, stringToInt n.text acceptNegativeValues = .ok r ∧
      (r.toNat : ℤ) = n.value % (modulus : ℤ) := by
  obtain ⟨after, hafter, hdrop⟩ := n.dropWhile_text
  have hstop : digitOf n.introducer.type ((n.introducer.closing ++ after).headD 0) = none := by
    cases hintro : n.introducer with
    | quoted u => rfl
    | decimal | octal | hexadecimal u | binary u =>
      cases hspaces : after with
      | nil => rfl
      | cons c cs => exact not_isDigit_of_isSpace (hafter c (by simp [hspaces])) _
  obtain ⟨r, hread, hr⟩ := readDigits_append n.introducer.type n.digits
    (n.introducer.closing ++ after) n.isDigit hstop UInt512.zero
  have hend : after.dropWhile isSpace = [] := List.dropWhile_eq_nil_iff.2 hafter
  refine ⟨if n.sign = some true then r.neg else r, ?_, ?_⟩
  · rw [stringToInt]
    simp only [n.takeWhile_text, hdrop, n.numberSign_text hafter n.text h, ok_bind,
      n.numberType_text hafter, hread]
    cases hintro : n.introducer with
    | quoted u => simp [Introducer.closing, hend]
    | decimal | octal | hexadecimal u | binary u => simp [Introducer.closing, hend]
  · have hmagnitude : r.toNat = n.magnitude % modulus := by
      rw [hr, UInt512.toNat_zero]
      rfl
    unfold value
    split
    · rw [UInt512.toNat_neg, hmagnitude]
      have hlt : n.magnitude % modulus < modulus := Nat.mod_lt _ (by decide)
      rw [Int.natCast_mod, Nat.cast_sub hlt.le, Int.natCast_mod]
      apply Int.emod_eq_emod_iff_emod_sub_eq_zero.2
      have hsplit := Int.mul_ediv_add_emod (n.magnitude : ℤ) modulus
      have hmultiple : (modulus : ℤ) - n.magnitude % modulus - -n.magnitude =
          modulus * (1 + n.magnitude / modulus) := by
        rw [mul_add, mul_one]
        omega
      rw [hmultiple, Int.mul_emod_right]
    · rw [hmagnitude, Int.natCast_mod]

end Numeral

/-! ### The syntax is what is read -/

theorem eq_cons_of_headD {l : Bytes} {c : UInt8} (h : l.headD 0 = c) (hc : c ≠ 0) :
    l = c :: l.drop 1 := by
  cases l with
  | nil => exact absurd h.symm hc
  | cons d l =>
    rw [List.headD_cons] at h
    rw [h]
    rfl

theorem numberSign_eq_ok {number l tail : Bytes} {acceptNegativeValues negative : Bool}
    (h : numberSign number l acceptNegativeValues = .ok (negative, tail)) :
    ∃ sign : Option Bool, l = Numeral.signText sign ++ tail ∧
      (sign = some true → acceptNegativeValues = true) := by
  unfold numberSign at h
  split at h
  · next h43 =>
    cases h
    exact ⟨some false, eq_cons_of_headD h43 (by decide), by simp⟩
  split at h
  · next h45 =>
    split at h
    · next haccept =>
      cases h
      exact ⟨some true, eq_cons_of_headD h45 (by decide), fun _ => haccept⟩
    · cases h
  · cases h
    exact ⟨none, rfl, by simp⟩

/-- Which introducer was read. -/
theorem numberType_eq (l : Bytes) :
    ∃ introducer : Introducer, (introducer = .decimal → l.headD 0 ≠ 48) ∧
      ∃ tail, l = introducer.text ++ tail ∧
        numberType l = (introducer.type, decide (introducer.closing ≠ []), tail) := by
  have hsecond {c d : UInt8} (hd : l.headD 0 = d) (hc : c ≠ 0) (h : l.getD 1 0 = c) :
      l = d :: c :: l.drop 2 := by
    match l, h with
    | [], h => exact absurd h.symm hc
    | [_], h => exact absurd h.symm hc
    | _ :: _ :: _, h =>
      simp only [List.getD_cons_succ, List.getD_cons_zero] at h
      rw [← hd, h]
      rfl
  unfold numberType
  split
  · next h48 =>
    split
    · next hx =>
      rcases hx with hx | hx
      · exact ⟨.hexadecimal false, by simp, l.drop 2, hsecond h48 (by decide) hx, rfl⟩
      · exact ⟨.hexadecimal true, by simp, l.drop 2, hsecond h48 (by decide) hx, rfl⟩
    split
    · next hb =>
      rcases hb with hb | hb
      · exact ⟨.binary false, by simp, l.drop 2, hsecond h48 (by decide) hb, rfl⟩
      · exact ⟨.binary true, by simp, l.drop 2, hsecond h48 (by decide) hb, rfl⟩
    · exact ⟨.octal, by simp, l.drop 1, eq_cons_of_headD h48 (by decide), rfl⟩
  · next h48 =>
    split
    · next hq =>
      obtain ⟨hx, hquote⟩ := hq
      rcases hx with hx | hx
      · exact ⟨.quoted false, by simp, l.drop 2, hsecond hx (by decide) hquote, rfl⟩
      · exact ⟨.quoted true, by simp, l.drop 2, hsecond hx (by decide) hquote, rfl⟩
    · exact ⟨.decimal, fun _ => h48, l, rfl, rfl⟩

/-- What the loop reads are digits. -/
theorem readDigits_eq_append (t : NumberType) (v : UInt512) (l : Bytes) :
    ∃ digits, l = digits ++ (readDigits t v l).2 ∧ ∀ c ∈ digits, IsDigit t c := by
  induction l generalizing v with
  | nil => exact ⟨[], rfl, by simp⟩
  | cons c l ih =>
    rw [readDigits]
    cases hd : digitOf t c with
    | none => exact ⟨[], rfl, by simp⟩
    | some d =>
      obtain ⟨digits, hl, hdigits⟩ := ih ((timesBase t v).add (UInt512.ofUInt64 d))
      refine ⟨c :: digits, ?_, ?_⟩
      · rw [List.cons_append]
        exact congrArg (c :: ·) hl
      · intro e he
        rcases List.mem_cons.1 he with rfl | he
        · exact ⟨d, hd⟩
        · exact hdigits e he

/-- **A text that is read is a number.** -/
theorem denotes_of_stringToInt {s : Bytes} {acceptNegativeValues : Bool} {r : UInt512}
    (h : stringToInt s acceptNegativeValues = .ok r) :
    ∃ z, Denotes acceptNegativeValues s z := by
  rw [stringToInt, bind_eq_ok] at h
  obtain ⟨⟨negative, l⟩, hsign, h⟩ := h
  obtain ⟨sign, hl, haccept⟩ := numberSign_eq_ok hsign
  obtain ⟨introducer, hdecimal, l', hl', htype⟩ := numberType_eq l
  obtain ⟨digits, hdigits, hisDigit⟩ := readDigits_eq_append introducer.type UInt512.zero l'
  simp only [htype] at h
  generalize (readDigits introducer.type UInt512.zero l').2 = tail at h hdigits
  -- what is behind the digits
  obtain ⟨after, htail, hafter⟩ : ∃ after, tail = introducer.closing ++ after ∧
      after.dropWhile isSpace = [] := by
    have hspaces {l : Bytes} {e : Failure} {x : UInt512}
        (h : (if l.dropWhile isSpace ≠ [] then .error e else .ok x) = (.ok r : Except Failure _)) :
        l.dropWhile isSpace = [] := by
      by_contra hne
      rw [if_pos hne] at h
      cases h
    cases hintro : introducer with
    | quoted u =>
      rw [hintro] at h
      simp only [Introducer.closing, ne_eq, List.cons_ne_nil, not_false_eq_true, decide_true,
        if_true] at h
      by_cases h39 : tail.headD 0 = 39
      · simp only [h39, not_true_eq_false, if_false, ok_bind] at h
        exact ⟨tail.drop 1, eq_cons_of_headD h39 (by decide), hspaces h⟩
      · simp only [h39, not_false_eq_true, if_true, error_bind] at h
        cases h
    | decimal | octal | hexadecimal u | binary u =>
      rw [hintro] at h
      exact ⟨tail, rfl, hspaces h⟩
  have hrest : (s.dropWhile (· ≠ 0)).headD 0 = 0 := by
    have hhead := List.head?_dropWhile_not (· ≠ 0) s
    cases hs : s.dropWhile (· ≠ 0) with
    | nil => rfl
    | cons c rest =>
      rw [hs] at hhead
      simpa using hhead
  have hhead : introducer = .decimal → digits.headD 0 ≠ 48 := by
    intro heq
    have hl48 := hdecimal heq
    rw [hl', heq, Introducer.text, List.nil_append, hdigits] at hl48
    cases digits with
    | nil => decide
    | cons c cs => exact hl48
  refine ⟨_, ⟨(s.takeWhile (· ≠ 0)).takeWhile isSpace, sign, introducer, digits, after,
    s.dropWhile (· ≠ 0), fun c hc => List.mem_takeWhile_imp hc, hisDigit, hhead,
    List.dropWhile_eq_nil_iff.1 hafter, hrest⟩, ?_, rfl, haccept⟩
  rw [Numeral.text, Numeral.body]
  dsimp only
  conv_rhs => rw [← List.takeWhile_append_dropWhile (p := (· ≠ 0)) (l := s),
    ← List.takeWhile_append_dropWhile (p := isSpace) (l := s.takeWhile (· ≠ 0)), hl, hl', hdigits,
    htail]
  simp only [List.append_assoc]

/-- **A number is read, as what it denotes modulo `2 ^ 512`.** -/
theorem stringToInt_of_denotes {s : Bytes} {acceptNegativeValues : Bool} {z : ℤ}
    (h : Denotes acceptNegativeValues s z) :
    ∃ r, stringToInt s acceptNegativeValues = .ok r ∧ (r.toNat : ℤ) = z % (modulus : ℤ) := by
  obtain ⟨n, rfl, rfl, haccept⟩ := h
  exact n.stringToInt_text haccept

/-! ### The minimum -/

/-- The bit sizes below 512. -/
def smallSizes : List ℕ := [8, 16, 32, 64, 128, 256]

/-- The sizes of which `string_to_integer()` compares whole words: the sign is not in them. -/
def wordSizes : List ℕ := [64, 128, 256]

theorem xor_eq_zero_iff {a b : ℕ} : a ^^^ b = 0 ↔ a = b := by
  constructor
  · intro h
    have hcancel := Nat.xor_xor_cancel_left a b
    rw [h, Nat.xor_zero] at hcancel
    exact hcancel
  · rintro rfl
    exact Nat.xor_self a

/-- The four low words. -/
theorem low_words (v : UInt512) :
    ∃ a b c d, (∀ x ∈ [a, b, c, d], x < 2 ^ 64) ∧
      a + 2 ^ 64 * (b + 2 ^ 64 * (c + 2 ^ 64 * d)) = v.toNat % 2 ^ 256 ∧
      v.limbs.getD 0 0 = a ∧ v.limbs.getD 1 0 = b ∧ v.limbs.getD 2 0 = c ∧
      v.limbs.getD 3 0 = d := by
  have htake := v.ofDigits_take_mod (k := 4) (by decide)
  have hfits := v.fits_take (k := 4) (by decide)
  match hl : v.limbs, v.fits.length with
  | [a, b, c, d, _, _, _, _], _ =>
    rw [hl] at htake hfits
    refine ⟨a, b, c, d, hfits.lt, ?_, rfl, rfl, rfl, rfl⟩
    simpa [Nat.ofDigits_cons] using htake

/-- The test for the minimum looks at the low words only. -/
theorem isMinimum_iff {n : Int512} {bits : ℕ} (hbits : bits ∈ smallSizes)
    (hsize : n.toInt.natAbs.size = bits) :
    isMinimum n bits =
      .ok (decide (n.toInt = -2 ^ (bits - 1) ∨ bits ∈ wordSizes ∧ n.toInt = 2 ^ (bits - 1))) := by
  obtain ⟨hlow, hhigh⟩ : 2 ^ (bits - 1) ≤ n.toInt.natAbs ∧ n.toInt.natAbs < 2 ^ bits := by
    refine ⟨?_, Nat.size_le.1 hsize.le⟩
    rw [← Nat.lt_size, hsize]
    simp only [smallSizes, List.mem_cons, List.not_mem_nil, or_false] at hbits
    omega
  have hvalue : (0 ≤ n.toInt ∧ (n.words.toNat : ℤ) = n.toInt) ∨
      (n.toInt < 0 ∧ (n.words.toNat : ℤ) = n.toInt + modulus) := by
    have hlt := n.words.toNat_lt
    unfold Int512.toInt
    split
    · exact .inr (by omega)
    · exact .inl (by omega)
  obtain ⟨q, hmodulus⟩ : ∃ q, modulus = 2 ^ 256 * q := ⟨(2 ^ 64) ^ 4, by
    rw [show (2 : ℕ) ^ 256 = (2 ^ 64) ^ 4 from Nat.pow_mul 2 64 4, ← Nat.pow_add]
    rfl⟩
  obtain ⟨a, b, c, d, hlt, hwords, ha, hb, hc, hd⟩ := low_words n.words
  simp only [List.mem_cons, List.not_mem_nil, or_false, forall_eq_or_imp, forall_eq] at hlt
  generalize n.toInt = z at *
  generalize n.words.toNat = N at *
  simp only [smallSizes, List.mem_cons, List.not_mem_nil, or_false] at hbits
  rcases hbits with rfl | rfl | rfl | rfl | rfl | rfl
  all_goals
    simp only [isMinimum, wordSizes, ha, hb, hc, hd, xor_eq_zero_iff, Nat.reduceEqDiff, if_true,
      if_false, Except.ok.injEq, decide_eq_decide, List.mem_cons, List.not_mem_nil, or_false,
      false_and, or_true, true_and, Nat.reduceSub, Nat.reducePow] at *
    omega

/-! ### The types -/

/-- The integer types, with whether they are signed and their bits. -/
def integerBits : StructType → Option (Bool × ℕ)
  | .bits8 | .uint8 => some (false, 8)
  | .bits16 | .uint16 => some (false, 16)
  | .bits32 | .uint32 => some (false, 32)
  | .bits64 | .uint64 | .oid | .reference => some (false, 64)
  | .bits128 | .uint128 => some (false, 128)
  | .bits256 | .uint256 => some (false, 256)
  | .bits512 | .uint512 => some (false, 512)
  | .int8 => some (true, 8)
  | .int16 => some (true, 16)
  | .int32 => some (true, 32)
  | .int64 => some (true, 64)
  | .int128 => some (true, 128)
  | .int256 => some (true, 256)
  | .int512 => some (true, 512)
  | _ => none

/-- An integer is a value of a type. -/
def InTypeRange (isSigned : Bool) (bits : ℕ) (z : ℤ) : Prop :=
  if isSigned then -2 ^ (bits - 1) ≤ z ∧ z < 2 ^ (bits - 1) else 0 ≤ z ∧ z < 2 ^ bits

/-- The bytes of an integer, in two's complement when it is negative, the low byte first. -/
def encoding (bits : ℕ) (z : ℤ) : Bytes := toBytes (bits / 8) (z % 2 ^ bits).toNat

/-- What 512 bits keep of an integer. -/
def wrapped (isSigned : Bool) (z : ℤ) : ℤ :=
  if isSigned then z.bmod modulus else z % (modulus : ℤ)

/-- What a type accepts of 512 bits. -/
def PassesChecks (isSigned : Bool) (bits : ℕ) (z : ℤ) : Prop :=
  InTypeRange isSigned bits z ∨ isSigned = true ∧ bits ∈ wordSizes ∧ z = 2 ^ (bits - 1)

/-- The conversion of a text that denotes an integer: it succeeds when the integer is a value of
the type, with the bytes of that value, and throws when it is none. -/
def ConvertsText (result : Except Failure Bytes) (isSigned : Bool) (bits : ℕ) (z : ℤ) : Prop :=
  (InTypeRange isSigned bits z → result = .ok (encoding bits z)) ∧
    (¬ InTypeRange isSigned bits z → Throws result)

/-- The bytes of a number are those of what it is modulo `2 ^ 512`. -/
theorem encoding_eq {bits : ℕ} (h : 8 ∣ bits) (hle : bits ≤ 512) {r : UInt512} {z : ℤ}
    (hr : (r.toNat : ℤ) = z % (modulus : ℤ)) : r.memory.take (bits / 8) = encoding bits z := by
  obtain ⟨k, rfl⟩ := h
  rw [Nat.mul_div_cancel_left _ (by decide), UInt512.take_memory _ (by omega), encoding,
    Nat.mul_div_cancel_left _ (by decide), ← UInt512.toBytes_mod, pow_eq]
  congr 1
  have hdvd : (2 ^ (8 * k) : ℤ) ∣ modulus := by
    rw [modulus_split (show k ≤ 64 by omega), pow_eq]
    exact ⟨_, by push_cast; rfl⟩
  rw [← Int.emod_emod_of_dvd z hdvd, ← hr]
  have hcast : ((r.toNat % 2 ^ (8 * k) : ℕ) : ℤ) = r.toNat % 2 ^ (8 * k) := by push_cast; rfl
  rw [← hcast, Int.toNat_natCast]

/-- A value of a type is kept by as many bits, or more. -/
theorem mod_of_inTypeRange {isSigned : Bool} {bits k : ℕ} (hpos : 0 < bits) (hle : bits ≤ k)
    {z : ℤ} (h : InTypeRange isSigned bits z) :
    (if isSigned then z.bmod (2 ^ k) else z % ((2 ^ k : ℕ) : ℤ)) = z := by
  have hpow : (2 ^ bits : ℤ) ≤ ((2 ^ k : ℕ) : ℤ) := by
    exact_mod_cast Nat.pow_le_pow_right (by decide) hle
  cases isSigned with
  | false =>
    simp only [InTypeRange, Bool.false_eq_true, if_false] at h ⊢
    exact Int.emod_eq_of_lt h.1 (h.2.trans_le hpow)
  | true =>
    simp only [InTypeRange, if_true] at h ⊢
    have hhalf : (2 ^ bits : ℤ) = 2 * 2 ^ (bits - 1) := by
      rw [← pow_succ']
      congr 1
      omega
    generalize (2 : ℤ) ^ (bits - 1) = p at h hhalf
    exact Int.bmod_eq_of_le_mul_two (by omega) (by omega)

/-- A value of a type is kept by 512 bits. -/
theorem wrapped_of_inTypeRange {isSigned : Bool} {bits : ℕ} (hpos : 0 < bits) (hle : bits ≤ 512)
    {z : ℤ} (h : InTypeRange isSigned bits z) : wrapped isSigned z = z := by
  rw [wrapped, UInt512.modulus_eq]
  exact mod_of_inTypeRange hpos hle h

theorem bits_range {bits : ℕ} (h : bits ∈ 512 :: smallSizes) : 0 < bits ∧ bits ≤ 512 := by
  simp only [smallSizes, List.mem_cons, List.not_mem_nil, or_false] at h
  omega

/-- The unsigned types accept what they can represent of 512 bits. -/
theorem stringToUinteger_spec {s : Bytes} {bits : ℕ} (hbits : bits ∈ 512 :: smallSizes) {z : ℤ}
    (hs : Denotes false s z) :
    (PassesChecks false bits (wrapped false z) → stringToUinteger s bits = .ok (encoding bits z)) ∧
      (¬ PassesChecks false bits (wrapped false z) → Throws (stringToUinteger s bits)) := by
  obtain ⟨r, hread, hr⟩ := stringToInt_of_denotes hs
  have hdvd : 8 ∣ bits ∧ bits ≤ 512 := by
    simp only [smallSizes, List.mem_cons, List.not_mem_nil, or_false] at hbits
    omega
  have haccepted : PassesChecks false bits (wrapped false z) ↔ r.toNat < 2 ^ bits := by
    have hcast : (2 ^ bits : ℤ) = ((2 ^ bits : ℕ) : ℤ) := by push_cast; rfl
    simp only [PassesChecks, InTypeRange, wrapped, Bool.false_eq_true, if_false, false_and,
      or_false, ← hr, hcast]
    omega
  have hsize : ¬ (bits ≠ 512 ∧ bits < r.bitSize) ↔ r.toNat < 2 ^ bits := by
    rw [UInt512.bitSize_eq, ← Nat.size_le]
    have hlt : r.toNat.size ≤ UInt512.bits := Nat.size_le.2 (UInt512.modulus_eq ▸ r.toNat_lt)
    have hmax : UInt512.bits = 512 := rfl
    omega
  rw [haccepted, ← hsize, not_not, stringToUinteger, hread, ok_bind]
  constructor
  · intro h
    rw [if_neg h, encoding_eq hdvd.1 hdvd.2 hr]
  · intro h
    rw [if_pos h]
    exact ⟨_, _, rfl⟩

/-- The signed types accept in addition, for some sizes, what is one past their maximum. -/
theorem stringToInteger_spec {s : Bytes} {bits : ℕ} (hbits : bits ∈ 512 :: smallSizes) {z : ℤ}
    (hs : Denotes true s z) :
    (PassesChecks true bits (wrapped true z) → stringToInteger s bits = .ok (encoding bits z)) ∧
      (¬ PassesChecks true bits (wrapped true z) → Throws (stringToInteger s bits)) := by
  obtain ⟨r, hread, hr⟩ := stringToInt_of_denotes hs
  have hdvd : 8 ∣ bits ∧ bits ≤ 512 := by
    simp only [smallSizes, List.mem_cons, List.not_mem_nil, or_false] at hbits
    omega
  have hbytes := encoding_eq hdvd.1 hdvd.2 hr
  have hvalue : wrapped true z = (⟨r⟩ : Int512).toInt := (Int512.toInt_eq_bmod hr).symm
  have hbitSize := (⟨r⟩ : Int512).bitSize_eq_size
  rw [hvalue, stringToInteger, hread, ok_bind]
  dsimp only
  rw [hbitSize, hbytes]
  have hcast : (2 ^ (bits - 1) : ℤ) = ((2 ^ (bits - 1) : ℕ) : ℤ) := by push_cast; rfl
  rcases List.mem_cons.1 hbits with h512 | hsmall
  · -- nothing is compared
    refine ⟨fun _ => by rw [if_neg fun h => h.1 h512], fun h => absurd (.inl ?_) h⟩
    have hrange := (⟨r⟩ : Int512).toInt_range
    have hmodulus : modulus = 2 * 2 ^ (bits - 1) := by
      rw [UInt512.modulus_eq, ← Nat.pow_succ', h512]
      congr 1
    rw [hmodulus] at hrange
    simp only [InTypeRange, if_true, hcast]
    omega
  generalize hw : (⟨r⟩ : Int512).toInt = w at hbitSize ⊢
  have hne : bits ≠ 512 ∧ 0 < bits := by
    simp only [smallSizes, List.mem_cons, List.not_mem_nil, or_false] at hsmall
    omega
  by_cases hfit : bits - 1 < w.natAbs.size
  swap
  · -- the absolute value has fewer bits than the type
    rw [if_neg fun h => hfit h.2]
    refine ⟨fun _ => rfl, fun h => absurd (.inl ?_) h⟩
    have hlt := Nat.size_le.1 (Nat.not_lt.1 hfit)
    simp only [InTypeRange, if_true, hcast]
    omega
  rw [if_pos ⟨hne.1, hfit⟩]
  have hge := Nat.lt_size.1 hfit
  have haccepted : PassesChecks true bits w ↔
      w = -2 ^ (bits - 1) ∨ bits ∈ wordSizes ∧ w = 2 ^ (bits - 1) := by
    have hpos : 0 < 2 ^ (bits - 1) := Nat.two_pow_pos _
    simp only [PassesChecks, InTypeRange, if_true, true_and, hcast]
    generalize 2 ^ (bits - 1) = p at hge hpos ⊢
    by_cases hword : bits ∈ wordSizes
    all_goals
      simp only [hword, true_and, false_and, or_false]
      omega
  rw [haccepted]
  by_cases hsize : w.natAbs.size = bits
  · have hmin := isMinimum_iff hsmall (by rw [hw]; exact hsize)
    rw [hw] at hmin
    rw [if_pos hsize, hmin, ok_bind]
    by_cases h : w = -2 ^ (bits - 1) ∨ bits ∈ wordSizes ∧ w = 2 ^ (bits - 1)
    · exact ⟨fun _ => by simp [h], fun h' => absurd h h'⟩
    · refine ⟨fun h' => absurd h' h, fun _ => ?_⟩
      rw [decide_eq_false h, Bool.not_false, if_pos rfl]
      exact ⟨_, _, rfl⟩
  · -- the absolute value has too many bits to be that of the minimum
    rw [if_neg hsize, ok_bind]
    refine ⟨fun h => absurd ?_ hsize, fun _ => ⟨_, _, rfl⟩⟩
    have habs : w.natAbs = 2 ^ (bits - 1) := by
      rw [hcast] at h
      generalize 2 ^ (bits - 1) = p at h ⊢
      rcases h with h | ⟨-, h⟩
      all_goals omega
    rw [habs, Nat.size_pow]
    omega

/-- **The conversion of a text to an integer type is right if and only if** the integer is a
value of the type, or what 512 bits keep of it is not accepted. -/
theorem convertsText_iff (lib : Conversions) {type : StructType} {isSigned : Bool} {bits : ℕ}
    (htype : integerBits type = some (isSigned, bits)) {s : Bytes} {z : ℤ}
    (hs : Denotes isSigned s z) (size : ℕ) :
    ConvertsText (stringToTypedBuffer lib type s size) isSigned bits z ↔
      InTypeRange isSigned bits z ∨ ¬ PassesChecks isSigned bits (wrapped isSigned z) := by
  obtain ⟨hbits, hok, hthrows⟩ : bits ∈ 512 :: smallSizes ∧
      (PassesChecks isSigned bits (wrapped isSigned z) →
        stringToTypedBuffer lib type s size = .ok (encoding bits z)) ∧
      (¬ PassesChecks isSigned bits (wrapped isSigned z) →
        Throws (stringToTypedBuffer lib type s size)) := by
    have hunsigned (bits : ℕ) (h : bits ∈ 512 :: smallSizes) (hs : Denotes false s z) :=
      And.intro h (stringToUinteger_spec h hs)
    have hsigned (bits : ℕ) (h : bits ∈ 512 :: smallSizes) (hs : Denotes true s z) :=
      And.intro h (stringToInteger_spec h hs)
    cases type
    case bits8 | bits16 | bits32 | bits64 | bits128 | bits256 | bits512 | uint8 | uint16 | uint32
        | uint64 | uint128 | uint256 | uint512 | oid | reference =>
      cases htype
      exact hunsigned _ (by decide) hs
    case int8 | int16 | int32 | int64 | int128 | int256 | int512 =>
      cases htype
      exact hsigned _ (by decide) hs
    all_goals cases htype
  constructor
  · intro h
    by_contra hnot
    rw [not_or, not_not] at hnot
    obtain ⟨kind, message, herror⟩ := h.2 hnot.1
    rw [hok hnot.2] at herror
    cases herror
  · rintro (h | h)
    · refine ⟨fun _ => hok (.inl ?_), fun h' => absurd h h'⟩
      rwa [wrapped_of_inTypeRange (bits_range hbits).1 (bits_range hbits).2 h]
    · by_cases hrepr : InTypeRange isSigned bits z
      · rw [wrapped_of_inTypeRange (bits_range hbits).1 (bits_range hbits).2 hrepr] at h
        exact absurd (.inl hrepr) h
      · exact ⟨fun h' => absurd h' hrepr, fun _ => hthrows h⟩

/-- The text of `2 ^ 63`, in hexadecimal. -/
def onePast : Numeral where
  before := []
  sign := none
  introducer := .hexadecimal false
  digits := 56 :: List.replicate 15 48
  after := []
  rest := []
  before_space := by simp
  isDigit := by
    intro c hc
    simp only [List.mem_cons, List.mem_replicate] at hc
    rcases hc with rfl | ⟨-, rfl⟩
    · exact ⟨8, rfl⟩
    · exact ⟨0, rfl⟩
  decimal_head := by simp
  after_space := by simp
  rest_null := rfl

theorem denotes_onePast (isSigned : Bool) : Denotes isSigned onePast.text (2 ^ 63) :=
  ⟨onePast, rfl, by decide, by simp [onePast]⟩

/-- It is a value of the unsigned type, which gets its bytes. -/
theorem convertsText_onePast :
    ConvertsText (stringToTypedBuffer hexConversions .uint64 onePast.text 0) false 64 (2 ^ 63) :=
  (convertsText_iff hexConversions rfl (denotes_onePast false) 0).2 (.inl (by
    unfold InTypeRange
    decide))

/-- It is no value of the signed type, which accepts it. -/
theorem not_convertsText :
    ¬ ConvertsText (stringToTypedBuffer hexConversions .int64 onePast.text 0) true 64 (2 ^ 63) := by
  intro h
  obtain ⟨kind, message, herror⟩ := h.2 (by
    unfold InTypeRange
    decide)
  have hbytes : stringToTypedBuffer hexConversions .int64 onePast.text 0 =
      .ok [0, 0, 0, 0, 0, 0, 0, 128] := by decide +kernel
  rw [hbytes] at herror
  cases herror

end Prinbee
