import Mathlib.Data.List.GetD
import Prinbee.Basic

/-!
# The name of a message

`binary_message.h`, `binary_message.cpp`: up to four characters are packed in a `message_name_t`,
the first one in the lowest byte.  A `char` is signed, so that one above 127 becomes a negative
`int`, which sets all the bits above it.

## Main definitions

* `BinaryMessage.createMessageName`, `BinaryMessage.messageNameToString` — the two functions.
* `BinaryMessage.NameSurvives` — a name comes back from its value, and no other name has that value.

## Main results

* `BinaryMessage.nameSurvives_iff` — it does exactly when its first three characters are below 128.
-/

namespace Prinbee

namespace BinaryMessage

/-- A `char` promoted to an `int`. -/
def charBits (c : UInt8) : BitVec 32 := c.toBitVec.signExtend 32

/-- The characters, the first one shifted by `s`. -/
def shiftName : ℕ → List UInt8 → BitVec 32
  | _, [] => 0
  | s, c :: cs => charBits c <<< s ||| shiftName (s + 8) cs

/-- The value that `create_message_name()` gives to the characters. -/
def messageName (name : List UInt8) : UInt32 := .ofBitVec (shiftName 0 name)

/-- `create_message_name()`. -/
def createMessageName (name : List UInt8) : Except Failure UInt32 :=
  if name = [] then .error (.thrown .invalidParameter "name cannot be empty.")
  else if 4 < name.length then
    .error (.thrown .invalidParameter "name cannot be more than 4 characters.")
  else .ok (messageName name)

/-- `static_cast<char>(name >> s)`, for the character at an index. -/
def charAt (name : UInt32) (k : ℕ) : UInt8 := .ofBitVec ((name.toBitVec >>> (8 * k)).setWidth 8)

/-- `message_name_to_string()`. -/
def messageNameToString (name : UInt32) : List UInt8 :=
  if name = 0 then [60, 117, 110, 107, 110, 111, 119, 110, 62]
  else charAt name 0 :: [charAt name 1, charAt name 2, charAt name 3].takeWhile (· ≠ 0)

/-- A string of one to four characters, as far as a C string goes. -/
structure IsName (s : List UInt8) : Prop where
  pos : 0 < s.length
  le : s.length ≤ 4
  not_mem : 0 ∉ s

/-! ### The bits of a name -/

theorem msb_toBitVec (c : UInt8) : c.toBitVec.msb = decide (128 ≤ c) := by
  rw [BitVec.msb_eq_decide]
  rfl

theorem getLsbD_charBits (c : UInt8) {i : ℕ} (hi : i < 32) :
    (charBits c).getLsbD i = if i < 8 then c.toBitVec.getLsbD i else decide (128 ≤ c) := by
  rw [charBits, BitVec.getLsbD_signExtend, msb_toBitVec]
  simp [hi]

theorem getLsbD_shiftName_cons (s : ℕ) (c : UInt8) (cs : List UInt8) {i : ℕ} (hi : i < 32) :
    (shiftName s (c :: cs)).getLsbD i =
      ((decide (s ≤ i) && (charBits c).getLsbD (i - s)) || (shiftName (s + 8) cs).getLsbD i) := by
  rw [shiftName, BitVec.getLsbD_or, BitVec.getLsbD_shiftLeft]
  simp only [hi, decide_true, Bool.true_and, ← Nat.not_lt, decide_not]

/-- There is nothing below the first character. -/
theorem getLsbD_shiftName_of_lt {s i : ℕ} (cs : List UInt8) (h : i < s) :
    (shiftName s cs).getLsbD i = false := by
  induction cs generalizing s with
  | nil => simp [shiftName]
  | cons c cs ih =>
    rw [shiftName, BitVec.getLsbD_or, BitVec.getLsbD_shiftLeft, ih (by omega)]
    simp [h]

/-- The bits of a character are there, whatever comes before it and after it. -/
theorem getLsbD_shiftName_of_char {s k j : ℕ} {cs : List UInt8} (hk : k < cs.length) (hj : j < 8)
    (hi : s + 8 * k + j < 32) (h : cs[k].toBitVec.getLsbD j = true) :
    (shiftName s cs).getLsbD (s + 8 * k + j) = true := by
  induction cs generalizing s k with
  | nil => cases hk
  | cons c cs ih =>
    rw [getLsbD_shiftName_cons s c cs hi, Bool.or_eq_true]
    cases k with
    | zero =>
      left
      rw [Nat.mul_zero, Nat.add_zero, Nat.add_sub_cancel_left, getLsbD_charBits c (by omega),
        if_pos hj]
      simpa using h
    | succ k =>
      right
      have hbit := ih (s := s + 8) (Nat.lt_of_succ_lt_succ hk) (by omega) h
      rwa [show s + 8 * (k + 1) + j = s + 8 + 8 * k + j by omega]

/-- Behind characters below 128, the bits of a character are just its own. -/
theorem getLsbD_shiftName {s k j : ℕ} {cs : List UInt8} (hj : j < 8) (hi : s + 8 * k + j < 32)
    (h : ∀ c ∈ cs.take k, c < 128) :
    (shiftName s cs).getLsbD (s + 8 * k + j) = (cs.getD k 0).toBitVec.getLsbD j := by
  induction cs generalizing s k with
  | nil => simp [shiftName]
  | cons c cs ih =>
    rw [getLsbD_shiftName_cons s c cs hi]
    cases k with
    | zero =>
      rw [getLsbD_shiftName_of_lt cs (by omega), Nat.mul_zero, Nat.add_zero,
        Nat.add_sub_cancel_left, getLsbD_charBits c (by omega), if_pos hj]
      simp
    | succ k =>
      rw [List.take_succ_cons, List.forall_mem_cons] at h
      have hrest := ih (s := s + 8) (by omega) h.2
      rw [show s + 8 * (k + 1) + j = s + 8 + 8 * k + j by omega] at hi ⊢
      rw [hrest, getLsbD_charBits c (by omega), if_neg (by omega),
        decide_eq_false (UInt8.not_le.2 h.1), Bool.and_false, Bool.false_or]
      simp

/-- A character above 127 sets all the bits above it. -/
theorem getLsbD_shiftName_of_high {s k i : ℕ} {cs : List UInt8} (hk : k < cs.length)
    (h : 128 ≤ cs[k]) (hle : s + 8 * k + 8 ≤ i) (hi : i < 32) :
    (shiftName s cs).getLsbD i = true := by
  induction cs generalizing s k with
  | nil => cases hk
  | cons c cs ih =>
    rw [getLsbD_shiftName_cons s c cs hi, Bool.or_eq_true]
    cases k with
    | zero =>
      left
      rw [getLsbD_charBits c (by omega), if_neg (by omega)]
      simp only [Bool.and_eq_true, decide_eq_true_eq]
      exact ⟨by omega, h⟩
    | succ k => exact .inr (ih (s := s + 8) (Nat.lt_of_succ_lt_succ hk) h (by omega))

/-- What comes behind such a character is lost. -/
theorem shiftName_of_high (s : ℕ) (pre : List UInt8) {c : UInt8} (h : 128 ≤ c) (cs : List UInt8) :
    shiftName s (pre ++ c :: cs) = shiftName s (pre ++ [c]) := by
  induction pre generalizing s with
  | nil =>
    apply BitVec.eq_of_getLsbD_eq
    intro i hi
    rw [List.nil_append, List.nil_append, getLsbD_shiftName_cons s c cs hi,
      getLsbD_shiftName_cons s c [] hi]
    rcases Nat.lt_or_ge i (s + 8) with hlt | hge
    · rw [getLsbD_shiftName_of_lt cs hlt, getLsbD_shiftName_of_lt [] hlt]
    · rw [getLsbD_charBits c (by omega), if_neg (by omega), decide_eq_true h]
      simp [show s ≤ i by omega]
  | cons d pre ih => rw [List.cons_append, List.cons_append, shiftName, shiftName, ih]

/-! ### The characters of a name -/

theorem getLsbD_charAt (name : UInt32) {k j : ℕ} (hj : j < 8) :
    (charAt name k).toBitVec.getLsbD j = name.toBitVec.getLsbD (8 * k + j) := by
  simp [charAt, hj]

/-- Behind characters below 128, a character comes back. -/
theorem charAt_messageName {s : List UInt8} {k : ℕ} (hk : k < 4) (h : ∀ c ∈ s.take k, c < 128) :
    charAt (messageName s) k = s.getD k 0 := by
  apply UInt8.toBitVec_inj.1
  apply BitVec.eq_of_getLsbD_eq
  intro j hj
  rw [getLsbD_charAt _ hj, messageName]
  have hbit := getLsbD_shiftName (s := 0) hj (by omega) h
  rwa [Nat.zero_add] at hbit

theorem charAt_ne_zero {name : UInt32} {k j : ℕ} (hj : j < 8)
    (h : name.toBitVec.getLsbD (8 * k + j) = true) : charAt name k ≠ 0 := by
  intro hzero
  rw [← getLsbD_charAt name hj, hzero] at h
  simp at h

/-- A character other than zero has a bit. -/
theorem exists_getLsbD_of_ne_zero {c : UInt8} (h : c ≠ 0) :
    ∃ j < 8, c.toBitVec.getLsbD j = true := by
  by_contra hnone
  apply h
  apply UInt8.toBitVec_inj.1
  apply BitVec.eq_of_getLsbD_eq
  intro j hj
  simpa using fun hbit => hnone ⟨j, hj, hbit⟩

theorem messageNameToString_of_ne {name : UInt32} (h : charAt name 0 ≠ 0) :
    messageNameToString name =
      charAt name 0 :: [charAt name 1, charAt name 2, charAt name 3].takeWhile (· ≠ 0) := by
  refine if_neg fun hzero => h ?_
  rw [hzero]
  rfl

/-- The string ends at the first zero. -/
theorem messageNameToString_eq {name : UInt32} {s : List UInt8} (h : IsName s)
    (hchars : ∀ k < 4, charAt name k = s.getD k 0) : messageNameToString name = s := by
  obtain ⟨hpos, hle, hmem⟩ := h
  have hne : ∀ {c : UInt8}, c ∈ s → c ≠ 0 := fun hc hzero => hmem (hzero ▸ hc)
  have hfirst : charAt name 0 ≠ 0 := by
    rw [hchars 0 (by decide), List.getD_eq_getElem _ _ hpos]
    exact hne (List.getElem_mem hpos)
  rw [messageNameToString_of_ne hfirst, hchars 0 (by decide), hchars 1 (by decide),
    hchars 2 (by decide), hchars 3 (by decide)]
  -- the strings of one to four characters
  rcases s with - | ⟨a, - | ⟨b, - | ⟨c, - | ⟨d, - | ⟨e, s⟩⟩⟩⟩⟩
  · exact absurd hpos (lt_irrefl 0)
  · rfl
  · simp [hne (c := b)]
  · simp [hne (c := b), hne (c := c)]
  · simp [hne (c := b), hne (c := c), hne (c := d)]
  · simp only [List.length_cons] at hle
    omega

/-- With four characters other than zero, the string has them all. -/
theorem length_messageNameToString {name : UInt32} (h : ∀ k < 4, charAt name k ≠ 0) :
    (messageNameToString name).length = 4 := by
  rw [messageNameToString_of_ne (h 0 (by decide))]
  simp [h 1 (by decide), h 2 (by decide), h 3 (by decide)]

/-! ### The round trip -/

/-- The name comes back from its value, which no other name has. -/
def NameSurvives (s : List UInt8) : Prop :=
  ∃ name, createMessageName s = .ok name ∧ messageNameToString name = s ∧
    ∀ t, IsName t → createMessageName t = .ok name → t = s

theorem createMessageName_of_isName {s : List UInt8} (h : IsName s) :
    createMessageName s = .ok (messageName s) := by
  rw [createMessageName, if_neg (List.ne_nil_of_length_pos h.pos), if_neg (Nat.not_lt.2 h.le)]

theorem messageNameToString_messageName {s : List UInt8} (h : IsName s)
    (hplain : ∀ c ∈ s.take 3, c < 128) : messageNameToString (messageName s) = s := by
  apply messageNameToString_eq h
  intro k hk
  apply charAt_messageName hk
  intro c hc
  exact hplain c (List.take_subset_take_left s (by omega) hc)

/-- Two names with one value have a character above 127 at the same places. -/
theorem plain_of_messageName_eq {s t : List UInt8} (hs : ∀ c ∈ s.take 3, c < 128)
    (heq : messageName t = messageName s) : ∀ c ∈ t.take 3, c < 128 := by
  by_contra hhigh
  obtain ⟨c, hc, hge⟩ : ∃ c ∈ t.take 3, 128 ≤ c := by simpa using hhigh
  obtain ⟨k, hk, rfl⟩ := List.getElem_of_mem hc
  rw [List.length_take] at hk
  rw [List.getElem_take] at hge
  -- its highest bit is set in one value and not in the other
  have hset : (shiftName 0 t).getLsbD (0 + 8 * k + 7) = true := by
    apply getLsbD_shiftName_of_char (by omega) (by decide) (by omega)
    exact (msb_toBitVec t[k]).trans (decide_eq_true hge)
  have hclear : (shiftName 0 s).getLsbD (0 + 8 * k + 7) = false := by
    rw [getLsbD_shiftName (by decide) (by omega) fun c hc =>
      hs c (List.take_subset_take_left s (by omega) hc)]
    refine (msb_toBitVec (s.getD k 0)).trans (decide_eq_false (UInt8.not_le.2 ?_))
    rcases Nat.lt_or_ge k s.length with hlt | hge'
    · rw [List.getD_eq_getElem _ _ hlt]
      exact hs _ (List.mem_take_iff_getElem.2 ⟨k, by omega, rfl⟩)
    · rw [List.getD_eq_default _ _ hge']
      decide
  rw [messageName, messageName, UInt32.ofBitVec.injEq] at heq
  rw [heq, hclear] at hset
  cases hset

/-- A character above 127 among the first three. -/
theorem not_survives_of_high {s : List UInt8} (h : IsName s) {k : ℕ} (hk : k < 3)
    (hlt : k < s.length) (hhigh : 128 ≤ s[k]) : ¬ NameSurvives s := by
  rintro ⟨name, hname, hback, hinj⟩
  rw [createMessageName_of_isName h] at hname
  cases hname
  -- the name that ends with that character has the same value
  have hsplit : s = s.take k ++ s[k] :: s.drop (k + 1) := by
    rw [List.cons_getElem_drop_succ, List.take_append_drop]
  have hend : s.take (k + 1) = s.take k ++ [s[k]] := List.take_succ_eq_append_getElem hlt
  have hshort : IsName (s.take (k + 1)) := by
    refine ⟨?_, ?_, fun hmem => h.not_mem (List.mem_of_mem_take hmem)⟩
    · rw [List.length_take]
      omega
    · rw [List.length_take]
      omega
  have hvalue : messageName (s.take (k + 1)) = messageName s := by
    rw [messageName, messageName, hend, ← shiftName_of_high 0 _ hhigh (s.drop (k + 1)), ← hsplit]
  have hlen : s.length ≤ 3 := by
    have heq := hinj _ hshort (by rw [createMessageName_of_isName hshort, hvalue])
    have hlen := congrArg List.length heq
    rw [List.length_take] at hlen
    omega
  -- but the characters behind it are filled with ones
  have hfour : (messageNameToString (messageName s)).length = 4 := by
    apply length_messageNameToString
    intro i hi
    rcases Nat.lt_or_ge k i with hki | hik
    · apply charAt_ne_zero (j := 0) (by decide)
      exact getLsbD_shiftName_of_high hlt hhigh (by omega) (by omega)
    · have hne : s[i] ≠ 0 := fun hzero => h.not_mem (hzero ▸ List.getElem_mem _)
      obtain ⟨j, hj, hbit⟩ := exists_getLsbD_of_ne_zero hne
      apply charAt_ne_zero hj
      have hset := getLsbD_shiftName_of_char (s := 0) (by omega) hj (by omega) hbit
      rwa [Nat.zero_add] at hset
  rw [hback] at hfour
  omega

/-- **A name survives exactly when its first three characters are below 128.** -/
theorem nameSurvives_iff {s : List UInt8} (h : IsName s) :
    NameSurvives s ↔ ∀ c ∈ s.take 3, c < 128 := by
  constructor
  · intro hsurvives
    by_contra hhigh
    obtain ⟨c, hc, hge⟩ : ∃ c ∈ s.take 3, 128 ≤ c := by simpa using hhigh
    obtain ⟨k, hk, rfl⟩ := List.getElem_of_mem hc
    rw [List.length_take] at hk
    rw [List.getElem_take] at hge
    exact not_survives_of_high h (by omega) (by omega) hge hsurvives
  · intro hplain
    refine ⟨_, createMessageName_of_isName h, messageNameToString_messageName h hplain, ?_⟩
    intro t ht heq
    rw [createMessageName_of_isName ht, Except.ok.injEq] at heq
    rw [← messageNameToString_messageName ht (plain_of_messageName_eq hplain heq), heq,
      messageNameToString_messageName h hplain]

theorem nameSurvives_ping : NameSurvives [80, 73, 78, 71] :=
  (nameSurvives_iff ⟨by decide, by decide, by decide⟩).2 (by simp)

/-- A name with a character above 127 comes back with three more. -/
theorem name_high_not_survives :
    IsName [200] ∧ createMessageName [200] = .ok 0xFFFFFFC8 ∧
    messageNameToString 0xFFFFFFC8 = [200, 255, 255, 255] ∧ ¬ NameSurvives [200] := by
  have hname : createMessageName [200] = .ok 0xFFFFFFC8 := by decide
  have hback : messageNameToString 0xFFFFFFC8 = [200, 255, 255, 255] := by decide
  refine ⟨⟨by decide, by decide, by decide⟩, hname, hback, ?_⟩
  rintro ⟨name, hcreate, hstring, -⟩
  rw [hname] at hcreate
  cases hcreate
  rw [hback] at hstring
  cases hstring

end BinaryMessage

end Prinbee
