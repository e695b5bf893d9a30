import Mathlib.Data.Nat.Digits.Lemmas
import Mathlib.Data.Nat.Bitwise
import Mathlib.Data.Nat.Size
import Mathlib.Tactic.Ring
import Mathlib.Tactic.Linarith

/-!
# Numbers as lists of limbs

A number of a fixed size is a list of digits in a base, the least significant one first; its
value is `Nat.ofDigits`.  The algorithms here are those of a machine without a wider type: one
pass over the limbs, with a carry, a borrow or the bits that leave a limb.

## Main definitions

* `Limbs.Fits b n l` — `n` digits in base `b`.
* `Limbs.add`, `Limbs.sub` — addition and subtraction modulo the size.
* `Limbs.cmp` — comparison, from the most significant limb.
* `Limbs.shiftLeft`, `Limbs.shiftRight` — shifts by less than a limb.
* `Limbs.digits b n v` — the `n` low digits of a number.

## Main results

* `Limbs.ofDigits_add`, `Limbs.ofDigits_sub`, `Limbs.cmp_eq`, `Limbs.ofDigits_shiftLeft`,
  `Limbs.ofDigits_shiftRight` — each algorithm does what it is named after.
-/

namespace Limbs

open Nat (ofDigits)

/-- `n` digits in base `b`. -/
structure Fits (b n : ℕ) (l : List ℕ) : Prop where
  length : l.length = n
  lt : ∀ x ∈ l, x < b

variable {b n : ℕ} {l l' : List ℕ}

theorem fits_nil : Fits b 0 [] := ⟨rfl, by simp⟩

theorem Fits.cons {x : ℕ} (hx : x < b) (h : Fits b n l) : Fits b (n + 1) (x :: l) := by
  refine ⟨by rw [List.length_cons, h.length], fun y hy => ?_⟩
  rcases List.mem_cons.1 hy with rfl | hy
  · exact hx
  · exact h.lt y hy

theorem Fits.of_cons {x : ℕ} (h : Fits b (n + 1) (x :: l)) : x < b ∧ Fits b n l :=
  ⟨h.lt x (by simp), by simpa using h.length, fun y hy => h.lt y (by simp [hy])⟩

theorem Fits.append {n' : ℕ} (h : Fits b n l) (h' : Fits b n' l') : Fits b (n + n') (l ++ l') := by
  refine ⟨by rw [List.length_append, h.length, h'.length], fun x hx => ?_⟩
  rcases List.mem_append.1 hx with hx | hx
  · exact h.lt x hx
  · exact h'.lt x hx

theorem Fits.pos {x : ℕ} (h : Fits b n l) (hx : x ∈ l) : 0 < b := (Nat.zero_le x).trans_lt (h.lt x hx)

theorem Fits.take {k : ℕ} (hk : k ≤ n) (h : Fits b n l) : Fits b k (l.take k) :=
  ⟨by rw [List.length_take, h.length, Nat.min_eq_left hk], fun x hx => h.lt x (List.mem_of_mem_take hx)⟩

theorem Fits.drop (k : ℕ) (h : Fits b n l) : Fits b (n - k) (l.drop k) :=
  ⟨by rw [List.length_drop, h.length], fun x hx => h.lt x (List.mem_of_mem_drop hx)⟩

theorem fits_replicate {x : ℕ} (hx : x < b) (n : ℕ) : Fits b n (List.replicate n x) :=
  ⟨List.length_replicate, fun y hy => by rw [List.eq_of_mem_replicate hy]; exact hx⟩

/-- The value of `n` digits is lower than the `n`th power of the base. -/
theorem Fits.ofDigits_lt (hb : 1 < b) (h : Fits b n l) : ofDigits b l < b ^ n :=
  h.length ▸ Nat.ofDigits_lt_base_pow_length hb h.lt

/-- The first digits are a remainder. -/
theorem Fits.ofDigits_take (hb : 1 < b) {k : ℕ} (hk : k ≤ n) (h : Fits b n l) :
    ofDigits b (l.take k) = ofDigits b l % b ^ k := by
  have htake := h.take hk
  conv_rhs => rw [← List.take_append_drop k l]
  rw [Nat.ofDigits_append, htake.length, Nat.add_mul_mod_self_left,
    Nat.mod_eq_of_lt (htake.ofDigits_lt hb)]

/-- The other digits are a quotient. -/
theorem Fits.ofDigits_drop (hb : 1 < b) {k : ℕ} (hk : k ≤ n) (h : Fits b n l) :
    ofDigits b (l.drop k) = ofDigits b l / b ^ k := by
  have htake := h.take hk
  conv_rhs => rw [← List.take_append_drop k l]
  rw [Nat.ofDigits_append, htake.length, Nat.add_mul_div_left _ _ (Nat.pow_pos (by omega)),
    Nat.div_eq_of_lt (htake.ofDigits_lt hb), Nat.zero_add]

/-- Digits that are all the greatest one are one less than a power. -/
theorem ofDigits_replicate_top (hb : 0 < b) (n : ℕ) :
    ofDigits b (List.replicate n (b - 1)) = b ^ n - 1 := by
  induction n with
  | zero => rfl
  | succ n ih =>
    have hpow : 0 < b ^ n := Nat.pow_pos hb
    rw [List.replicate_succ, Nat.ofDigits_cons, ih, Nat.pow_succ, Nat.mul_sub, Nat.mul_one,
      Nat.mul_comm b]
    have : b ≤ b ^ n * b := Nat.le_mul_of_pos_left b hpow
    omega

/-- The digits are told by the value. -/
theorem Fits.eq_of_ofDigits_eq (hb : 1 < b) (h : Fits b n l) (h' : Fits b n l')
    (heq : ofDigits b l = ofDigits b l') : l = l' :=
  Nat.ofDigits_inj_of_len_eq hb (h.length.trans h'.length.symm) h.lt h'.lt heq

/-! ### Addition and subtraction -/

/-- Addition with a carry; the last carry is lost. -/
def add (b : ℕ) : ℕ → List ℕ → List ℕ → List ℕ
  | c, x :: xs, y :: ys => (x + y + c) % b :: add b ((x + y + c) / b) xs ys
  | _, _, _ => []

theorem fits_add (hb : 0 < b) (c : ℕ) (h : Fits b n l) (h' : Fits b n l') :
    Fits b n (add b c l l') := by
  induction n generalizing c l l' with
  | zero =>
    rw [List.length_eq_zero_iff.1 h.length]
    exact fits_nil
  | succ n ih =>
    cases l with
    | nil => exact absurd h.length (by simp)
    | cons x xs =>
      cases l' with
      | nil => exact absurd h'.length (by simp)
      | cons y ys => exact .cons (Nat.mod_lt _ hb) (ih _ h.of_cons.2 h'.of_cons.2)

/-- **Addition** modulo the size. -/
theorem ofDigits_add (hb : 0 < b) (c : ℕ) (h : Fits b n l) (h' : Fits b n l') :
    ofDigits b (add b c l l') = (ofDigits b l + ofDigits b l' + c) % b ^ n := by
  induction n generalizing c l l' with
  | zero =>
    rw [List.length_eq_zero_iff.1 h.length]
    simp [add, Nat.mod_one]
  | succ n ih =>
    cases l with
    | nil => exact absurd h.length (by simp)
    | cons x xs =>
      cases l' with
      | nil => exact absurd h'.length (by simp)
      | cons y ys =>
        have htail := ih ((x + y + c) / b) h.of_cons.2 h'.of_cons.2
        rw [add, Nat.ofDigits_cons, Nat.ofDigits_cons, Nat.ofDigits_cons, htail]
        -- the carry is what the first limb does not keep
        have hsum : x + b * ofDigits b xs + (y + b * ofDigits b ys) + c =
            x + y + c + b * (ofDigits b xs + ofDigits b ys) := by ring
        rw [hsum, Nat.pow_succ', Nat.mod_mul, Nat.add_mul_mod_self_left,
          Nat.add_mul_div_left _ _ hb, Nat.add_comm ((x + y + c) / b)]

/-- Subtraction with a borrow; the last borrow is lost. -/
def sub (b : ℕ) : ℕ → List ℕ → List ℕ → List ℕ
  | c, x :: xs, y :: ys => (x + b - y - c) % b :: sub b (if x < y + c then 1 else 0) xs ys
  | _, _, _ => []

theorem fits_sub (hb : 0 < b) (c : ℕ) (h : Fits b n l) (h' : Fits b n l') :
    Fits b n (sub b c l l') := by
  induction n generalizing c l l' with
  | zero =>
    rw [List.length_eq_zero_iff.1 h.length]
    exact fits_nil
  | succ n ih =>
    cases l with
    | nil => exact absurd h.length (by simp)
    | cons x xs =>
      cases l' with
      | nil => exact absurd h'.length (by simp)
      | cons y ys => exact .cons (Nat.mod_lt _ hb) (ih _ h.of_cons.2 h'.of_cons.2)

/-- One limb of a subtraction. -/
theorem sub_limb {x y c : ℕ} (hx : x < b) (hy : y < b) (hc : c ≤ 1) :
    (x + b - y - c) % b + y + c = x + b * (if x < y + c then 1 else 0) := by
  split
  · rw [Nat.mod_eq_of_lt (by omega)]
    omega
  · rw [show x + b - y - c = x - y - c + b by omega, Nat.add_mod_right,
      Nat.mod_eq_of_lt (by omega)]
    omega

theorem sub_borrow {c : ℕ} (hc : c ≤ 1) (h : Fits b n l) (h' : Fits b n l') :
    ∃ k ≤ 1, ofDigits b (sub b c l l') + ofDigits b l' + c = ofDigits b l + b ^ n * k := by
  induction n generalizing c l l' with
  | zero =>
    rw [List.length_eq_zero_iff.1 h.length, List.length_eq_zero_iff.1 h'.length]
    exact ⟨c, hc, by simp [sub]⟩
  | succ n ih =>
    cases l with
    | nil => exact absurd h.length (by simp)
    | cons x xs =>
      cases l' with
      | nil => exact absurd h'.length (by simp)
      | cons y ys =>
        have hlimb := sub_limb h.of_cons.1 h'.of_cons.1 hc
        rw [sub]
        generalize (x + b - y - c) % b = d at hlimb ⊢
        have hbit : (if x < y + c then 1 else 0) ≤ 1 := by split <;> omega
        generalize (if x < y + c then 1 else 0) = k at hlimb hbit ⊢
        obtain ⟨k', hk', htail⟩ := ih hbit h.of_cons.2 h'.of_cons.2
        refine ⟨k', hk', ?_⟩
        rw [Nat.ofDigits_cons, Nat.ofDigits_cons, Nat.ofDigits_cons, Nat.pow_succ']
        calc d + b * ofDigits b (sub b k xs ys) + (y + b * ofDigits b ys) + c
            = (d + y + c) + b * (ofDigits b (sub b k xs ys) + ofDigits b ys) := by ring
          _ = x + b * (ofDigits b (sub b k xs ys) + ofDigits b ys + k) := by rw [hlimb]; ring
          _ = x + b * (ofDigits b xs + b ^ n * k') := by rw [htail]
          _ = x + b * ofDigits b xs + b * b ^ n * k' := by ring

/-- **Subtraction** modulo the size. -/
theorem ofDigits_sub (hb : 1 < b) (h : Fits b n l) (h' : Fits b n l') :
    ofDigits b (sub b 0 l l') = (ofDigits b l + b ^ n - ofDigits b l') % b ^ n := by
  obtain ⟨k, hk, heq⟩ := sub_borrow (Nat.zero_le 1) h h'
  have hlt := (fits_sub (by omega) 0 h h').ofDigits_lt hb
  have hl := h.ofDigits_lt hb
  have hl' := h'.ofDigits_lt hb
  rcases Nat.le_one_iff_eq_zero_or_eq_one.1 hk with rfl | rfl
  · rw [show ofDigits b l + b ^ n - ofDigits b l' = ofDigits b (sub b 0 l l') + b ^ n by omega,
      Nat.add_mod_right, Nat.mod_eq_of_lt hlt]
  · rw [show ofDigits b l + b ^ n - ofDigits b l' = ofDigits b (sub b 0 l l') by omega,
      Nat.mod_eq_of_lt hlt]

/-! ### Comparison -/

/-- Comparison: the most significant limbs that differ decide. -/
def cmp : List ℕ → List ℕ → Ordering
  | x :: xs, y :: ys => (cmp xs ys).then (compare x y)
  | _, _ => .eq

/-- **Comparison** is the order of the values. -/
theorem cmp_eq (h : Fits b n l) (h' : Fits b n l') :
    cmp l l' = compare (ofDigits b l) (ofDigits b l') := by
  induction n generalizing l l' with
  | zero =>
    rw [List.length_eq_zero_iff.1 h.length, List.length_eq_zero_iff.1 h'.length]
    rfl
  | succ n ih =>
    cases l with
    | nil => exact absurd h.length (by simp)
    | cons x xs =>
      cases l' with
      | nil => exact absurd h'.length (by simp)
      | cons y ys =>
        have hx := h.of_cons.1
        have hy := h'.of_cons.1
        rw [cmp, ih h.of_cons.2 h'.of_cons.2, Nat.ofDigits_cons, Nat.ofDigits_cons]
        rcases Nat.lt_trichotomy (ofDigits b xs) (ofDigits b ys) with hlt | heq | hgt
        · have hle : b * (ofDigits b xs + 1) ≤ b * ofDigits b ys := Nat.mul_le_mul_left b hlt
          have hval : x + b * ofDigits b xs < y + b * ofDigits b ys := by linarith
          rw [Nat.compare_eq_lt.2 hlt, Nat.compare_eq_lt.2 hval]
          rfl
        · have hsame : Ordering.eq.then (compare x y) = compare x y := rfl
          rw [heq, Nat.compare_eq_eq.2 rfl, hsame, Nat.compare_eq_ite_lt, Nat.compare_eq_ite_lt]
          simp
        · have hle : b * (ofDigits b ys + 1) ≤ b * ofDigits b xs := Nat.mul_le_mul_left b hgt
          have hval : y + b * ofDigits b ys < x + b * ofDigits b xs := by linarith
          rw [Nat.compare_eq_gt.2 hgt, Nat.compare_eq_gt.2 hval]
          rfl

/-! ### Shifts -/

variable {w s : ℕ}

/-- A number shifted left, with the bits that come from below. -/
theorem shiftLeft_or (hs : s ≤ w) {x e : ℕ} (he : e < 2 ^ s) :
    (x <<< s) % 2 ^ w ||| e = (x * 2 ^ s + e) % 2 ^ w ∧
      x >>> (w - s) = (x * 2 ^ s + e) / 2 ^ w := by
  have hpow : 2 ^ w = 2 ^ (w - s) * 2 ^ s := by rw [← Nat.pow_add, Nat.sub_add_cancel hs]
  have hdiv : (x * 2 ^ s + e) / 2 ^ s = x := by
    rw [Nat.mul_comm, Nat.mul_add_div (Nat.two_pow_pos s), Nat.div_eq_of_lt he, Nat.add_zero]
  have hmod : (x * 2 ^ s + e) % 2 ^ s = e := by
    rw [Nat.mul_comm, Nat.mul_add_mod, Nat.mod_eq_of_lt he]
  constructor
  · rw [Nat.shiftLeft_eq, hpow, Nat.mul_mod_mul_right, ← Nat.shiftLeft_eq,
      ← Nat.shiftLeft_add_eq_or_of_lt he, Nat.mul_comm (2 ^ (w - s)), Nat.mod_mul, hdiv, hmod,
      Nat.shiftLeft_eq]
    ring
  · rw [Nat.shiftRight_eq_div_pow, hpow, Nat.mul_comm (2 ^ (w - s)), ← Nat.div_div_eq_div_mul,
      hdiv]

theorem shiftRight_lt (hs : s ≤ w) {x : ℕ} (hx : x < 2 ^ w) : x >>> (w - s) < 2 ^ s := by
  rw [Nat.shiftRight_eq_div_pow]
  refine Nat.div_lt_of_lt_mul ?_
  rw [← Nat.pow_add, Nat.sub_add_cancel hs]
  exact hx

/-- All the limbs shifted left, from the least significant one; `e` comes in from below and what
leaves the last limb is lost. -/
def shiftLeft (w s : ℕ) : ℕ → List ℕ → List ℕ
  | e, x :: xs => ((x <<< s) % 2 ^ w ||| e) :: shiftLeft w s (x >>> (w - s)) xs
  | _, [] => []

theorem fits_shiftLeft (hs : s ≤ w) {e : ℕ} (he : e < 2 ^ s) (h : Fits (2 ^ w) n l) :
    Fits (2 ^ w) n (shiftLeft w s e l) := by
  induction n generalizing e l with
  | zero =>
    rw [List.length_eq_zero_iff.1 h.length]
    exact fits_nil
  | succ n ih =>
    cases l with
    | nil => exact absurd h.length (by simp)
    | cons x xs =>
      obtain ⟨hlow, -⟩ := shiftLeft_or hs he (x := x)
      have hhigh : x >>> (w - s) < 2 ^ s := shiftRight_lt hs h.of_cons.1
      exact .cons (hlow ▸ Nat.mod_lt _ (Nat.two_pow_pos w)) (ih hhigh h.of_cons.2)

/-- **A left shift** multiplies, modulo the size. -/
theorem ofDigits_shiftLeft (hs : s ≤ w) {e : ℕ} (he : e < 2 ^ s) (h : Fits (2 ^ w) n l) :
    ofDigits (2 ^ w) (shiftLeft w s e l) = (ofDigits (2 ^ w) l * 2 ^ s + e) % (2 ^ w) ^ n := by
  induction n generalizing e l with
  | zero =>
    rw [List.length_eq_zero_iff.1 h.length]
    simp [shiftLeft, Nat.mod_one]
  | succ n ih =>
    cases l with
    | nil => exact absurd h.length (by simp)
    | cons x xs =>
      obtain ⟨hlow, hhigh⟩ := shiftLeft_or hs he (x := x)
      have hlt : x >>> (w - s) < 2 ^ s := shiftRight_lt hs h.of_cons.1
      have hsum : (x + 2 ^ w * ofDigits (2 ^ w) xs) * 2 ^ s + e =
          x * 2 ^ s + e + 2 ^ w * (ofDigits (2 ^ w) xs * 2 ^ s) := by ring
      rw [shiftLeft, Nat.ofDigits_cons, Nat.ofDigits_cons, ih hlt h.of_cons.2, hlow, hhigh, hsum,
        Nat.pow_succ', Nat.mod_mul, Nat.add_mul_mod_self_left,
        Nat.add_mul_div_left _ _ (Nat.two_pow_pos w), Nat.add_comm ((x * 2 ^ s + e) / 2 ^ w)]

/-- All the limbs shifted right, from the most significant one: the limbs, and the bits that
leave the least significant one, at the top of a limb. -/
def shiftRightAux (w s : ℕ) (l : List ℕ) : List ℕ × ℕ :=
  l.foldr (fun x r => ((x >>> s ||| r.2) :: r.1, (x <<< (w - s)) % 2 ^ w)) ([], 0)

/-- The limbs shifted right; what leaves the first limb is lost. -/
def shiftRight (w s : ℕ) (l : List ℕ) : List ℕ := (shiftRightAux w s l).1

theorem shiftRight_cons (x : ℕ) (xs : List ℕ) :
    shiftRight w s (x :: xs) = (x >>> s ||| (shiftRightAux w s xs).2) :: shiftRight w s xs := rfl

theorem shiftRightAux_snd (hs : s ≤ w) (l : List ℕ) :
    (shiftRightAux w s l).2 = ofDigits (2 ^ w) l % 2 ^ s * 2 ^ (w - s) := by
  have hpow : 2 ^ w = 2 ^ s * 2 ^ (w - s) := by rw [← Nat.pow_add, Nat.add_sub_cancel' hs]
  cases l with
  | nil => simp [shiftRightAux]
  | cons x xs =>
    have hval : (shiftRightAux w s (x :: xs)).2 = (x <<< (w - s)) % 2 ^ w := rfl
    rw [hval, Nat.shiftLeft_eq, Nat.ofDigits_cons, hpow, Nat.mul_mod_mul_right, Nat.mul_assoc,
      Nat.add_mul_mod_self_left]

/-- The two parts of a limb shifted right. -/
theorem shiftRight_limb (hs : s ≤ w) {x v : ℕ} (hx : x < 2 ^ w) :
    (x >>> s ||| v % 2 ^ s * 2 ^ (w - s)) + 2 ^ w * (v / 2 ^ s) = (x + 2 ^ w * v) / 2 ^ s ∧
      (x >>> s ||| v % 2 ^ s * 2 ^ (w - s)) < 2 ^ w := by
  have hpow : 2 ^ w = 2 ^ s * 2 ^ (w - s) := by rw [← Nat.pow_add, Nat.add_sub_cancel' hs]
  have hlow : x >>> s < 2 ^ (w - s) := by
    rw [Nat.shiftRight_eq_div_pow]
    exact Nat.div_lt_of_lt_mul (hpow ▸ hx)
  have hor : (x >>> s ||| v % 2 ^ s * 2 ^ (w - s)) = v % 2 ^ s * 2 ^ (w - s) + x >>> s := by
    rw [Nat.lor_comm, ← Nat.shiftLeft_eq, Nat.shiftLeft_add_eq_or_of_lt hlow]
  rw [hor]
  constructor
  · have hsplit := Nat.div_add_mod v (2 ^ s)
    rw [Nat.shiftRight_eq_div_pow, hpow, Nat.mul_assoc (2 ^ s) _ v,
      Nat.add_mul_div_left _ _ (Nat.two_pow_pos s)]
    calc v % 2 ^ s * 2 ^ (w - s) + x / 2 ^ s + 2 ^ s * 2 ^ (w - s) * (v / 2 ^ s)
        = x / 2 ^ s + 2 ^ (w - s) * (2 ^ s * (v / 2 ^ s) + v % 2 ^ s) := by ring
      _ = x / 2 ^ s + 2 ^ (w - s) * v := by rw [hsplit]
  · have hmod : v % 2 ^ s + 1 ≤ 2 ^ s := Nat.mod_lt _ (Nat.two_pow_pos s)
    calc v % 2 ^ s * 2 ^ (w - s) + x >>> s < v % 2 ^ s * 2 ^ (w - s) + 2 ^ (w - s) := by omega
      _ = (v % 2 ^ s + 1) * 2 ^ (w - s) := by ring
      _ ≤ 2 ^ s * 2 ^ (w - s) := Nat.mul_le_mul_right _ hmod
      _ = 2 ^ w := hpow.symm

theorem fits_shiftRight (hs : s ≤ w) (h : Fits (2 ^ w) n l) :
    Fits (2 ^ w) n (shiftRight w s l) := by
  induction n generalizing l with
  | zero =>
    rw [List.length_eq_zero_iff.1 h.length]
    exact fits_nil
  | succ n ih =>
    cases l with
    | nil => exact absurd h.length (by simp)
    | cons x xs =>
      rw [shiftRight_cons, shiftRightAux_snd hs]
      exact .cons (shiftRight_limb hs h.of_cons.1).2 (ih h.of_cons.2)

/-- **A right shift** divides. -/
theorem ofDigits_shiftRight (hs : s ≤ w) (h : Fits (2 ^ w) n l) :
    ofDigits (2 ^ w) (shiftRight w s l) = ofDigits (2 ^ w) l / 2 ^ s := by
  induction n generalizing l with
  | zero =>
    rw [List.length_eq_zero_iff.1 h.length]
    simp [shiftRight, shiftRightAux]
  | succ n ih =>
    cases l with
    | nil => exact absurd h.length (by simp)
    | cons x xs =>
      rw [shiftRight_cons, shiftRightAux_snd hs, Nat.ofDigits_cons, Nat.ofDigits_cons,
        ih h.of_cons.2, (shiftRight_limb hs h.of_cons.1).1]

/-! ### The number of bits -/

/-- The number of bits, looked for from the most significant limb; `k` is the number of bits of
the limbs that are left. -/
def sizeFrom (w : ℕ) : List ℕ → ℕ → ℕ
  | x :: xs, k => if x ≠ 0 then x.size + (k - w) else sizeFrom w xs (k - w)
  | [], _ => 0

theorem size_add_mul {m x a : ℕ} (ha : a < 2 ^ m) (hx : x ≠ 0) :
    (a + 2 ^ m * x).size = x.size + m := by
  apply Nat.le_antisymm
  · rw [Nat.size_le, Nat.pow_add]
    have hlt : x + 1 ≤ 2 ^ x.size := Nat.lt_size_self x
    calc a + 2 ^ m * x < 2 ^ m + 2 ^ m * x := by omega
      _ = (x + 1) * 2 ^ m := by ring
      _ ≤ 2 ^ x.size * 2 ^ m := Nat.mul_le_mul_right _ hlt
  · obtain ⟨k, hk⟩ := Nat.exists_eq_succ_of_ne_zero (Nat.size_eq_zero.not.2 hx)
    rw [hk, Nat.succ_add, Nat.succ_le_iff, Nat.lt_size, Nat.pow_add]
    have hle : 2 ^ k ≤ x := Nat.lt_size.1 (by omega)
    calc 2 ^ k * 2 ^ m ≤ x * 2 ^ m := Nat.mul_le_mul_right _ hle
      _ ≤ a + 2 ^ m * x := by rw [Nat.mul_comm]; omega

/-- **The number of bits** of the value. -/
theorem sizeFrom_eq (h : Fits (2 ^ w) n l) :
    sizeFrom w l (n * w) = (ofDigits (2 ^ w) l.reverse).size := by
  induction l generalizing n with
  | nil => simp [sizeFrom]
  | cons x xs ih =>
    obtain ⟨n, rfl⟩ : ∃ m, n = m + 1 := ⟨xs.length, by rw [← h.length]; rfl⟩
    obtain ⟨hx, hxs⟩ := h.of_cons
    have hsub : (n + 1) * w - w = n * w := by rw [Nat.succ_mul, Nat.add_sub_cancel]
    have hrev : Fits (2 ^ w) n xs.reverse :=
      ⟨by rw [List.length_reverse, hxs.length], fun y hy => hxs.lt y (List.mem_reverse.1 hy)⟩
    rw [sizeFrom, hsub, ih hxs, List.reverse_cons, Nat.ofDigits_append, hrev.length,
      Nat.ofDigits_singleton]
    split
    · rename_i hne
      have hw : 1 < 2 ^ w := by omega
      have hlt := hrev.ofDigits_lt hw
      rw [← Nat.pow_mul, Nat.mul_comm w n] at hlt ⊢
      rw [size_add_mul hlt hne]
    · rename_i hz
      rw [not_not.1 hz, Nat.mul_zero, Nat.add_zero]

/-! ### Digits of a number, and of its parts -/

/-- The `n` low digits of a number. -/
def digits (b : ℕ) : ℕ → ℕ → List ℕ
  | 0, _ => []
  | n + 1, v => v % b :: digits b n (v / b)

theorem fits_digits (hb : 0 < b) (n v : ℕ) : Fits b n (digits b n v) := by
  induction n generalizing v with
  | zero => exact fits_nil
  | succ n ih => exact .cons (Nat.mod_lt _ hb) (ih _)

theorem ofDigits_digits (n v : ℕ) : ofDigits b (digits b n v) = v % b ^ n := by
  induction n generalizing v with
  | zero => simp [digits, Nat.mod_one]
  | succ n ih => rw [digits, Nat.ofDigits_cons, ih, Nat.pow_succ', Nat.mod_mul]

/-- The digits of a number of `n` digits are that number. -/
theorem digits_ofDigits (hb : 1 < b) (h : Fits b n l) : digits b n (ofDigits b l) = l := by
  refine (fits_digits (by omega) n _).eq_of_ofDigits_eq hb h ?_
  rw [ofDigits_digits, Nat.mod_eq_of_lt (h.ofDigits_lt hb)]

theorem take_digits {k : ℕ} (h : k ≤ n) (v : ℕ) : (digits b n v).take k = digits b k v := by
  induction k generalizing n v with
  | zero => rfl
  | succ k ih =>
    obtain ⟨n, rfl⟩ : ∃ m, n = m + 1 := ⟨n - 1, by omega⟩
    rw [digits, digits, List.take_succ_cons, ih (by omega)]

/-- Each limb written with `k` digits of a smaller base. -/
theorem ofDigits_flatMap {k : ℕ} (h : Fits (b ^ k) n l) :
    ofDigits b (l.flatMap (digits b k)) = ofDigits (b ^ k) l := by
  induction n generalizing l with
  | zero =>
    rw [List.length_eq_zero_iff.1 h.length]
    rfl
  | succ n ih =>
    cases l with
    | nil => exact absurd h.length (by simp)
    | cons x xs =>
      obtain ⟨hx, hxs⟩ := h.of_cons
      have hb : 0 < b ∨ k = 0 := by
        by_contra hne
        rw [not_or] at hne
        rw [show b = 0 by omega, Nat.zero_pow (by omega)] at hx
        omega
      rw [List.flatMap_cons, Nat.ofDigits_append, ih hxs, ofDigits_digits, Nat.mod_eq_of_lt hx,
        Nat.ofDigits_cons]
      rcases hb with hb | rfl
      · rw [(fits_digits hb k x).length]
      · simp [digits]

/-- Digits of a small base read `k` at a time: `n` limbs of a larger base. -/
def group (b k : ℕ) : ℕ → List ℕ → List ℕ
  | 0, _ => []
  | n + 1, l => ofDigits b (l.take k) :: group b k n (l.drop k)

theorem fits_group {k : ℕ} (hb : 1 < b) (hl : ∀ x ∈ l, x < b) : Fits (b ^ k) n (group b k n l) := by
  induction n generalizing l with
  | zero => exact fits_nil
  | succ n ih =>
    refine .cons ?_ (ih fun x hx => hl x (List.mem_of_mem_drop hx))
    calc ofDigits b (l.take k) < b ^ (l.take k).length :=
          Nat.ofDigits_lt_base_pow_length hb fun x hx => hl x (List.mem_of_mem_take hx)
      _ ≤ b ^ k := Nat.pow_le_pow_right (by omega) (List.length_take_le _ _)

theorem ofDigits_group {k : ℕ} (hlen : l.length ≤ n * k) :
    ofDigits (b ^ k) (group b k n l) = ofDigits b l := by
  induction n generalizing l with
  | zero =>
    rw [Nat.zero_mul, Nat.le_zero] at hlen
    rw [List.length_eq_zero_iff.1 hlen]
    rfl
  | succ n ih =>
    have hdrop : (l.drop k).length ≤ n * k := by
      rw [List.length_drop]
      rw [Nat.succ_mul] at hlen
      omega
    rw [group, Nat.ofDigits_cons, ih hdrop]
    by_cases hk : k ≤ l.length
    · conv_rhs => rw [← List.take_append_drop k l]
      rw [Nat.ofDigits_append, List.length_take, Nat.min_eq_left hk]
    · rw [List.drop_eq_nil_of_le (by omega), List.take_of_length_le (by omega), Nat.ofDigits_nil,
        Nat.mul_zero, Nat.add_zero]

/-! ### Digits from the most significant one -/

/-- Reading digits modulo a number. -/
theorem foldl_mod (b m : ℕ) (ds : List ℕ) (x : ℕ) :
    ds.foldl (fun n d => b * n + d) (x % m) % m = ds.foldl (fun n d => b * n + d) x % m := by
  induction ds generalizing x with
  | nil => exact Nat.mod_mod x m
  | cons d ds ih =>
    rw [List.foldl_cons, List.foldl_cons, ← ih (b * (x % m) + d), ← ih (b * x + d),
      ← Nat.mod_add_mod, Nat.mul_mod_mod, Nat.mod_add_mod]

/-- Reading digits from the most significant one gives their value. -/
theorem foldl_reverse (b : ℕ) (ds : List ℕ) :
    ds.reverse.foldl (fun n d => b * n + d) 0 = ofDigits b ds := by
  rw [Nat.ofDigits_eq_foldr, List.foldl_reverse]
  congr 1
  funext d n
  exact Nat.add_comm _ _

/-- The digits of a number are read as that number. -/
theorem foldl_digits (b n : ℕ) :
    (Nat.digits b n).reverse.foldl (fun n d => b * n + d) 0 = n := by
  rw [foldl_reverse, Nat.ofDigits_digits]

/-! ### Bitwise operations -/

/-- A bitwise operation, limb by limb. -/
theorem fits_zipWith {f : ℕ → ℕ → ℕ} (hf : ∀ x y, x < b → y < b → f x y < b) (h : Fits b n l)
    (h' : Fits b n l') : Fits b n (List.zipWith f l l') := by
  induction l generalizing n l' with
  | nil =>
    have hn : n = 0 := h.length.symm
    subst hn
    exact fits_nil
  | cons x xs ih =>
    cases l' with
    | nil =>
      have hn : n = 0 := h'.length.symm
      subst hn
      exact fits_nil
    | cons y ys =>
      obtain ⟨n, rfl⟩ : ∃ k, n = k + 1 := ⟨xs.length, h.length.symm⟩
      obtain ⟨hx, hxs⟩ := h.of_cons
      obtain ⟨hy, hys⟩ := h'.of_cons
      exact .cons (hf x y hx hy) (ih hxs hys)

/-- **A bitwise operation on the limbs is the operation on the numbers.** -/
theorem ofDigits_zipWith {w : ℕ} {f : ℕ → ℕ → ℕ} {g : Bool → Bool → Bool}
    (hf : ∀ x y i, (f x y).testBit i = g (x.testBit i) (y.testBit i))
    (hlt : ∀ x y, x < 2 ^ w → y < 2 ^ w → f x y < 2 ^ w) (h : Fits (2 ^ w) n l)
    (h' : Fits (2 ^ w) n l') (hg : g false false = false) :
    ofDigits (2 ^ w) (List.zipWith f l l') = f (ofDigits (2 ^ w) l) (ofDigits (2 ^ w) l') := by
  induction l generalizing n l' with
  | nil =>
    have hn : n = 0 := h.length.symm
    subst hn
    obtain rfl := List.length_eq_zero_iff.1 h'.length
    apply Nat.eq_of_testBit_eq
    intro i
    simp [hf, hg]
  | cons x xs ih =>
    cases l' with
    | nil =>
      have hlen := h.length.trans h'.length.symm
      simp at hlen
    | cons y ys =>
      obtain ⟨n, rfl⟩ : ∃ k, n = k + 1 := ⟨xs.length, h.length.symm⟩
      obtain ⟨hx, hxs⟩ := h.of_cons
      obtain ⟨hy, hys⟩ := h'.of_cons
      apply Nat.eq_of_testBit_eq
      intro i
      rw [List.zipWith_cons_cons, Nat.ofDigits_cons, Nat.ofDigits_cons, Nat.ofDigits_cons,
        ih hxs hys, hf]
      simp only [add_comm _ (2 ^ w * _)]
      rw [Nat.testBit_two_pow_mul_add _ (hlt x y hx hy), Nat.testBit_two_pow_mul_add _ hx,
        Nat.testBit_two_pow_mul_add _ hy]
      split
      · rw [hf]
      · rw [hf]

end Limbs
