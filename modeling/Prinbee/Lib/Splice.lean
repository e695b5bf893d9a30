import Mathlib.Data.List.Basic
import Mathlib.Tactic.Common

/-!
# Splicing lists

The four elementary edits of a byte sequence, stated on plain lists: overwriting
a range in place, inserting a range, erasing a range, and moving the tail of the
sequence towards its head.  A data structure that spreads its bytes over several
pieces is verified against these, so most of the lemmas say how an edit of
`l ++ r` falls on `l`, on `r`, or on both.

## Main definitions

* `List.slice l off n` — the `n` items of `l` starting at `off`.
* `List.overwrite l off bs` — `bs` written over `l` at `off`; past the end it appends.
* `List.insertRange l off bs` — `bs` inserted before the item at `off`.
* `List.eraseRange l off n` — `l` without the `n` items at `off`.
* `List.shiftDown l off n x` — everything from `off + n` on moved down to `off`, the
  `n` items freed at the end filled with `x`.
-/

namespace List

variable {α : Type*}

/-- The `n` items starting at `off`; shorter when the list ends before. -/
def slice (l : List α) (off n : ℕ) : List α := (l.drop off).take n

/-- Write `bs` over the items at `off`, growing the list when it ends before. -/
def overwrite (l : List α) (off : ℕ) (bs : List α) : List α :=
  l.take off ++ bs ++ l.drop (off + bs.length)

/-- Insert `bs` before the item at `off`. -/
def insertRange (l : List α) (off : ℕ) (bs : List α) : List α := l.take off ++ bs ++ l.drop off

/-- Remove the `n` items starting at `off`. -/
def eraseRange (l : List α) (off n : ℕ) : List α := l.take off ++ l.drop (off + n)

/-- Move the items from `off + n` on down to `off` and fill the end with `x`. -/
def shiftDown (l : List α) (off n : ℕ) (x : α) : List α :=
  l.take off ++ l.drop (off + n) ++ replicate n x

/-! ### One item -/

theorem getD_set_self {l : List α} {i : ℕ} (h : i < l.length) (a d : α) :
    (l.set i a).getD i d = a := by
  rw [getD_eq_getElem?_getD, getElem?_set_self h, Option.getD_some]

/-- The other items stay what they were. -/
theorem getD_set_ne {i j : ℕ} (h : j ≠ i) (l : List α) (a d : α) :
    (l.set i a).getD j d = l.getD j d := by
  rw [getD_eq_getElem?_getD, getElem?_set_ne h.symm, ← getD_eq_getElem?_getD]

/-! ### Slices -/

@[simp] theorem slice_zero_count (off : ℕ) (l : List α) : l.slice off 0 = [] := by
  simp [slice]

@[simp] theorem slice_nil (off n : ℕ) : ([] : List α).slice off n = [] := by simp [slice]

theorem length_slice (off n : ℕ) (l : List α) :
    (l.slice off n).length = min n (l.length - off) := by simp [slice]

theorem length_slice_of_le {off n : ℕ} {l : List α} (h : off + n ≤ l.length) :
    (l.slice off n).length = n := by rw [length_slice]; omega

/-- A slice that starts past `l` only sees `r`. -/
theorem slice_append_right {l : List α} {off : ℕ} (n : ℕ) (r : List α) (h : l.length ≤ off) :
    (l ++ r).slice off n = r.slice (off - l.length) n := by
  simp [slice, drop_append, drop_eq_nil_of_le h]

/-- A slice that ends inside `l` only sees `l`. -/
theorem slice_append_left {l : List α} {off n : ℕ} (r : List α) (h : off + n ≤ l.length) :
    (l ++ r).slice off n = l.slice off n := by
  rw [slice, slice, drop_append_of_le_length (by omega), take_append_of_le_length]
  rw [length_drop]; omega

/-- The middle one of three pieces. -/
theorem slice_append_middle (a b c : List α) : (a ++ (b ++ c)).slice a.length b.length = b := by
  rw [slice_append_right _ _ (Nat.le_refl _), Nat.sub_self, slice_append_left _ (by omega), slice,
    drop_zero, take_length]

/-- A slice that starts inside `l` and leaves it takes the rest of `l` and the head of `r`. -/
theorem slice_append_span {l : List α} {off n : ℕ} (r : List α) (ho : off ≤ l.length)
    (h : l.length ≤ off + n) :
    (l ++ r).slice off n = l.drop off ++ r.take (off + n - l.length) := by
  rw [slice, drop_append_of_le_length ho, take_append, length_drop,
    take_of_length_le (by rw [length_drop]; omega)]
  congr 2; omega

/-- Two slices, the second right after the first, are one. -/
theorem slice_append_slice (off m n : ℕ) (l : List α) :
    l.slice off m ++ l.slice (off + m) n = l.slice off (m + n) := by
  rw [slice, slice, slice, take_add, drop_drop]

/-- A slice of a slice. -/
theorem slice_slice {off n p m : ℕ} {l : List α} (h : p + m ≤ n) :
    (l.slice off n).slice p m = l.slice (off + p) m := by
  rw [slice, slice, slice, drop_take, drop_drop, take_take, Nat.min_eq_left (by omega)]

/-- A slice inside one of several pieces of the same length. -/
theorem slice_flatten {w i off n : ℕ} {ls : List (List α)} (hw : ∀ l ∈ ls, l.length = w)
    (hi : i < ls.length) (hn : off + n ≤ w) :
    ls.flatten.slice (i * w + off) n = ls[i].slice off n := by
  induction ls generalizing i with
  | nil => exact absurd hi (Nat.not_lt_zero i)
  | cons l ls ih =>
    have hl : l.length = w := hw l mem_cons_self
    rw [flatten_cons]
    cases i with
    | zero =>
      rw [slice_append_left _ (by omega), Nat.zero_mul, Nat.zero_add, getElem_cons_zero]
    | succ i =>
      have hmul : (i + 1) * w = i * w + w := Nat.succ_mul i w
      rw [slice_append_right _ _ (by omega), getElem_cons_succ,
        show (i + 1) * w + off - l.length = i * w + off by omega]
      exact ih (fun l' hl' => hw l' (mem_cons_of_mem l hl')) (Nat.lt_of_succ_lt_succ hi)

theorem length_flatten_of_length {w : ℕ} {ls : List (List α)} (hw : ∀ l ∈ ls, l.length = w) :
    ls.flatten.length = ls.length * w := by
  induction ls with
  | nil => simp
  | cons l ls ih =>
    rw [flatten_cons, length_append, hw l mem_cons_self,
      ih fun l' hl' => hw l' (mem_cons_of_mem l hl'), length_cons, Nat.succ_mul, Nat.add_comm]

/-- What starts at `off` is a slice. -/
theorem slice_of_isPrefix {bs l : List α} {off : ℕ} (h : bs <+: l.drop off) :
    l.slice off bs.length = bs := (prefix_iff_eq_take.1 h).symm

theorem slice_isPrefix (l : List α) (off n : ℕ) : l.slice off n <+: l.drop off :=
  ⟨_, take_append_drop _ _⟩

/-- Two pieces are one after the other. -/
theorem append_prefix_drop {a b l : List α} {off : ℕ} :
    a ++ b <+: l.drop off ↔ a <+: l.drop off ∧ b <+: l.drop (off + a.length) := by
  rw [← drop_drop]
  constructor
  · rintro ⟨r, hr⟩
    rw [← hr]
    refine ⟨⟨b ++ r, by rw [append_assoc]⟩, ⟨r, ?_⟩⟩
    rw [append_assoc, drop_left]
  · rintro ⟨⟨r, hr⟩, hb⟩
    rw [← hr, drop_left] at hb
    rw [← hr]
    exact (prefix_append_right_inj a).2 hb

theorem getElem?_slice (off n i : ℕ) (l : List α) :
    (l.slice off n)[i]? = if i < n then l[off + i]? else none := by
  simp only [slice, getElem?_take, getElem?_drop]

/-! ### Overwriting -/

theorem length_overwrite {off : ℕ} {bs l : List α} (h : off ≤ l.length) :
    (l.overwrite off bs).length = max l.length (off + bs.length) := by
  simp only [overwrite, length_append, length_take, length_drop]; omega

theorem length_overwrite_of_le {off : ℕ} {bs l : List α} (h : off + bs.length ≤ l.length) :
    (l.overwrite off bs).length = l.length := by rw [length_overwrite (by omega)]; omega

@[simp] theorem overwrite_nil {off : ℕ} (l : List α) : l.overwrite off [] = l := by
  simp [overwrite]

/-- Overwriting at the very end appends. -/
theorem overwrite_length (bs l : List α) : l.overwrite l.length bs = l ++ bs := by
  simp [overwrite]

/-- Overwriting past `l` only changes `r`. -/
theorem overwrite_append_right {l : List α} {off : ℕ} (bs r : List α) (h : l.length ≤ off) :
    (l ++ r).overwrite off bs = l ++ r.overwrite (off - l.length) bs := by
  rw [overwrite, overwrite, take_append, take_of_length_le h, drop_append,
    drop_eq_nil_of_le (by omega), nil_append, append_assoc, append_assoc, append_assoc]
  congr 4; omega

/-- Overwriting inside `l` only changes `l`. -/
theorem overwrite_append_left {l bs : List α} {off : ℕ} (r : List α)
    (h : off + bs.length ≤ l.length) :
    (l ++ r).overwrite off bs = l.overwrite off bs ++ r := by
  rw [overwrite, overwrite, take_append_of_le_length (by omega), drop_append_of_le_length h]
  simp only [append_assoc]

/-- Overwriting across the end of `l` splits the bytes: those that fit go over the end of `l`,
the rest over the beginning of `r`. -/
theorem overwrite_append_span {l bs : List α} {off : ℕ} (r : List α) (ho : off ≤ l.length)
    (h : l.length ≤ off + bs.length) :
    (l ++ r).overwrite off bs
      = l.overwrite off (bs.take (l.length - off)) ++ r.overwrite 0 (bs.drop (l.length - off)) := by
  have hl : min (l.length - off) bs.length = l.length - off := by omega
  rw [overwrite, overwrite, overwrite, take_append_of_le_length ho, length_take, hl,
    drop_append, drop_eq_nil_of_le (by omega : l.length ≤ off + bs.length),
    drop_eq_nil_of_le (by omega : l.length ≤ off + (l.length - off)), take_zero, length_drop]
  rw [show off + bs.length - l.length = 0 + (bs.length - (l.length - off)) by omega]
  simp only [append_assoc, nil_append, append_nil]
  rw [← append_assoc (bs.take _), take_append_drop]

/-- Overwriting past the end appends what does not fit. -/
theorem overwrite_eq_append {l bs : List α} {off : ℕ} (ho : off ≤ l.length)
    (h : l.length ≤ off + bs.length) :
    l.overwrite off bs = l.overwrite off (bs.take (l.length - off)) ++ bs.drop (l.length - off) := by
  have hspan := overwrite_append_span [] ho h
  rw [append_nil] at hspan
  rw [hspan]
  simp [overwrite]

/-- Overwriting the middle of three pieces replaces it. -/
theorem overwrite_append_middle {a b b' : List α} (c : List α) (h : b'.length = b.length) :
    (a ++ b ++ c).overwrite a.length b' = a ++ b' ++ c := by
  rw [overwrite, append_assoc a b c, take_left, h, drop_append, drop_eq_nil_of_le (by omega),
    nil_append, Nat.add_sub_cancel_left, drop_left]

/-- Two overwrites, the second right after the first, are one. -/
theorem overwrite_overwrite_adjacent (off : ℕ) (as bs l : List α)
    (h : off + as.length ≤ l.length) :
    (l.overwrite off as).overwrite (off + as.length) bs = l.overwrite off (as ++ bs) := by
  have htake : (l.take off ++ as).length = off + as.length := by
    rw [length_append, length_take]; omega
  rw [overwrite, overwrite, overwrite, ← htake, take_left, htake, drop_append,
    drop_eq_nil_of_le (by omega), htake, drop_drop, length_append]
  simp only [append_assoc, nil_append]
  congr 4; omega

theorem take_overwrite_of_le {off n : ℕ} {bs l : List α} (hn : n ≤ off) (h : off ≤ l.length) :
    (l.overwrite off bs).take n = l.take n := by
  rw [overwrite, append_assoc, take_append_of_le_length (by rw [length_take]; omega), take_take]
  congr 1; omega

/-- What stands after the bytes overwritten is unchanged. -/
theorem drop_overwrite_of_le {off n : ℕ} {bs l : List α} (h : off ≤ l.length)
    (hn : off + bs.length ≤ n) : (l.overwrite off bs).drop n = l.drop n := by
  have hlen : (l.take off ++ bs).length = off + bs.length := by
    rw [length_append, length_take]; omega
  rw [overwrite, drop_append, drop_eq_nil_of_le (by omega), nil_append, drop_drop, hlen]
  congr 1; omega

theorem getElem?_overwrite {off : ℕ} {bs l : List α} (h : off ≤ l.length) (i : ℕ) :
    (l.overwrite off bs)[i]?
      = if i < off then l[i]? else if i < off + bs.length then bs[i - off]? else l[i]? := by
  have hlen : (l.take off).length = off := by rw [length_take]; omega
  rw [overwrite, append_assoc]
  by_cases h₁ : i < off
  · rw [getElem?_append_left (by omega), getElem?_take, if_pos h₁, if_pos h₁]
  · rw [getElem?_append_right (by omega), hlen, if_neg h₁]
    by_cases h₂ : i < off + bs.length
    · rw [getElem?_append_left (by omega), if_pos h₂]
    · rw [getElem?_append_right (by omega), getElem?_drop, if_neg h₂]
      congr 1; omega

/-- A slice apart from the bytes overwritten is unchanged. -/
theorem slice_overwrite_of_disjoint {off p n : ℕ} {bs l : List α} (h : off + bs.length ≤ l.length)
    (hd : p + n ≤ off ∨ off + bs.length ≤ p) : (l.overwrite off bs).slice p n = l.slice p n := by
  apply ext_getElem?
  intro i
  rw [getElem?_slice, getElem?_slice]
  by_cases hi : i < n
  · rw [if_pos hi, if_pos hi, getElem?_overwrite (by omega)]
    split
    · rfl
    · rw [if_neg (by omega)]
  · rw [if_neg hi, if_neg hi]

/-- A slice before the bytes overwritten is unchanged. -/
theorem slice_overwrite_of_le {off p n : ℕ} {bs l : List α} (h : off ≤ l.length)
    (hd : p + n ≤ off) : (l.overwrite off bs).slice p n = l.slice p n := by
  apply ext_getElem?
  intro i
  rw [getElem?_slice, getElem?_slice]
  by_cases hi : i < n
  · rw [if_pos hi, if_pos hi, getElem?_overwrite h, if_pos (by omega)]
  · rw [if_neg hi, if_neg hi]

/-- What was just written is there. -/
theorem slice_overwrite_start {off n : ℕ} {bs l : List α} (h : off ≤ l.length)
    (hn : n ≤ bs.length) : (l.overwrite off bs).slice off n = bs.take n := by
  have hlen : (l.take off).length = off := by rw [length_take]; omega
  rw [overwrite, append_assoc, slice, drop_append_of_le_length (Nat.le_of_eq hlen.symm),
    drop_of_length_le (Nat.le_of_eq hlen), nil_append, take_append_of_le_length hn]

/-- The slice that covers the bytes overwritten is overwritten in the same way. -/
theorem slice_overwrite {off p n : ℕ} {bs l : List α} (hp : p ≤ off)
    (h : off + bs.length ≤ p + n) (hl : p + n ≤ l.length) :
    (l.overwrite off bs).slice p n = (l.slice p n).overwrite (off - p) bs := by
  have hs : (l.slice p n).length = n := length_slice_of_le hl
  apply ext_getElem?
  intro i
  rw [getElem?_slice, getElem?_overwrite (l := l.slice p n) (by omega), getElem?_slice]
  by_cases hi : i < n
  · rw [if_pos hi, if_pos hi, getElem?_overwrite (by omega)]
    by_cases h₁ : i < off - p
    · rw [if_pos h₁, if_pos (by omega)]
    · rw [if_neg h₁, if_neg (by omega)]
      by_cases h₂ : i < off - p + bs.length
      · rw [if_pos h₂, if_pos (by omega)]; congr 1; omega
      · rw [if_neg h₂, if_neg (by omega)]
  · rw [if_neg hi, if_neg hi, if_neg (by omega), if_neg (by omega)]

/-! ### Inserting and erasing -/

theorem length_insertRange (off : ℕ) (bs l : List α) :
    (l.insertRange off bs).length = l.length + bs.length := by
  simp only [insertRange, length_append, length_take, length_drop]; omega

theorem insertRange_length (bs l : List α) : l.insertRange l.length bs = l ++ bs := by
  simp [insertRange]

theorem insertRange_append_right {l : List α} {off : ℕ} (bs r : List α) (h : l.length ≤ off) :
    (l ++ r).insertRange off bs = l ++ r.insertRange (off - l.length) bs := by
  rw [insertRange, insertRange, take_append, take_of_length_le h, drop_append,
    drop_eq_nil_of_le h, nil_append]
  simp only [append_assoc]

theorem insertRange_append_left {l : List α} {off : ℕ} (bs r : List α) (h : off ≤ l.length) :
    (l ++ r).insertRange off bs = l.insertRange off bs ++ r := by
  rw [insertRange, insertRange, take_append_of_le_length h, drop_append_of_le_length h]
  simp only [append_assoc]

/-- Inserting before the end of the first `n` items. -/
theorem take_insertRange {off n : ℕ} {l : List α} (bs : List α) (h : off ≤ n)
    (hn : n ≤ l.length) :
    (l.insertRange off bs).take (n + bs.length) = (l.take n).insertRange off bs := by
  have hlen : (l.take n).length = n := by rw [length_take]; omega
  conv_lhs => rw [← take_append_drop n l]
  rw [insertRange_append_left _ _ (by omega), take_left']
  rw [length_insertRange, hlen]

@[simp] theorem eraseRange_zero_count (off : ℕ) (l : List α) : l.eraseRange off 0 = l := by
  simp [eraseRange]

theorem length_eraseRange {off n : ℕ} {l : List α} (h : off + n ≤ l.length) :
    (l.eraseRange off n).length = l.length - n := by
  simp only [eraseRange, length_append, length_take, length_drop]; omega

theorem eraseRange_append_right {l : List α} {off : ℕ} (n : ℕ) (r : List α) (h : l.length ≤ off) :
    (l ++ r).eraseRange off n = l ++ r.eraseRange (off - l.length) n := by
  rw [eraseRange, eraseRange, take_append, take_of_length_le h, drop_append,
    drop_eq_nil_of_le (by omega), nil_append, append_assoc]
  congr 3; omega

theorem eraseRange_append_left {l : List α} {off n : ℕ} (r : List α) (h : off + n ≤ l.length) :
    (l ++ r).eraseRange off n = l.eraseRange off n ++ r := by
  rw [eraseRange, eraseRange, take_append_of_le_length (by omega), drop_append_of_le_length h,
    append_assoc]

/-- Erasing across the end of `l` keeps the head of `l` and erases the rest from `r`. -/
theorem eraseRange_append_span {l : List α} {off n : ℕ} (r : List α) (ho : off ≤ l.length)
    (h : l.length ≤ off + n) :
    (l ++ r).eraseRange off n = l.take off ++ r.eraseRange 0 (n - (l.length - off)) := by
  rw [eraseRange, eraseRange, take_append_of_le_length ho, drop_append,
    drop_eq_nil_of_le h, nil_append, take_zero, nil_append]
  congr 2; omega

/-- Moving the items after a range over it, in the first `s` items, erases the range. -/
theorem take_overwrite_slice {off n s : ℕ} {l : List α} (h : off + n ≤ s) (hs : s ≤ l.length) :
    (l.overwrite off (l.slice (off + n) (s - off - n))).take (s - n)
      = (l.take s).eraseRange off n := by
  have hlen : (l.take off ++ l.slice (off + n) (s - off - n)).length = s - n := by
    rw [length_append, length_take, length_slice]; omega
  rw [overwrite, take_left' hlen, eraseRange, take_take, drop_take, slice,
    Nat.min_eq_left (by omega), Nat.sub_sub]

theorem eraseRange_of_length_le {off : ℕ} {l : List α} (n : ℕ) (h : l.length ≤ off) :
    l.eraseRange off n = l := by
  rw [eraseRange, take_of_length_le h, drop_eq_nil_of_le (by omega), append_nil]

/-- Only the items that are there are erased. -/
theorem eraseRange_min {off : ℕ} (n : ℕ) (l : List α) :
    l.eraseRange off (min n (l.length - off)) = l.eraseRange off n := by
  rcases Nat.le_total n (l.length - off) with h | h
  · rw [Nat.min_eq_left h]
  · rw [Nat.min_eq_right h, eraseRange, eraseRange, drop_eq_nil_of_le (by omega),
      drop_eq_nil_of_le (by omega)]

/-- Moving the tail down and filling the end, as two overwrites. -/
theorem overwrite_overwrite_eq_shiftDown {off n : ℕ} (x : α) {l : List α}
    (h : off + n ≤ l.length) :
    (l.overwrite off (l.slice (off + n) (l.length - off - n))).overwrite (l.length - n)
      (replicate n x) = l.shiftDown off n x := by
  have hlen : (l.slice (off + n) (l.length - off - n)).length = l.length - off - n := by
    rw [length_slice_of_le]; omega
  have hslice : l.slice (off + n) (l.length - off - n) = l.drop (off + n) := by
    rw [slice, take_of_length_le]
    rw [length_drop]; omega
  have hadj := overwrite_overwrite_adjacent off (l.slice (off + n) (l.length - off - n))
    (replicate n x) l (by rw [hlen]; omega)
  rw [hlen, show off + (l.length - off - n) = l.length - n by omega] at hadj
  have hend : l.length ≤ off + (l.drop (off + n) ++ replicate n x).length := by
    rw [length_append, length_drop, length_replicate]; omega
  rw [hadj, hslice, overwrite, shiftDown, drop_eq_nil_of_le hend, append_nil, append_assoc]

end List
