import Prinbee.Data.VirtualBufferRefinement

/-!
# The bounds checks of virtual buffers

`is_data_available()` adds an offset and a size as 64-bit numbers.  The sum wraps: a range that
ends past `2 ^ 64` is then taken for one at the start of the buffer, `pread()` copies nothing of
what it was asked for, and `pwrite()` appends to a buffer it was told not to grow.

## Main definitions

* `VirtualBuffer.Inside` — every byte of a range is a byte of the buffer.
* `VirtualBuffer.ChecksExactly` — the test is exact, and the calls throw by it.

## Main results

* `VirtualBuffer.checksExactly_iff` — the checks are exact unless the sum wraps into the buffer.
-/

namespace Prinbee

/-! ### The loops do not throw -/

theorem Vbuf.load_not_throws (blocks : Blocks) (b : Vbuf) (offset size : ℕ) :
    ¬ Throws (b.load blocks offset size) := by
  unfold Vbuf.load
  split
  all_goals
    split
    · exact not_throws_ok _
    · exact not_throws_undefinedBehavior

theorem Vbuf.store_not_throws (blocks : Blocks) (b : Vbuf) (offset : ℕ) (bytes : List UInt8) :
    ¬ Throws (b.store blocks offset bytes) := by
  unfold Vbuf.store
  split
  all_goals
    split
    · exact not_throws_ok _
    · exact not_throws_undefinedBehavior

theorem preadLoop_not_throws (blocks : Blocks) (bs : List Vbuf) (size offset : ℕ) :
    ¬ Throws (preadLoop blocks bs size offset) := by
  induction bs generalizing size offset with
  | nil => exact not_throws_ok _
  | cons b bs ih =>
    intro h
    rw [preadLoop] at h
    split at h
    · exact ih _ _ h
    · rcases h.of_bind with h | ⟨bytes, -, h⟩
      · exact b.load_not_throws blocks _ _ h
      · split at h
        · exact not_throws_ok _ h
        · rcases h.of_bind with h | ⟨more, -, h⟩
          · exact ih _ _ h
          · exact not_throws_ok _ h

theorem pwriteLoop_not_throws (blocks : Blocks) (bs : List Vbuf) (bytes : List UInt8)
    (offset : ℕ) : ¬ Throws (pwriteLoop blocks bs bytes offset) := by
  induction bs generalizing blocks bytes offset with
  | nil => exact not_throws_ok _
  | cons b bs ih =>
    intro h
    rw [pwriteLoop] at h
    split at h
    · rcases h.of_bind with h | ⟨r, -, h⟩
      · exact ih _ _ _ h
      · exact not_throws_ok _ h
    · rcases h.of_bind with h | ⟨⟨blocks', b'⟩, -, h⟩
      · exact b.store_not_throws blocks _ _ h
      · dsimp only at h
        split at h
        · exact not_throws_ok _ h
        · rcases h.of_bind with h | ⟨r', -, h⟩
          · exact ih _ _ _ h
          · exact not_throws_ok _ h

namespace VirtualBuffer

variable (v : VectorCapacity) (vb : VirtualBuffer)

/-! ### The calls throw by the test -/

theorem pread_throws_iff (size offset : ℕ) :
    Throws (vb.pread size offset true) ↔
      size ≠ 0 ∧ vb.isDataAvailable offset size = false := by
  unfold pread
  by_cases hsize : size = 0
  · rw [if_pos hsize]
    exact ⟨fun h => absurd h (not_throws_ok _), fun h => absurd hsize h.1⟩
  rw [if_neg hsize, Bool.true_and]
  cases vb.isDataAvailable offset size with
  | false =>
    rw [Bool.not_false, if_pos rfl]
    exact ⟨fun _ => ⟨hsize, rfl⟩, fun _ => ⟨_, _, rfl⟩⟩
  | true =>
    rw [Bool.not_true, if_neg Bool.false_ne_true]
    exact ⟨fun h => absurd h (preadLoop_not_throws _ _ _ _), fun h => nomatch h.2⟩

theorem pwrite_throws_iff (bytes : List UInt8) (offset : ℕ) :
    Throws (vb.pwrite v bytes offset false) ↔
      bytes.length ≠ 0 ∧ vb.isDataAvailable offset bytes.length = false := by
  unfold pwrite
  by_cases hsize : bytes.length = 0
  · rw [if_pos hsize]
    exact ⟨fun h => absurd h (not_throws_ok _), fun h => absurd hsize h.1⟩
  rw [if_neg hsize, Bool.not_false, Bool.true_and]
  cases vb.isDataAvailable offset bytes.length with
  | false =>
    rw [Bool.not_false, if_pos rfl]
    exact ⟨fun _ => ⟨hsize, rfl⟩, fun _ => ⟨_, _, rfl⟩⟩
  | true =>
    rw [Bool.not_true, if_neg Bool.false_ne_true]
    refine ⟨fun h => ?_, fun h => nomatch h.2⟩
    rcases h.of_bind with h | ⟨⟨blocks, buffers, left⟩, -, h⟩
    · exact absurd h (pwriteLoop_not_throws _ _ _ _)
    · -- whether the bytes fit or the buffer grows, the call returns
      dsimp only at h
      split at h
      all_goals exact absurd h (not_throws_ok _)

/-! ### Exact checks -/

/-- Every byte of the range is a byte of the buffer. -/
def Inside (offset size : ℕ) : Prop := ∀ i, offset ≤ i → i < offset + size → i < vb.totalSize

/-- A range that is not empty is inside when its end is. -/
theorem inside_iff {offset size : ℕ} (h : size ≠ 0) :
    vb.Inside offset size ↔ offset + size ≤ vb.totalSize := by
  constructor
  · intro hin
    have hlast := hin (offset + size - 1) (by omega) (by omega)
    omega
  · intro hle i _ hi
    omega

/-- The test holds of the ranges that end in the buffer, and the calls that use it throw for
the ranges that are not inside. -/
def ChecksExactly (offset size : ℕ) : Prop :=
  (vb.isDataAvailable offset size = true ↔ offset + size ≤ vb.totalSize) ∧
    (Throws (vb.pread size offset true) ↔ ¬ vb.Inside offset size) ∧
    ∀ bytes : List UInt8, bytes.length = size →
      (Throws (vb.pwrite v bytes offset false) ↔ ¬ vb.Inside offset size)

variable {vb} {offset size : ℕ}

/-- The test fails to be exact only when the sum wraps, and lands in the buffer. -/
theorem isDataAvailable_exact_iff (ho : offset < 2 ^ 64) (hs : size < 2 ^ 64)
    (ht : vb.totalSize < 2 ^ 64) :
    (vb.isDataAvailable offset size = true ↔ offset + size ≤ vb.totalSize) ↔
      offset + size < 2 ^ 64 ∨ vb.totalSize < offset + size - 2 ^ 64 := by
  rw [isDataAvailable, decide_eq_true_iff]
  rcases Nat.lt_or_ge (offset + size) (2 ^ 64) with hlt | hge
  · rw [Nat.mod_eq_of_lt hlt]
    simp only [hlt, true_or]
  · -- the sum wraps once
    have hmod : (offset + size) % 2 ^ 64 = offset + size - 2 ^ 64 := by
      rw [Nat.mod_eq_sub_mod hge, Nat.mod_eq_of_lt (by omega)]
    rw [hmod]
    omega

/-- **The bounds checks are exact, for every buffer and every offset and size of 64 bits, if and
only if their sum does not wrap into the buffer.** -/
theorem checksExactly_iff (ho : offset < 2 ^ 64) (hs : size < 2 ^ 64)
    (ht : vb.totalSize < 2 ^ 64) :
    vb.ChecksExactly v offset size ↔
      offset + size < 2 ^ 64 ∨ vb.totalSize < offset + size - 2 ^ 64 := by
  rw [← isDataAvailable_exact_iff ho hs ht]
  refine ⟨fun h => h.1, fun h => ⟨h, ?_, ?_⟩⟩
  -- an empty range is inside any buffer, and the calls return before they test it
  · rw [pread_throws_iff]
    by_cases hsize : size = 0
    · subst hsize
      simp [Inside]
      omega
    · rw [inside_iff vb hsize, ← h, Bool.not_eq_true]
      exact and_iff_right hsize
  · rintro bytes rfl
    rw [pwrite_throws_iff]
    by_cases hsize : bytes.length = 0
    · simp [Inside, hsize]
      omega
    · rw [inside_iff vb hsize, ← h, Bool.not_eq_true]
      exact and_iff_right hsize

/-- A buffer of four bytes in memory. -/
def fourBytes : VirtualBuffer :=
  { blocks := fun _ => [], buffers := [{ data := [10, 11, 12, 13], capacity := 4, size := 4 }],
    totalSize := 4 }

/-- The last two bytes of four, and the two after them. -/
theorem checksExactly_fourBytes :
    fourBytes.ChecksExactly .libstdcxx 2 2 ∧ fourBytes.ChecksExactly .libstdcxx 4 2 :=
  ⟨(checksExactly_iff .libstdcxx (by decide) (by decide) (by decide)).2 (by decide),
    (checksExactly_iff .libstdcxx (by decide) (by decide) (by decide)).2 (by decide)⟩

/-- The last byte that 64 bits can address is taken for one of four bytes. -/
theorem not_checksExactly : ¬ fourBytes.ChecksExactly .libstdcxx (2 ^ 64 - 1) 1 := by
  intro h
  exact absurd (h.1.1 (by decide)) (by decide)

end VirtualBuffer

end Prinbee
