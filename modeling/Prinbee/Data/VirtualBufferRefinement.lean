import Prinbee.Data.VirtualBufferChunks
import Prinbee.Lib.Run

/-!
# Virtual buffers refine byte lists

The functions of `virtual_buffer` against the plain list operations of `Lib.Splice`.

A buffer whose chunks all own their bytes behaves as the list of its bytes, for every run.
A buffer that views blocks does not: `pwrite()` ignores the offset of the view in its block,
`pinsert()` and `perase()` split a view in two through an iterator that they have just
invalidated.  `Safe` is the precondition that keeps a call clear of all three.

## Main definitions

* `BufferOp`, `VirtualBuffer.step`, `listStep` — an operation, on a buffer and on a list.
* `VirtualBuffer.InRange`, `VirtualBuffer.Safe` — the preconditions of a call.

## Main results

* `memory_run_refines_list` — memory only, every run.
* `block_run_refines_list` — over blocks, every run of safe calls.
-/

namespace Prinbee

namespace VirtualBuffer

variable {vb : VirtualBuffer}

/-- Byte `k` of block `i` is one the buffer shows. -/
def Covers (vb : VirtualBuffer) (i k : ℕ) : Prop := ∃ b ∈ vb.buffers, b.Covers i k

/-- The buffer shows no byte of a block: it owns all its bytes. -/
def Owned (vb : VirtualBuffer) : Prop := ∀ i k, ¬ vb.Covers i k

theorem contents_eq_viewAll (vb : VirtualBuffer) :
    vb.contents = viewAll vb.blocks vb.buffers := rfl

theorem WellFormed.length_contents (h : vb.WellFormed) : vb.contents.length = vb.totalSize := by
  rw [contents_eq_viewAll, length_viewAll h.chunks, h.total]; rfl

/-- What a call that succeeds leaves behind: a well formed buffer with contents `l` that shows
no more of the blocks than before, and blocks unchanged where the buffer does not show them. -/
structure Became (vb vb' : VirtualBuffer) (l : List UInt8) : Prop where
  wellFormed : vb'.WellFormed
  contents : vb'.contents = l
  covers : ∀ i k, vb'.Covers i k → vb.Covers i k
  blocks : SameOutside vb.Covers vb.blocks vb'.blocks

namespace Became

variable {vb' vb'' : VirtualBuffer} {l l' : List UInt8}

theorem refl (h : vb.WellFormed) : Became vb vb vb.contents :=
  ⟨h, rfl, fun _ _ hk => hk, .refl _ _⟩

theorem trans (h : Became vb vb' l) (h' : Became vb' vb'' l') : Became vb vb'' l' where
  wellFormed := h'.wellFormed
  contents := h'.contents
  covers i k hk := h.covers i k (h'.covers i k hk)
  blocks := h.blocks.trans (h'.blocks.mono h.covers)

theorem owned (h : Became vb vb' l) (ho : vb.Owned) : vb'.Owned :=
  fun i k hk => ho i k (h.covers i k hk)

theorem length_eq (h : Became vb vb' l) : l.length = vb'.totalSize := by
  rw [← h.contents, h.wellFormed.length_contents]

end Became

/-! ### One call -/

/-- **`pread()` reads a slice.** -/
theorem pread_eq (h : vb.WellFormed) (size offset : ℕ) :
    vb.pread size offset false = .ok (vb.contents.slice offset size) := by
  rw [pread]
  by_cases hsize : size = 0
  · subst hsize
    rw [if_pos rfl, List.slice_zero_count]
  · rw [if_neg hsize]
    simp only [Bool.false_and, Bool.false_eq_true, if_false]
    exact preadLoop_eq h.chunks size offset

theorem isDataAvailable_of_le {offset size : ℕ} (h : offset + size ≤ vb.totalSize) :
    vb.isDataAvailable offset size = true := by
  rw [isDataAvailable, decide_eq_true_iff]
  exact (Nat.mod_le _ _).trans h

/-- Asking for all the bytes is no different when they are there. -/
theorem pread_full_eq (h : vb.WellFormed) {size offset : ℕ} (hle : offset + size ≤ vb.totalSize) :
    vb.pread size offset true = .ok (vb.contents.slice offset size) := by
  rw [← pread_eq h, pread, pread, isDataAvailable_of_le hle]
  rfl

/-- **`pwrite()` overwrites a range**, and appends what goes past the end. -/
theorem pwrite_eq (v : VectorCapacity) (h : vb.WellFormed) (bytes : List UInt8) (offset : ℕ)
    (allowGrowth : Bool) (hle : offset ≤ vb.totalSize)
    (hgrow : allowGrowth = false → offset + bytes.length ≤ vb.totalSize)
    (hsafe : WriteSafe [] vb.buffers bytes.length offset) :
    ∃ vb', vb.pwrite v bytes offset allowGrowth = .ok (vb', toInt bytes.length) ∧
      vb.Became vb' (vb.contents.overwrite offset bytes) := by
  by_cases hbytes : bytes.length = 0
  · obtain rfl := List.length_eq_zero_iff.1 hbytes
    exact ⟨vb, rfl, by rw [List.overwrite_nil]; exact .refl h⟩
  have havail : (!allowGrowth && !vb.isDataAvailable offset bytes.length) = false := by
    cases allowGrowth with
    | true => rfl
    | false => rw [isDataAvailable_of_le (hgrow rfl)]; rfl
  obtain ⟨m', bs', hrun, hplace, hwf, hview, hsame⟩ := pwriteLoop_eq h.chunks bytes offset hsafe
  have htotal : vb.totalSize = sizeAll vb.buffers := h.total
  have hlen : vb.contents.length = vb.totalSize := h.length_contents
  have hcov : ∀ b' ∈ bs', ∀ i k, b'.Covers i k → vb.Covers i k := by
    intro b' hb' i k hk
    obtain ⟨b, hb, hbb'⟩ := hplace b' hb'
    exact ⟨b, hb, hbb'.covers.1 hk⟩
  have hblocks : SameOutside vb.Covers vb.blocks m' :=
    hsame.mono fun i k hk => hk.1
  rw [pwrite, if_neg hbytes, havail, if_neg (by simp), hrun, ok_bind]
  dsimp only
  by_cases hleft : (bytes.drop (sizeAll vb.buffers - offset)).length = 0
  · have hfit : bytes.length ≤ sizeAll vb.buffers - offset := by
      rw [List.length_drop] at hleft; omega
    rw [if_pos hleft]
    rw [List.take_of_length_le hfit] at hview
    refine ⟨_, rfl, ⟨hwf, ?_⟩, hview, ?_, hblocks⟩
    · dsimp only [chunkSizes]
      have hlen' := length_viewAll hwf
      rw [hview, List.length_overwrite_of_le (by rw [length_viewAll h.chunks]; omega),
        length_viewAll h.chunks] at hlen'
      rw [htotal, hlen']; rfl
    · rintro i k ⟨b', hb', hk⟩
      exact hcov b' hb' i k hk
  · rw [if_neg hleft]
    have hedit := growLoop_spec v hwf (bytes.drop (sizeAll vb.buffers - offset))
    have hfull : viewAll m' bs' ++ bytes.drop (sizeAll vb.buffers - offset)
        = vb.contents.overwrite offset bytes := by
      rw [List.length_drop] at hleft
      rw [List.overwrite_eq_append (by omega) (by omega), hlen, htotal, hview]
      rfl
    rw [hfull] at hedit
    refine ⟨_, rfl, ⟨hedit.wellFormed, ?_⟩, hedit.view, ?_, hblocks⟩
    · dsimp only [chunkSizes]
      have hsize := hedit.sizeAll_eq
      rw [List.length_overwrite (by omega), hlen] at hsize
      rw [List.length_drop] at hleft ⊢
      change _ = sizeAll _
      omega
    · rintro i k ⟨b', hb', hk⟩
      obtain ⟨c, hc, hk'⟩ := hedit.covers b' hb' i k hk
      exact hcov c hc i k hk'

/-- Past the last byte there is nothing to write over. -/
theorem writeSafe_of_sizeAll_le {others bs : List Vbuf} {size offset : ℕ}
    (h : sizeAll bs ≤ offset) : WriteSafe others bs size offset := by
  induction bs generalizing others offset with
  | nil => trivial
  | cons b bs ih =>
    rw [sizeAll_cons] at h
    rw [WriteSafe, if_pos (by omega)]
    exact ih (by omega)

/-- **`pinsert()` inserts a range.** -/
theorem pinsert_eq (v : VectorCapacity) (h : vb.WellFormed) (bytes : List UInt8) (offset : ℕ)
    (hle : offset ≤ vb.totalSize) (hsafe : InsertSafe vb.buffers offset) :
    ∃ vb', vb.pinsert v bytes offset = .ok (vb', toInt bytes.length) ∧
      vb.Became vb' (vb.contents.insertRange offset bytes) := by
  have hlen : vb.contents.length = vb.totalSize := h.length_contents
  rw [pinsert]
  by_cases hbytes : bytes.length = 0
  · obtain rfl := List.length_eq_zero_iff.1 hbytes
    refine ⟨vb, rfl, ?_⟩
    rw [List.insertRange, List.append_nil, List.take_append_drop]
    exact .refl h
  rw [if_neg hbytes]
  by_cases hend : vb.totalSize ≤ offset
  · rw [if_pos hend]
    obtain rfl : offset = vb.contents.length := by omega
    obtain ⟨vb', hrun, hbecame⟩ := pwrite_eq v h bytes vb.contents.length true hle
      (by simp) (writeSafe_of_sizeAll_le (h.total.ge.trans hend))
    rw [List.overwrite_length] at hbecame
    rw [List.insertRange_length]
    exact ⟨vb', hrun, hbecame⟩
  · rw [if_neg hend]
    have htotal : vb.totalSize = sizeAll vb.buffers := h.total
    obtain ⟨bs', hrun, hedit⟩ := pinsertLoop_eq v h.chunks bytes offset (by omega) hsafe
    rw [hrun, ok_bind]
    refine ⟨_, rfl, ⟨hedit.wellFormed, ?_⟩, hedit.view, ?_, .refl _ _⟩
    · have hsize := hedit.sizeAll_eq
      rw [List.length_insertRange, length_viewAll h.chunks] at hsize
      rw [h.total]
      exact hsize.symm
    · rintro i k ⟨b', hb', hk⟩
      exact hedit.covers b' hb' i k hk

/-- **`perase()` erases a range**, or what there is of it. -/
theorem perase_eq (h : vb.WellFormed) (size offset : ℕ)
    (hsafe : EraseSafe vb.buffers (min size (vb.totalSize - offset)) offset) :
    ∃ vb', vb.perase size offset
        = .ok (vb', toInt (min size (vb.totalSize - offset))) ∧
      vb.Became vb' (vb.contents.eraseRange offset size) := by
  have hlen : vb.contents.length = vb.totalSize := h.length_contents
  rw [perase]
  by_cases hsize : size = 0
  · subst hsize
    refine ⟨vb, by rw [if_pos rfl, Nat.zero_min]; rfl, ?_⟩
    rw [List.eraseRange_zero_count]
    exact .refl h
  rw [if_neg hsize]
  by_cases hend : vb.totalSize ≤ offset
  · refine ⟨vb, ?_, ?_⟩
    · rw [if_pos hend, Nat.sub_eq_zero_of_le hend, Nat.min_zero]; rfl
    · rw [List.eraseRange_of_length_le _ (by omega)]
      exact .refl h
  · rw [if_neg hend]
    have htotal : vb.totalSize = sizeAll vb.buffers := h.total
    obtain ⟨bs', hrun, hedit⟩ := peraseLoop_eq h.chunks (min size (vb.totalSize - offset)) offset
      (by omega) hsafe
    dsimp only
    rw [hrun, ok_bind]
    rw [← hlen, contents_eq_viewAll, List.eraseRange_min] at hedit
    refine ⟨_, rfl, ⟨hedit.wellFormed, ?_⟩, hedit.view, ?_, .refl _ _⟩
    · have hcount := hedit.sizeAll_eq
      rw [← List.eraseRange_min, List.length_eraseRange (by rw [length_viewAll h.chunks]; omega),
        length_viewAll h.chunks] at hcount
      change _ - _ = sizeAll bs'
      omega
    · rintro i k ⟨b', hb', hk⟩
      exact hedit.covers b' hb' i k hk

/-! ### Memory only -/

theorem Owned.block_eq {vb : VirtualBuffer} (ho : vb.Owned) {b : Vbuf} (hb : b ∈ vb.buffers)
    (hsize : 0 < b.size) : b.block = none := by
  cases hblock : b.block with
  | none => rfl
  | some i => exact absurd ⟨b, hb, hblock, le_rfl, by omega⟩ (ho i b.offset)

theorem writeSafe_of_owned {others bs : List Vbuf} (h : ∀ b ∈ bs, 0 < b.size → b.block = none)
    (size offset : ℕ) : WriteSafe others bs size offset := by
  induction bs generalizing others size offset with
  | nil => trivial
  | cons b bs ih =>
    have hbs : ∀ c ∈ bs, 0 < c.size → c.block = none := fun c hc => h c (by simp [hc])
    rw [WriteSafe]
    split
    · exact ih hbs _ _
    · refine ⟨fun i hi => ?_, fun _ => ih hbs _ _⟩
      rw [h b (by simp) (by omega)] at hi
      cases hi

theorem insertSafe_of_owned {bs : List Vbuf} (h : ∀ b ∈ bs, 0 < b.size → b.block = none)
    (offset : ℕ) : InsertSafe bs offset := by
  induction bs generalizing offset with
  | nil => trivial
  | cons b bs ih =>
    rw [InsertSafe]
    split
    · exact ih (fun c hc => h c (by simp [hc])) _
    · exact h b (by simp) (by omega)

theorem eraseSafe_of_owned {bs : List Vbuf} (h : ∀ b ∈ bs, 0 < b.size → b.block = none)
    (size offset : ℕ) : EraseSafe bs size offset := by
  induction bs generalizing offset with
  | nil => trivial
  | cons b bs ih =>
    rw [EraseSafe]
    split
    · exact ih (fun c hc => h c (by simp [hc])) _
    · exact .inr (.inl (h b (by simp) (by omega)))

/-- The first loop of `pshift()` moves the bytes down. -/
theorem pshiftMove_eq (v : VectorCapacity) (h : vb.WellFormed) (ho : vb.Owned)
    (size offset total : ℕ) (hle : offset + size + total ≤ vb.totalSize) :
    ∃ vb', pshiftMove v vb size offset total = .ok (vb', offset + total) ∧
      vb.Became vb' (vb.contents.overwrite offset (vb.contents.slice (offset + size) total)) := by
  induction total using Nat.strong_induction_on generalizing vb offset with
  | _ total ih =>
    rw [pshiftMove]
    by_cases htotal : total = 0
    · subst htotal
      refine ⟨vb, if_pos rfl, ?_⟩
      rw [List.slice_zero_count, List.overwrite_nil]
      exact .refl h
    · rw [if_neg htotal]
      set sz := min 4096 total with hsz
      have hlen := h.length_contents
      have hpage : (vb.contents.slice (offset + size) sz).length = sz :=
        List.length_slice_of_le (by omega)
      obtain ⟨vb₁, hrun₁, hbecame₁⟩ := pwrite_eq v h (vb.contents.slice (offset + size) sz)
        offset false (by omega) (fun _ => by rw [hpage]; omega)
        (writeSafe_of_owned (fun b hb => ho.block_eq hb) _ _)
      have hlen₁ : vb₁.totalSize = vb.totalSize := by
        rw [← hbecame₁.length_eq, List.length_overwrite_of_le (by rw [hpage]; omega), hlen]
      obtain ⟨vb₂, hrun₂, hbecame₂⟩ := ih (total - sz) (by omega) hbecame₁.wellFormed
        (hbecame₁.owned ho) (offset + sz) (by omega)
      refine ⟨vb₂, ?_, hbecame₁.trans ?_⟩
      · dsimp only
        rw [pread_full_eq h (by omega), ok_bind, hpage, toInt_of_lt (by omega)]
        simp only [ne_eq, not_true_eq_false, if_false]
        rw [hrun₁, ok_bind, hpage, toInt_of_lt (by omega)]
        simp only [not_true_eq_false, if_false]
        rw [hrun₂]
        congr 2; omega
      · rw [hbecame₁.contents] at hbecame₂
        rw [List.slice_overwrite_of_disjoint (by rw [hpage]; omega)
          (by rw [hpage]; omega)] at hbecame₂
        have hadj := List.overwrite_overwrite_adjacent offset
          (vb.contents.slice (offset + size) sz)
          (vb.contents.slice (offset + sz + size) (total - sz)) vb.contents
          (by rw [hpage]; omega)
        rw [hpage] at hadj
        rw [hadj, show offset + sz + size = offset + size + sz by omega,
          List.slice_append_slice, show sz + (total - sz) = total by omega] at hbecame₂
        exact hbecame₂

/-- The second loop of `pshift()` fills the end of the buffer. -/
theorem pshiftFill_eq (v : VectorCapacity) (h : vb.WellFormed) (ho : vb.Owned)
    (offset left : ℕ) (x : UInt8) (hle : offset + left ≤ vb.totalSize) :
    ∃ vb', pshiftFill v vb offset left x = .ok vb' ∧
      vb.Became vb' (vb.contents.overwrite offset (List.replicate left x)) := by
  induction left using Nat.strong_induction_on generalizing vb offset with
  | _ left ih =>
    rw [pshiftFill]
    by_cases hleft : left = 0
    · subst hleft
      refine ⟨vb, if_pos rfl, ?_⟩
      rw [List.replicate_zero, List.overwrite_nil]
      exact .refl h
    · rw [if_neg hleft]
      set sz := min 4096 left with hsz
      have hlen := h.length_contents
      have hpage : (List.replicate sz x).length = sz := List.length_replicate
      obtain ⟨vb₁, hrun₁, hbecame₁⟩ := pwrite_eq v h (List.replicate sz x) offset false (by omega)
        (fun _ => by rw [hpage]; omega) (writeSafe_of_owned (fun b hb => ho.block_eq hb) _ _)
      have hlen₁ : vb₁.totalSize = vb.totalSize := by
        rw [← hbecame₁.length_eq, List.length_overwrite_of_le (by rw [hpage]; omega), hlen]
      obtain ⟨vb₂, hrun₂, hbecame₂⟩ := ih (left - sz) (by omega) hbecame₁.wellFormed
        (hbecame₁.owned ho) (offset + sz) (by omega)
      refine ⟨vb₂, ?_, hbecame₁.trans ?_⟩
      · dsimp only
        rw [hrun₁, ok_bind, hpage, toInt_of_lt (by omega)]
        simp only [ne_eq, not_true_eq_false, if_false]
        exact hrun₂
      · have hadj := List.overwrite_overwrite_adjacent offset (List.replicate sz x)
          (List.replicate (left - sz) x) vb.contents (by rw [hpage]; omega)
        rw [hpage, ← List.replicate_add, show sz + (left - sz) = left by omega] at hadj
        rw [hbecame₁.contents, hadj] at hbecame₂
        exact hbecame₂

/-- **`pshift()` moves the tail of the buffer down** over `n` bytes. -/
theorem pshift_eq (v : VectorCapacity) (h : vb.WellFormed) (ho : vb.Owned) (n offset : ℕ)
    (x : UInt8) (hn : n ≠ 0) (hle : offset + n ≤ vb.totalSize) :
    ∃ vb', vb.pshift v (-n) offset x = .ok (vb', toInt (vb.totalSize - offset)) ∧
      vb.Became vb' (vb.contents.shiftDown offset n x) := by
  have hlen := h.length_contents
  have htotal : sub64 (sub64 vb.totalSize offset) n = vb.totalSize - offset - n := by
    rw [sub64_of_le (by omega : offset ≤ vb.totalSize), sub64_of_le (by omega)]
  obtain ⟨vb₁, hrun₁, hbecame₁⟩ :=
    pshiftMove_eq v h ho n offset (vb.totalSize - offset - n) (by omega)
  have hlen₁ : vb₁.totalSize = vb.totalSize := by
    rw [← hbecame₁.length_eq, List.length_overwrite_of_le, hlen]
    rw [List.length_slice_of_le (by omega)]; omega
  have hreached : offset + (vb.totalSize - offset - n) = vb.totalSize - n := by omega
  obtain ⟨vb₂, hrun₂, hbecame₂⟩ := pshiftFill_eq v hbecame₁.wellFormed (hbecame₁.owned ho)
    (vb.totalSize - n) n x (by omega)
  have hlen₂ : vb₂.totalSize = vb.totalSize := by
    rw [← hbecame₂.length_eq, List.length_overwrite_of_le, hbecame₁.wellFormed.length_contents,
      hlen₁]
    rw [List.length_replicate, hbecame₁.wellFormed.length_contents]; omega
  refine ⟨vb₂, ?_, hbecame₁.trans ?_⟩
  · rw [pshift, if_neg (by omega), if_neg (by omega), Int.natAbs_neg, Int.natAbs_natCast]
    dsimp only
    rw [htotal, hrun₁, ok_bind]
    dsimp only
    rw [hreached, hlen₁, show vb.totalSize - (vb.totalSize - n) = n by omega, hrun₂, ok_bind,
      hlen₂]
  · rw [hbecame₁.contents, ← hlen, List.overwrite_overwrite_eq_shiftDown x (by omega)] at hbecame₂
    exact hbecame₂

end VirtualBuffer

/-! ### Runs -/

/-- The calls that change a virtual buffer. -/
inductive BufferOp
  | pwrite (bytes : List UInt8) (offset : ℕ) (allowGrowth : Bool)
  | pinsert (bytes : List UInt8) (offset : ℕ)
  | perase (size offset : ℕ)
  | pshift (size : ℤ) (offset : ℕ) (x : UInt8)
  deriving DecidableEq, Repr

/-- The operations on plain lists.  A shift towards the end is one the source refuses. -/
def listStep (l : List UInt8) : BufferOp → List UInt8
  | .pwrite bytes offset _ => l.overwrite offset bytes
  | .pinsert bytes offset => l.insertRange offset bytes
  | .perase size offset => l.eraseRange offset size
  | .pshift size offset x => if size < 0 then l.shiftDown offset size.natAbs x else l

namespace VirtualBuffer

/-- One call.  The exceptions of these functions are thrown before the buffer changes, so the
caller that catches one goes on with the buffer as it was. -/
def step (v : VectorCapacity) (vb : VirtualBuffer) (op : BufferOp) :
    Except Failure VirtualBuffer :=
  let result := match op with
    | .pwrite bytes offset allowGrowth => vb.pwrite v bytes offset allowGrowth
    | .pinsert bytes offset => vb.pinsert v bytes offset
    | .perase size offset => vb.perase size offset
    | .pshift size offset x => vb.pshift v size offset x
  match result with
  | .ok (vb, _) => .ok vb
  | .error (.thrown _ _) => .ok vb
  | .error .undefinedBehavior => .error .undefinedBehavior

/-- The arguments fit the size of the buffer. -/
def InRange (vb : VirtualBuffer) : BufferOp → Prop
  | .pwrite bytes offset allowGrowth =>
    if allowGrowth then offset ≤ vb.totalSize else offset + bytes.length ≤ vb.totalSize
  | .pinsert _ offset => offset ≤ vb.totalSize
  | .perase size offset => offset + size ≤ vb.totalSize
  | .pshift size offset _ => size < 0 → offset + size.natAbs ≤ vb.totalSize

instance (vb : VirtualBuffer) : (op : BufferOp) → Decidable (vb.InRange op)
  | .pwrite bytes offset allowGrowth => inferInstanceAs (Decidable
      (if allowGrowth = true then offset ≤ vb.totalSize
        else offset + bytes.length ≤ vb.totalSize))
  | .pinsert _ offset => inferInstanceAs (Decidable (offset ≤ vb.totalSize))
  | .perase size offset => inferInstanceAs (Decidable (offset + size ≤ vb.totalSize))
  | .pshift size offset _ => inferInstanceAs (Decidable
      (size < 0 → offset + size.natAbs ≤ vb.totalSize))

/-- The call stays clear of the defects of views of blocks: every block byte that `pwrite()`
stores is shown by one view only, one that starts where its block starts; `pinsert()` does not
insert in a view, nor `perase()` erase bytes strictly inside one. -/
def Safe (vb : VirtualBuffer) : BufferOp → Prop
  | .pwrite bytes offset _ => WriteSafe [] vb.buffers bytes.length offset
  | .pinsert _ offset => InsertSafe vb.buffers offset
  | .perase size offset => EraseSafe vb.buffers (min size (vb.totalSize - offset)) offset
  | .pshift .. => vb.Owned

theorem safe_of_owned {vb : VirtualBuffer} (ho : vb.Owned) (op : BufferOp) : vb.Safe op := by
  have hnone : ∀ b ∈ vb.buffers, 0 < b.size → b.block = none := fun b hb => ho.block_eq hb
  cases op with
  | pwrite bytes offset allowGrowth => exact writeSafe_of_owned hnone _ _
  | pinsert bytes offset => exact insertSafe_of_owned hnone _
  | perase size offset => exact eraseSafe_of_owned hnone _ _
  | pshift size offset x => exact ho

/-- One safe call in range does what the list operation does. -/
theorem step_eq (v : VectorCapacity) {vb : VirtualBuffer} (h : vb.WellFormed) {op : BufferOp}
    (hr : vb.InRange op) (hsafe : vb.Safe op) :
    ∃ vb', vb.step v op = .ok vb' ∧ vb.Became vb' (listStep vb.contents op) := by
  cases op with
  | pwrite bytes offset allowGrowth =>
    have hle : offset ≤ vb.totalSize := by
      cases allowGrowth with
      | true => simpa [InRange] using hr
      | false => simp only [InRange, Bool.false_eq_true, if_false] at hr; omega
    obtain ⟨vb', hrun, hbecame⟩ := pwrite_eq v h bytes offset allowGrowth hle
      (by rintro rfl; simpa [InRange] using hr) hsafe
    exact ⟨vb', by simp only [step, hrun], hbecame⟩
  | pinsert bytes offset =>
    obtain ⟨vb', hrun, hbecame⟩ := pinsert_eq v h bytes offset hr hsafe
    exact ⟨vb', by simp only [step, hrun], hbecame⟩
  | perase size offset =>
    obtain ⟨vb', hrun, hbecame⟩ := perase_eq h size offset hsafe
    exact ⟨vb', by simp only [step, hrun], hbecame⟩
  | pshift size offset x =>
    rcases lt_trichotomy size 0 with hneg | rfl | hpos
    · obtain ⟨vb', hrun, hbecame⟩ := pshift_eq v h hsafe size.natAbs offset x (by omega) (hr hneg)
      rw [show (-(size.natAbs : ℤ)) = size by omega] at hrun
      refine ⟨vb', by simp only [step, hrun], ?_⟩
      rw [listStep, if_pos hneg]
      exact hbecame
    · exact ⟨vb, by simp [step, pshift], .refl h⟩
    · refine ⟨vb, ?_, ?_⟩
      · simp only [step, pshift, if_neg hpos.ne', if_pos hpos]
      · rw [listStep, if_neg (by omega)]
        exact .refl h

/-- **Memory-only virtual buffers refine byte lists.**  From an empty buffer, every run of calls
in range succeeds and ends with a buffer that reads as the list the plain operations give. -/
theorem memory_run_refines_list (v : VectorCapacity) (blocks : Blocks) (ops : List BufferOp)
    (hops : Run.Along InRange (step v) { blocks := blocks } ops) :
    ∃ vb, ops.foldlM (step v) { blocks := blocks } = .ok vb ∧
      (∀ size offset, vb.pread size offset false
        = .ok ((ops.foldl listStep []).slice offset size)) ∧
      (∀ size offset, offset + size ≤ vb.totalSize →
        vb.pread size offset true = .ok ((ops.foldl listStep []).slice offset size)) ∧
      vb.totalSize = (ops.foldl listStep []).length ∧ vb.totalSize = vb.chunkSizes := by
  have hstep : ∀ vb l op, (vb.WellFormed ∧ vb.Owned ∧ vb.contents = l) → InRange vb op →
      ∃ vb', step v vb op = .ok vb' ∧ vb'.WellFormed ∧ vb'.Owned ∧
        vb'.contents = listStep l op := by
    rintro vb l op ⟨hwf, ho, rfl⟩ hr
    obtain ⟨vb', hrun, hbecame⟩ := step_eq v hwf hr (safe_of_owned ho op)
    exact ⟨vb', hrun, hbecame.wellFormed, hbecame.owned ho, hbecame.contents⟩
  have hinit : WellFormed { blocks := blocks } ∧ Owned { blocks := blocks } ∧
      contents { blocks := blocks } = [] :=
    ⟨⟨by simp, rfl⟩, fun i k ⟨b, hb, _⟩ => by simp at hb, rfl⟩
  obtain ⟨vb, hrun, hwf, -, hcontents⟩ := Run.refines listStep hstep ops _ [] hinit hops
  refine ⟨vb, hrun, fun size offset => ?_, fun size offset hle => ?_, ?_, hwf.total⟩
  · rw [← hcontents, pread_eq hwf]
  · rw [← hcontents, pread_full_eq hwf hle]
  · rw [← hcontents, hwf.length_contents]

/-- A write, an insertion inside the chunk, an erasure and a refused shift. -/
theorem memory_run_refines_list_four :
    ∃ vb, [BufferOp.pwrite [1, 2, 3] 0 true, .pinsert [9, 8] 1, .perase 2 0, .pshift 1 0 0].foldlM
        (step .libstdcxx) { blocks := fun _ => [] } = .ok vb ∧
      vb.pread 2 1 true = .ok [2, 3] ∧ vb.totalSize = 3 := by
  obtain ⟨vb, hrun, -, hfull, hsize, -⟩ := memory_run_refines_list .libstdcxx (fun _ => [])
    [.pwrite [1, 2, 3] 0 true, .pinsert [9, 8] 1, .perase 2 0, .pshift 1 0 0]
    (.cons (by decide) rfl (.cons (by decide) rfl (.cons (by decide) rfl
      (.cons (by decide) rfl trivial))))
  exact ⟨vb, hrun, (hfull 2 1 (by rw [hsize]; decide)).trans rfl, hsize.trans rfl⟩

/-! ### Views of blocks -/

/-- A range of a block. -/
structure BlockRange where
  block : ℕ
  offset : ℕ
  size : ℕ
  deriving DecidableEq, Repr

/-- The bytes of the range. -/
def BlockRange.bytes (blocks : Blocks) (r : BlockRange) : List UInt8 :=
  (blocks r.block).slice r.offset r.size

/-- Byte `k` of block `i` is in the range. -/
def BlockRange.Covers (r : BlockRange) (i k : ℕ) : Prop :=
  r.block = i ∧ r.offset ≤ k ∧ k < r.offset + r.size

/-- `add_buffer()` called for each range. -/
def addBuffers (vb : VirtualBuffer) (ranges : List BlockRange) : Except Failure VirtualBuffer :=
  ranges.foldlM (fun vb r => vb.addBuffer r.block r.offset r.size) vb

/-- The buffer that a list of ranges makes. -/
theorem addBuffers_eq (blocks : Blocks) (ranges : List BlockRange) (bs : List Vbuf) (n : ℕ) :
    addBuffers { blocks := blocks, buffers := bs, totalSize := n } ranges
      = .ok { blocks := blocks
              buffers := bs ++ ranges.map fun r =>
                { block := some r.block, offset := r.offset, size := r.size }
              totalSize := n + (ranges.map BlockRange.size).sum } := by
  induction ranges generalizing bs n with
  | nil => simp [addBuffers, pure, Except.pure]
  | cons r ranges ih =>
    rw [addBuffers, List.foldlM_cons, addBuffer, if_neg (by simp), ok_bind]
    have htail := ih (bs ++ [{ block := some r.block, offset := r.offset, size := r.size }])
      (n + r.size)
    rw [addBuffers] at htail
    rw [htail]
    simp [List.append_assoc, Nat.add_assoc]

/-- A buffer made of ranges of blocks shows the concatenation of the ranges. -/
theorem addBuffers_spec (blocks : Blocks) (ranges : List BlockRange)
    (h : ∀ r ∈ ranges, r.offset + r.size ≤ (blocks r.block).length) :
    ∃ vb, addBuffers { blocks := blocks } ranges = .ok vb ∧ vb.WellFormed ∧
      vb.blocks = blocks ∧ vb.contents = ranges.flatMap (BlockRange.bytes blocks) ∧
      ∀ i k, vb.Covers i k → ∃ r ∈ ranges, r.Covers i k := by
  refine ⟨_, addBuffers_eq blocks ranges [] 0, ⟨?_, ?_⟩, rfl, ?_, ?_⟩
  · intro b hb
    obtain ⟨r, hr, rfl⟩ := List.mem_map.1 (by simpa using hb)
    exact h r hr
  · simp [chunkSizes, Function.comp_def]
  · simp only [contents, List.nil_append, List.flatMap_map, Vbuf.view]
    rfl
  · rintro i k ⟨b, hb, hk⟩
    obtain ⟨r, hr, rfl⟩ := List.mem_map.1 (by simpa using hb)
    exact ⟨r, hr, Option.some.inj hk.1, hk.2⟩

/-- **Virtual buffers over blocks refine byte lists when every call is safe.**  Every run ends
with the list the plain operations make of the ranges added, and changes no byte of a block
outside of them. -/
theorem block_run_refines_list (v : VectorCapacity) (blocks : Blocks) (ranges : List BlockRange)
    (hranges : ∀ r ∈ ranges, r.offset + r.size ≤ (blocks r.block).length) :
    ∃ vb, addBuffers { blocks := blocks } ranges = .ok vb ∧
      ∀ ops, Run.Along (fun vb op => InRange vb op ∧ Safe vb op) (step v) vb ops →
        ∃ vb', ops.foldlM (step v) vb = .ok vb' ∧
          vb'.contents = ops.foldl listStep (ranges.flatMap (BlockRange.bytes blocks)) ∧
          (∀ size offset, vb'.pread size offset false = .ok (vb'.contents.slice offset size)) ∧
          ∀ i k, (∀ r ∈ ranges, ¬ r.Covers i k) → (vb'.blocks i)[k]? = (blocks i)[k]? := by
  obtain ⟨vb, hadd, hwf, hblocks, hcontents, hcovers⟩ := addBuffers_spec blocks ranges hranges
  refine ⟨vb, hadd, fun ops hops => ?_⟩
  have hstep : ∀ w l op, vb.Became w l → (InRange w op ∧ Safe w op) →
      ∃ w', step v w op = .ok w' ∧ vb.Became w' (listStep l op) := by
    rintro w l op hb ⟨hr, hs⟩
    obtain ⟨w', hrun, hb'⟩ := step_eq v hb.wellFormed hr hs
    rw [hb.contents] at hb'
    exact ⟨w', hrun, hb.trans hb'⟩
  obtain ⟨vb', hrun, hbecame⟩ := Run.refines listStep hstep ops vb vb.contents (.refl hwf) hops
  rw [hcontents] at hbecame
  refine ⟨vb', hrun, hbecame.contents, pread_eq hbecame.wellFormed, fun i k hk => ?_⟩
  rw [← hblocks]
  apply (hbecame.blocks i).2 k
  intro hc
  obtain ⟨r, hr, hrk⟩ := hcovers i k hc
  exact hk r hr hrk

/-- A view of a whole block, written in place and extended at its end. -/
theorem block_run_refines_list_whole_block :
    ∃ vb vb', addBuffers { blocks := fun _ => [1, 2, 3, 4] } [⟨0, 0, 4⟩] = .ok vb ∧
      [BufferOp.pwrite [7] 2 false, .pinsert [8] 4, .perase 1 0].foldlM (step .libstdcxx) vb
        = .ok vb' ∧ vb'.contents = [2, 7, 4, 8] := by
  obtain ⟨vb, hadd, hrun⟩ := block_run_refines_list .libstdcxx (fun _ => [1, 2, 3, 4]) [⟨0, 0, 4⟩]
    (by decide)
  obtain rfl := Except.ok.inj hadd
  have hstore : Vbuf.StoreSafe { block := some 0, size := 4 } ([] ++ []) 2 1 :=
    fun _ _ => ⟨rfl, fun _ hd => by simp at hd⟩
  obtain ⟨vb', hops, hcontents, -⟩ := hrun [.pwrite [7] 2 false, .pinsert [8] 4, .perase 1 0]
    (.cons ⟨by decide, hstore, fun h => absurd h (by decide)⟩ rfl
      (.cons ⟨by decide, trivial⟩ rfl
        (.cons ⟨by decide, .inl rfl⟩ rfl trivial)))
  exact ⟨_, vb', rfl, hops, hcontents.trans rfl⟩

/-- A view of the second half of a block: the byte written goes to the first half. -/
theorem block_run_not_refines_list :
    ¬ ∀ (blocks : Blocks) (ranges : List BlockRange) (ops : List BufferOp) (vb : VirtualBuffer),
      (∀ r ∈ ranges, r.offset + r.size ≤ (blocks r.block).length) →
      addBuffers { blocks := blocks } ranges = .ok vb →
      Run.Along InRange (step .libstdcxx) vb ops →
      ∃ vb', ops.foldlM (step .libstdcxx) vb = .ok vb' ∧
        vb'.contents = ops.foldl listStep (ranges.flatMap (BlockRange.bytes blocks)) ∧
        ∀ i k, (∀ r ∈ ranges, ¬ r.Covers i k) → (vb'.blocks i)[k]? = (blocks i)[k]? := by
  intro h
  obtain ⟨vb', hrun, hcontents, -⟩ := h (fun _ => [10, 11, 12, 13, 14, 15, 16, 17]) [⟨0, 4, 4⟩]
    [.pwrite [1] 0 false] _ (by decide) rfl (.cons (by decide) rfl trivial)
  obtain rfl := Except.ok.inj hrun
  exact absurd hcontents (by decide)

end VirtualBuffer

end Prinbee
