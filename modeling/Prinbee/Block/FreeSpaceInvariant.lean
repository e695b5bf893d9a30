import Prinbee.Block.FreeSpaceLayout
import Prinbee.Lib.Run

/-!
# Runs of the allocator

A program that asks for spaces and releases them, and what holds after each of its calls.

A new data block is broken in two as soon as the rest can hold the 4 bytes of a meta data, while
a larger free space is broken in two only when the rest can hold the 24 bytes of a link.  A rest
of 8 or 16 bytes is then linked past its own end, past the end of the page even.  `Splits` is
the condition that no call makes such a rest; all the runs that meet it are safe.

## Main definitions

* `FreeSpaceRun.step` — one call of the program.
* `FreeSpaceRun.Safe` — the live regions are apart and inside the data blocks, and the blocks
  and the lists are as the allocator means them.
* `FreeSpaceRun.Splits` — the condition.

## Main results

* `FreeSpaceRun.run_safe` — every run that meets the condition is safe.
* `FreeSpaceRun.run_not_safe` — a run of a single call that is not.
-/

namespace Prinbee

open LinkedList

variable {t : TableFile} {mem : ℕ → ℕ} {dataBlocks : List ℕ} {blocks : List DataBlock}
  {lists : ℕ → List ℕ}

/-! ### What an allocation does to the layout -/

/-- The memory represents a layout again, with a new allocated space and all those of before. -/
def Allocates (t : TableFile) (blocks : List DataBlock) (mem' : ℕ → ℕ) (dataBlocks' : List ℕ)
    (s : Space) : Prop :=
  ∃ blocks' lists', Rep t mem' dataBlocks' blocks' lists' [] ∧ s ∈ spacesOf blocks' ∧
    s.free = false ∧
    ∀ r ∈ spacesOf blocks, r.free = false → r ∈ spacesOf blocks' ∧ r.address ≠ s.address

namespace Rep

/-- A hole becomes one allocated space. -/
theorem allocate {s : Space} (h : Rep t mem dataBlocks blocks lists [s.address])
    (hs : s ∈ spacesOf blocks) {w : ℕ} (hsize : metaSize w = s.size)
    (halloc : isAllocated w = true) :
    Rep t (Prinbee.poke mem s.address w) dataBlocks
      (replaceSpace s.address [⟨s.address, s.size, false⟩] blocks) lists [] := by
  obtain ⟨b, -, -, -, hpos, hdvd⟩ := h.inBlock hs
  have hcut := h.cut [⟨s.address, s.size, false⟩] hs List.mem_cons_self ⟨rfl, hpos, hdvd, rfl⟩
  have hnew : (⟨s.address, s.size, false⟩ : Space) ∈
      spacesOf (replaceSpace s.address [⟨s.address, s.size, false⟩] blocks) :=
    mem_replaceSpace.2 (.inr ⟨List.mem_cons_self, s, hs, rfl⟩)
  have hone := hcut.holes_congr [s.address] (by simp)
  have hpoke := hone.poke hnew List.mem_cons_self ⟨le_rfl, Nat.lt_add_of_pos_right hpos⟩ w
  refine hpoke.close hnew rfl rfl ?_ ?_
  · rw [poke_self]
    exact hsize
  · rw [poke_self]
    exact halloc

/-- A hole broken in two holes, an allocated space of `n` bytes and a free one. -/
theorem split {s : Space} (h : Rep t mem dataBlocks blocks lists [s.address])
    (hs : s ∈ spacesOf blocks) {n : ℕ} (hpos : 0 < n) (hdvd : 8 ∣ n) (hlt : n < s.size) :
    Rep t mem dataBlocks
      (replaceSpace s.address
        [⟨s.address, n, false⟩, ⟨s.address + n, s.size - n, true⟩] blocks) lists
      [s.address + n, s.address] := by
  obtain ⟨b, -, -, -, -, hdvd'⟩ := h.inBlock hs
  have htiles : Tiles s.address (s.address + s.size)
      [⟨s.address, n, false⟩, ⟨s.address + n, s.size - n, true⟩] := by
    refine ⟨rfl, hpos, hdvd, rfl, ?_, ?_, ?_⟩ <;> dsimp only [Tiles] <;> omega
  refine (h.cut _ hs List.mem_cons_self htiles).holes_congr _ fun x => ?_
  simp only [List.map_cons, List.map_nil, List.cons_append, List.nil_append, List.mem_cons,
    List.not_mem_nil, or_false]
  tauto

/-- The allocated spaces of before are still there once a hole has been replaced. -/
theorem allocated_replace {a : ℕ} {holes : List ℕ} (h : Rep t mem dataBlocks blocks lists holes)
    {s : Space} (hs : s ∈ spacesOf blocks) (ha : s.address = a) (hfree : s.free = true)
    (new : List Space) {r : Space} (hr : r ∈ spacesOf blocks) (hrf : r.free = false) :
    r ∈ spacesOf (replaceSpace a new blocks) ∧ r.address ≠ a := by
  have hne : r.address ≠ a := by
    intro hra
    rw [h.eq_of_address hr hs (hra.trans ha.symm), hfree] at hrf
    exact absurd hrf (by decide)
  exact ⟨mem_replaceSpace.2 (.inl ⟨hr, hne⟩), hne⟩

/-- The free space of a hole broken in two is linked, and the allocated one is closed.  The
words `w` and `w'` are those the allocator leaves at the start of the two spaces. -/
theorem linkRest {s : Space} {n : ℕ}
    (h : Rep t mem dataBlocks (replaceSpace s.address
      [⟨s.address, n, false⟩, ⟨s.address + n, s.size - n, true⟩] blocks) lists
      [s.address + n, s.address])
    (hs : s ∈ spacesOf blocks) (hpos : 0 < n) (hfits : linkBytes ≤ s.size - n)
    (hrest : metaSize (mem (s.address + n)) = s.size - n) :
    ∃ mem', linkSpace t mem (s.address + n) (s.address + n) = .ok mem' ∧ mem' s.address = mem s.address ∧
      ∀ w, metaSize w = n → isAllocated w = true →
        Rep t (Prinbee.poke mem' s.address w) dataBlocks (replaceSpace s.address
          [⟨s.address, n, false⟩, ⟨s.address + n, s.size - n, true⟩] blocks)
          (Function.update lists (s.size - n) ((s.address + n) :: lists (s.size - n))) [] := by
  have hfirst : (⟨s.address, n, false⟩ : Space) ∈ spacesOf (replaceSpace s.address
      [⟨s.address, n, false⟩, ⟨s.address + n, s.size - n, true⟩] blocks) :=
    mem_replaceSpace.2 (.inr ⟨by simp, s, hs, rfl⟩)
  have hsecond : (⟨s.address + n, s.size - n, true⟩ : Space) ∈ spacesOf (replaceSpace s.address
      [⟨s.address, n, false⟩, ⟨s.address + n, s.size - n, true⟩] blocks) :=
    mem_replaceSpace.2 (.inr ⟨by simp, s, hs, rfl⟩)
  obtain ⟨mem', hlink, hframe, hrep⟩ := h.link hsecond rfl rfl
    (by simp only [List.mem_singleton]; omega) hrest hfits
  refine ⟨mem', hlink, hframe ⟨s.address, n, false⟩ hfirst (by simp), fun w hsize halloc => ?_⟩
  have hpoke := hrep.poke hfirst List.mem_cons_self ⟨le_rfl, Nat.lt_add_of_pos_right hpos⟩ w
  refine hpoke.close hfirst rfl rfl ?_ ?_
  · rw [poke_self]
    exact hsize
  · rw [poke_self]
    exact halloc

/-- The meta data of the two parts of a larger space, written as the second path does. -/
theorem breakLarger {s : Space} {n : ℕ} (h : Rep t mem dataBlocks blocks lists [s.address])
    (hs : s ∈ spacesOf blocks) (hpos : 0 < n) (hdvd : 8 ∣ n) (hlt : n < s.size)
    (hsize : s.size < 2 ^ 24) (hfits : linkBytes ≤ s.size - n) :
    let mem₁ := Prinbee.poke mem (s.address + n) (setSize (mem (s.address + n)) (s.size - n))
    let mem₂ := Prinbee.poke mem₁ s.address (setSize (mem₁ s.address) n)
    let mem₃ := Prinbee.poke mem₂ (s.address + n) (setFlags (mem₂ (s.address + n)) 0)
    ∃ mem₄, linkSpace t mem₃ (s.address + n) (s.address + n) = .ok mem₄ ∧ metaSize (mem₄ s.address) = n ∧
      ∀ w, metaSize w = n → isAllocated w = true →
        Rep t (Prinbee.poke mem₄ s.address w) dataBlocks (replaceSpace s.address
          [⟨s.address, n, false⟩, ⟨s.address + n, s.size - n, true⟩] blocks)
          (Function.update lists (s.size - n) ((s.address + n) :: lists (s.size - n))) [] := by
  intro mem₁ mem₂ mem₃
  have hfirst : (⟨s.address, n, false⟩ : Space) ∈ spacesOf (replaceSpace s.address
      [⟨s.address, n, false⟩, ⟨s.address + n, s.size - n, true⟩] blocks) :=
    mem_replaceSpace.2 (.inr ⟨by simp, s, hs, rfl⟩)
  have hsecond : (⟨s.address + n, s.size - n, true⟩ : Space) ∈ spacesOf (replaceSpace s.address
      [⟨s.address, n, false⟩, ⟨s.address + n, s.size - n, true⟩] blocks) :=
    mem_replaceSpace.2 (.inr ⟨by simp, s, hs, rfl⟩)
  have hown : (⟨s.address + n, s.size - n, true⟩ : Space).Owns (s.address + n) :=
    ⟨le_rfl, by dsimp only; omega⟩
  have hrep₁ := (h.split hs hpos hdvd hlt).poke hsecond (by simp) hown
    (setSize (mem (s.address + n)) (s.size - n))
  have hrep₂ := hrep₁.poke hfirst (by simp) ⟨le_rfl, Nat.lt_add_of_pos_right hpos⟩
    (setSize (mem₁ s.address) n)
  have hrep₃ := hrep₂.poke hsecond (by simp) hown (setFlags (mem₂ (s.address + n)) 0)
  have hne : s.address ≠ s.address + n := by omega
  have hrest : metaSize (mem₃ (s.address + n)) = s.size - n := by
    have hlt' : s.size - n < 2 ^ 24 := by omega
    simp only [mem₃, mem₂, mem₁, poke_self, poke_of_ne _ _ hne.symm, metaSize_setFlags,
      metaSize_setSize _ hlt']
  have hword : metaSize (mem₃ s.address) = n := by
    have hlt' : n < 2 ^ 24 := by omega
    simp only [mem₃, mem₂, poke_self, poke_of_ne _ _ hne, metaSize_setSize _ hlt']
  obtain ⟨mem₄, hlink, hframe, hclose⟩ := hrep₃.linkRest hs hpos hfits hrest
  exact ⟨mem₄, hlink, by rw [hframe, hword], hclose⟩

/-- The meta data of the rest of a new block, written as the third path does. -/
theorem breakNew {s : Space} {n : ℕ} (h : Rep t mem dataBlocks blocks lists [s.address])
    (hs : s ∈ spacesOf blocks) (hpos : 0 < n) (hdvd : 8 ∣ n) (hlt : n < s.size)
    (hsize : s.size < 2 ^ 24) (hfits : linkBytes ≤ s.size - n) :
    let mem₁ := Prinbee.poke mem (s.address + n) (setSize (mem (s.address + n)) (s.size - n))
    let mem₂ := Prinbee.poke mem₁ (s.address + n) (setFlags (mem₁ (s.address + n)) 0)
    ∃ mem₃, linkSpace t mem₂ (s.address + n) (s.address + n) = .ok mem₃ ∧
      ∀ w, metaSize w = n → isAllocated w = true →
        Rep t (Prinbee.poke mem₃ s.address w) dataBlocks (replaceSpace s.address
          [⟨s.address, n, false⟩, ⟨s.address + n, s.size - n, true⟩] blocks)
          (Function.update lists (s.size - n) ((s.address + n) :: lists (s.size - n))) [] := by
  intro mem₁ mem₂
  have hsecond : (⟨s.address + n, s.size - n, true⟩ : Space) ∈ spacesOf (replaceSpace s.address
      [⟨s.address, n, false⟩, ⟨s.address + n, s.size - n, true⟩] blocks) :=
    mem_replaceSpace.2 (.inr ⟨by simp, s, hs, rfl⟩)
  have hown : (⟨s.address + n, s.size - n, true⟩ : Space).Owns (s.address + n) :=
    ⟨le_rfl, by dsimp only; omega⟩
  have hrep₁ := (h.split hs hpos hdvd hlt).poke hsecond (by simp) hown
    (setSize (mem (s.address + n)) (s.size - n))
  have hrep₂ := hrep₁.poke hsecond (by simp) hown (setFlags (mem₁ (s.address + n)) 0)
  have hrest : metaSize (mem₂ (s.address + n)) = s.size - n := by
    have hlt' : s.size - n < 2 ^ 24 := by omega
    simp only [mem₂, mem₁, poke_self, metaSize_setFlags, metaSize_setSize _ hlt']
  obtain ⟨mem₃, hlink, -, hclose⟩ := hrep₂.linkRest hs hpos hfits hrest
  exact ⟨mem₃, hlink, hclose⟩

end Rep

/-! ### The three paths -/

/-- The exact space: it is the first one of the list of the size wanted. -/
theorem takeExact_spec (st : FreeSpaceState) {size a : ℕ} {l : List ℕ}
    (h : Rep t st.memory st.dataBlocks blocks lists []) (hl : lists size = a :: l)
    (hsize : size < 2 ^ 24) :
    ∃ mem', takeExact t st size a = .ok ({ st with memory := mem' }, ⟨a + metaBytes, size⟩) ∧
      Allocates t blocks mem' st.dataBlocks ⟨a, size, false⟩ := by
  obtain ⟨s, hs, hfree, rfl, rfl, -⟩ := (h.mem_lists size a).1 (by simp [hl])
  obtain ⟨mem', hunlink, -, hrep⟩ := h.unlink hl
  refine ⟨_, by rw [takeExact, hunlink]; rfl, ?_⟩
  have hnew := hrep.allocate hs (w := setAllocated (setSize (mem' s.address) s.size))
    (by rw [metaSize_setAllocated, metaSize_setSize _ hsize]) (isAllocated_setAllocated _)
  refine ⟨_, _, hnew, mem_replaceSpace.2 (.inr ⟨by simp, s, hs, rfl⟩), rfl, fun r hr hrf => ?_⟩
  exact h.allocated_replace hs rfl hfree _ hr hrf

/-- A larger space: the first one of the list of a larger size. -/
theorem takeLarger_spec (st : FreeSpaceState) {size size' a : ℕ} {l : List ℕ}
    (h : Rep t st.memory st.dataBlocks blocks lists []) (hl : lists size' = a :: l)
    (hpos : 0 < size) (hdvd : 8 ∣ size) (hlt : size < size') :
    ∃ mem' n, takeLarger t st size a = .ok ({ st with memory := mem' }, ⟨a + metaBytes, n⟩) ∧
      size ≤ n ∧ Allocates t blocks mem' st.dataBlocks ⟨a, n, false⟩ := by
  obtain ⟨s, hs, hfree, rfl, rfl, hhole⟩ := (h.mem_lists size' a).1 (by simp [hl])
  obtain ⟨mem₁, hunlink, hkeep, hrep⟩ := h.unlink hl
  have hpage : s.size < 2 ^ 24 := (h.getFreeSpacePointer_eq hs).2.2.1.trans_le t.pageSize_le
  have hmeta : metaSize (mem₁ s.address) = s.size := by rw [hkeep, (h.metaData s hs hhole).1]
  rw [takeLarger, hunlink]
  simp only [ok_bind, hmeta, sub32_of_le hlt.le]
  by_cases hfits : linkBytes ≤ s.size - size
  · -- the rest becomes a free space of its own
    rw [if_pos hfits]
    obtain ⟨mem₂, hlink, hsize, hclose⟩ := hrep.breakLarger hs hpos hdvd hlt hpage hfits
    rw [hlink]
    refine ⟨_, size, rfl, le_rfl, _, _, hclose (setAllocated (mem₂ s.address)) ?_ ?_,
      mem_replaceSpace.2 (.inr ⟨by simp, s, hs, rfl⟩), rfl,
      fun r hr hrf => h.allocated_replace hs rfl hfree _ hr hrf⟩
    · rw [metaSize_setAllocated, hsize]
    · exact isAllocated_setAllocated _
  · -- the whole space is given
    rw [if_neg hfits]
    have hnew := hrep.allocate hs (w := setAllocated (mem₁ s.address))
      (by rw [metaSize_setAllocated, hmeta]) (isAllocated_setAllocated _)
    exact ⟨_, s.size, rfl, hlt.le, _, _, hnew, mem_replaceSpace.2 (.inr ⟨by simp, s, hs, rfl⟩), rfl,
      fun r hr hrf => h.allocated_replace hs rfl hfree _ hr hrf⟩

/-- A new block, when the rest is nothing or can hold its link. -/
theorem takeNewBlock_spec (st : FreeSpaceState) {size : ℕ}
    (h : Rep t st.memory st.dataBlocks blocks lists []) (hpos : 0 < size) (hdvd : 8 ∣ size)
    (hle : size ≤ t.pageSize - 8)
    (hrest : t.pageSize - 8 - size = 0 ∨ linkBytes ≤ t.pageSize - 8 - size) :
    ∃ mem', takeNewBlock t st (t.pageSize - 8) size =
        .ok ({ st with
          memory := mem'
          dataBlocks := t.newDataBlock st.dataBlocks :: st.dataBlocks },
          ⟨t.newDataBlock st.dataBlocks + 8 + metaBytes, size⟩) ∧
      Allocates t blocks mem' (t.newDataBlock st.dataBlocks :: st.dataBlocks)
        ⟨t.newDataBlock st.dataBlocks + 8, size, false⟩ := by
  have hpage : 4096 ≤ t.pageSize := Nat.le_of_dvd t.pageSize_pos t.pageSize_dvd
  have hpage' := t.pageSize_le
  set b := t.newDataBlock st.dataBlocks with hb
  set mem₀ : ℕ → ℕ := fun a => if b + 8 ≤ a ∧ a < b + t.pageSize then 0 else st.memory a with hmem₀
  have hadd := h.addBlock mem₀ true fun x hx => if_neg hx
  rw [← hb] at hadd
  set s : Space := ⟨b + 8, t.pageSize - 8, true⟩ with hsdef
  have hs : s ∈ spacesOf ((b, [s]) :: blocks) := by simp [spacesOf]
  have hold : ∀ new, ∀ r ∈ spacesOf blocks, r.free = false →
      r ∈ spacesOf (replaceSpace s.address new ((b, [s]) :: blocks)) ∧ r.address ≠ s.address :=
    fun new r hr hrf =>
      hadd.allocated_replace hs rfl rfl new (by simp [spacesOf] at hr ⊢; exact .inr hr) hrf
  have hblock : t.pageSize ∣ b := t.newDataBlock_dvd st.dataBlocks
  have hsub : ∀ n, sub64 (b + t.pageSize + n) (t.pageSize - 8) = b + 8 + n := by
    intro n
    rw [sub64, if_pos (by omega)]
    omega
  have hstart : b + sub64 (b + t.pageSize) (t.pageSize - 8) % t.pageSize = b + 8 := by
    rw [show sub64 (b + t.pageSize) (t.pageSize - 8) = b + 8 from hsub 0, Nat.add_mod,
      Nat.mod_eq_zero_of_dvd hblock, Nat.zero_add, Nat.mod_mod, Nat.mod_eq_of_lt (by omega)]
  rw [takeNewBlock]
  simp only [← hb, ← hmem₀, hstart, hsub]
  rcases hrest with hzero | hfits
  · -- the space is the whole block
    rw [hzero, if_neg (by decide)]
    have hsize : s.size = size := by
      dsimp only [s]
      omega
    have hnew := hadd.allocate hs (w := setFlags (setSize (mem₀ (b + 8)) (t.pageSize - 8)) 1)
      (by rw [metaSize_setFlags, metaSize_setSize _ (by omega)]) isAllocated_setFlags_one
    refine ⟨_, rfl, ?_⟩
    rw [poke_self, poke_poke]
    refine ⟨_, _, hnew, mem_replaceSpace.2 (.inr ⟨?_, s, hs, rfl⟩), rfl, hold _⟩
    rw [hsize]
    simp [s]
  · have hlt : size < s.size := by
      rw [linkBytes] at hfits
      dsimp only [s]
      omega
    rw [if_pos ((by decide : metaBytes ≤ linkBytes).trans hfits)]
    obtain ⟨mem₁, hlink, hclose⟩ := hadd.breakNew hs hpos hdvd hlt
      (show t.pageSize - 8 < 2 ^ 24 by omega) hfits
    dsimp only [s] at hlink
    rw [hlink]
    refine ⟨_, rfl, ?_⟩
    rw [poke_self, poke_poke]
    refine ⟨_, _, hclose _ ?_ isAllocated_setFlags_one,
      mem_replaceSpace.2 (.inr ⟨by simp [s], s, hs, rfl⟩), rfl, hold _⟩
    rw [metaSize_setFlags, metaSize_setSize _ (by omega)]
    omega

/-! ### `get_free_space()` -/

/-- The entry found by the search: it is in use. -/
theorem searchLarger_some {n d d' : ℕ} (h : searchLarger mem n d = some d') :
    mem d' ≠ 0 ∧ ∃ i < n, d' = d + 8 * i := by
  induction n generalizing d with
  | zero => simp [searchLarger] at h
  | succ n ih =>
    rw [searchLarger] at h
    split at h
    · obtain rfl := Option.some.inj h
      exact ⟨by assumption, 0, by omega, by omega⟩
    · obtain ⟨hne, i, hi, hd⟩ := ih h
      exact ⟨hne, i + 1, by omega, by omega⟩

/-- The entry of the `FSPC` block at which the search of a larger space starts. -/
def searchStart (t : TableFile) (size : ℕ) : ℕ :=
  if size < freeSpaceJump then t.freeSpaceBlock + freeSpaceJump else t.freeSpaceBlock + size + 8

/-- The list found by the search is the one of a larger size. -/
theorem searchStart_some {size d : ℕ} (hpage : 8 ∣ t.pageSize) (hdvd : 8 ∣ size)
    (h : searchLarger mem ((t.freeSpaceBlock + t.pageSize - searchStart t size) / 8)
      (searchStart t size) = some d) :
    mem d ≠ 0 ∧ t.freeSpaceBlock + size < d ∧ d < t.freeSpaceBlock + t.pageSize ∧
      8 ∣ d - t.freeSpaceBlock := by
  obtain ⟨hne, i, hi, rfl⟩ := searchLarger_some h
  have hstart : t.freeSpaceBlock + size + 8 ≤ searchStart t size ∧
      8 ∣ searchStart t size - t.freeSpaceBlock := by
    rw [searchStart, freeSpaceJump]
    split <;> omega
  exact ⟨hne, by omega, by omega, by omega⟩

/-- No list has a space for the size: the call asks for a new block. -/
def NeedsNewBlock (t : TableFile) (st : FreeSpaceState) (size : ℕ) : Prop :=
  st.memory (t.freeSpaceBlock + size) = 0 ∧
    searchLarger st.memory ((t.freeSpaceBlock + t.pageSize - searchStart t size) / 8)
      (searchStart t size) = none

/-- The rest of a new block is nothing, or can hold its link. -/
def RestFits (t : TableFile) (size : ℕ) : Prop :=
  t.pageSize - 8 - size = 0 ∨ linkBytes ≤ t.pageSize - 8 - size

/-- The size of a list, and its first space, from an entry in use. -/
theorem Rep.list_of_ne_zero {holes : List ℕ} (h : Rep t mem dataBlocks blocks lists holes)
    {size : ℕ} (h8 : 8 ≤ size) (hdvd : 8 ∣ size) (hlt : size < t.pageSize)
    (hne : mem (t.freeSpaceBlock + size) ≠ 0) :
    ∃ l, lists size = mem (t.freeSpaceBlock + size) :: l := by
  rw [h.heads size h8 hdvd hlt] at hne ⊢
  cases hl : lists size with
  | nil => simp [hl] at hne
  | cons a l => exact ⟨l, rfl⟩

theorem roundUp_spec (m : ℕ) : m ≤ roundUp m 8 ∧ roundUp m 8 < m + 8 ∧ 8 ∣ roundUp m 8 := by
  simp only [roundUp, roundDown]
  refine ⟨by omega, by omega, ?_⟩
  omega

theorem TableFile.pageSize_spec (t : TableFile) : 4096 ≤ t.pageSize ∧ 8 ∣ t.pageSize :=
  ⟨Nat.le_of_dvd t.pageSize_pos t.pageSize_dvd,
    (by decide : 8 ∣ 4096).trans t.pageSize_dvd⟩

theorem totalSpaceAvailable_eq {st : FreeSpaceState}
    (h : st.totalSpace = 0 ∨ st.totalSpace = t.pageSize - 8) :
    totalSpaceAvailable t st = t.pageSize - 8 := by
  obtain ⟨hpage, hpage8⟩ := t.pageSize_spec
  rw [totalSpaceAvailable]
  rcases h with h | h
  · rw [if_pos h, roundDown]
    omega
  · rw [if_neg (by omega), h]

/-- **`get_free_space()`**: a call that makes no rest too small for its link throws, or gives a
space that can hold what is asked for. -/
theorem getFreeSpace_spec {st : FreeSpaceState} (h : Rep t st.memory st.dataBlocks blocks lists [])
    (htotal : st.totalSpace = 0 ∨ st.totalSpace = t.pageSize - 8) {m : ℕ}
    (hm : m + metaBytes ≤ 2 ^ 32)
    (hrest : NeedsNewBlock t st (roundUp (m + metaBytes) 8) →
      RestFits t (roundUp (m + metaBytes) 8)) :
    (∃ e, getFreeSpace t st m = .error e) ∨
      ∃ mem' dataBlocks' a n,
        getFreeSpace t st m = .ok (⟨mem', dataBlocks', t.pageSize - 8⟩, ⟨a + metaBytes, n⟩) ∧
        m + metaBytes ≤ n ∧ Allocates t blocks mem' dataBlocks' ⟨a, n, false⟩ := by
  obtain ⟨hle, hlt, hdvd⟩ := roundUp_spec (m + metaBytes)
  obtain ⟨hpage, hpage8⟩ := t.pageSize_spec
  have hpos : 0 < roundUp (m + metaBytes) 8 := by rw [metaBytes] at hle ⊢; omega
  rw [getFreeSpace]
  simp only [totalSpaceAvailable_eq htotal]
  generalize hsize : roundUp (m + metaBytes) 8 = size at *
  by_cases hwrap : size = 2 ^ 32
  · -- the size is assigned as 0, which get_free_space_pointer() refuses
    left
    rw [hwrap, Nat.mod_self, if_neg (by omega), if_neg (by decide)]
    exact ⟨_, rfl⟩
  rw [Nat.mod_eq_of_lt (by omega)]
  split
  · exact .inl ⟨_, rfl⟩
  split
  · exact .inl ⟨_, rfl⟩
  rename_i htoo hbits
  right
  have hpointer : getFreeSpacePointer t size = .ok (t.freeSpaceBlock + size) := by
    rw [getFreeSpacePointer, if_neg (by omega), roundUp, roundDown,
      show size + 8 - 1 - (size + 8 - 1) % 8 = size by omega, Nat.mod_eq_of_lt (by omega)]
  rw [hpointer, ok_bind]
  split
  · rename_i hne
    obtain ⟨l, hl⟩ := h.list_of_ne_zero (by omega) hdvd (by omega) hne
    obtain ⟨mem', htake, halloc⟩ := takeExact_spec { st with totalSpace := t.pageSize - 8 }
      h hl (by omega)
    exact ⟨mem', st.dataBlocks, _, size, htake, hle, halloc⟩
  · rename_i hzero
    have hstart : (if size < freeSpaceJump then t.freeSpaceBlock + freeSpaceJump
      else t.freeSpaceBlock + size + 8) = searchStart t size := rfl
    rw [hstart]
    split
    · rename_i d hd
      obtain ⟨hne, hstart', hend, hd8⟩ := searchStart_some hpage8 hdvd hd
      obtain ⟨size', rfl⟩ : ∃ size', d = t.freeSpaceBlock + size' :=
        ⟨d - t.freeSpaceBlock, by omega⟩
      obtain ⟨l, hl⟩ := h.list_of_ne_zero (by omega) (by simpa using hd8) (by omega) hne
      obtain ⟨mem', n, htake, hn, halloc⟩ :=
        takeLarger_spec { st with totalSpace := t.pageSize - 8 } h hl hpos hdvd (by omega)
      exact ⟨mem', st.dataBlocks, _, n, htake, hle.trans hn, halloc⟩
    · rename_i hd
      obtain ⟨mem', htake, halloc⟩ :=
        takeNewBlock_spec { st with totalSpace := t.pageSize - 8 } h hpos hdvd (by omega)
          (hrest ⟨not_not.1 hzero, hd⟩)
      exact ⟨mem', _, _, size, htake, hle, halloc⟩

/-! ### Runs -/

/-- A call of the program. -/
inductive FreeSpaceCall
  | getFreeSpace (minimumSize : ℕ)
  | releaseSpace (reference : ℕ)
  deriving DecidableEq, Repr

/-- A space that was given and has not been released, with the size asked for. -/
structure Region where
  reference : ℕ
  size : ℕ
  requested : ℕ
  deriving DecidableEq, Repr

/-- A run of the program: the allocator and the live regions. -/
structure FreeSpaceRun where
  state : FreeSpaceState
  live : List Region

namespace FreeSpaceRun

variable (t) (body : FreeSpaceState → ℕ → Except Failure FreeSpaceState)

/-- One call.  A call that throws leaves the regions as they were. -/
def step (r : FreeSpaceRun) : FreeSpaceCall → Except Failure FreeSpaceRun
  | .getFreeSpace m =>
    match getFreeSpace t r.state m with
    | .ok (state, result) => .ok ⟨state, ⟨result.reference, result.size, m⟩ :: r.live⟩
    | .error _ => .ok r
  | .releaseSpace reference =>
    match releaseSpace body r.state reference with
    | .ok state => .ok ⟨state, r.live.filter fun e => e.reference ≠ reference⟩
    | .error _ => .ok r

/-- What is promised of a run.  A live region is an allocated space of the layout, inside the
payload of a data block, with room for the bytes asked for; two of them share no byte, meta data
included; and the blocks and the lists are as `Rep` says, with no exception. -/
structure Safe (r : FreeSpaceRun) (blocks : List DataBlock) (lists : ℕ → List ℕ) : Prop where
  layout : Rep t r.state.memory r.state.dataBlocks blocks lists []
  allocated : ∀ e ∈ r.live, ∃ s ∈ spacesOf blocks, s.free = false ∧
    e.reference = s.address + metaBytes ∧ e.size = s.size
  inside : ∀ e ∈ r.live, ∃ b ∈ r.state.dataBlocks, b + 8 + metaBytes ≤ e.reference ∧
    e.reference + e.requested ≤ b + t.pageSize
  room : ∀ e ∈ r.live, e.requested + metaBytes ≤ e.size
  apart : r.live.Pairwise fun e e' =>
    e.reference + e.size ≤ e'.reference ∨ e'.reference + e'.size ≤ e.reference

/-- The condition on a call: the size asked for does not wrap, and a new block is not broken
where the rest cannot hold its link.  A release is of a live reference. -/
def Splits (r : FreeSpaceRun) : FreeSpaceCall → Prop
  | .getFreeSpace m => m + metaBytes ≤ 2 ^ 32 ∧
    (NeedsNewBlock t r.state (roundUp (m + metaBytes) 8) → RestFits t (roundUp (m + metaBytes) 8))
  | .releaseSpace reference => ∃ e ∈ r.live, e.reference = reference

/-- A program that starts with a table file that has no data block yet. -/
def start (memory : ℕ → ℕ) (totalSpace : ℕ) : FreeSpaceRun := ⟨⟨memory, [], totalSpace⟩, []⟩

variable {t body}

/-- The space of an allocation becomes a live region. -/
theorem Safe.cons {r : FreeSpaceRun} (h : Safe t r blocks lists) {mem' : ℕ → ℕ}
    {dataBlocks' : List ℕ} {totalSpace a n m : ℕ} (hn : m + metaBytes ≤ n)
    (halloc : Allocates t blocks mem' dataBlocks' ⟨a, n, false⟩) :
    ∃ blocks' lists', Safe t ⟨⟨mem', dataBlocks', totalSpace⟩, ⟨a + metaBytes, n, m⟩ :: r.live⟩
      blocks' lists' := by
  obtain ⟨blocks', lists', hrep, hnew, -, hold⟩ := halloc
  have hlive : ∀ e ∈ (⟨a + metaBytes, n, m⟩ : Region) :: r.live, ∃ s ∈ spacesOf blocks',
      s.free = false ∧ e.reference = s.address + metaBytes ∧ e.size = s.size := by
    intro e he
    rcases List.mem_cons.1 he with rfl | he
    · exact ⟨_, hnew, rfl, rfl, rfl⟩
    · obtain ⟨s, hs, hfree, heq⟩ := h.allocated e he
      exact ⟨s, (hold s hs hfree).1, hfree, heq⟩
  have hroom : ∀ e ∈ (⟨a + metaBytes, n, m⟩ : Region) :: r.live,
      e.requested + metaBytes ≤ e.size := by
    intro e he
    rcases List.mem_cons.1 he with rfl | he
    · exact hn
    · exact h.room e he
  refine ⟨blocks', lists', hrep, hlive, ?_, hroom, List.pairwise_cons.2 ⟨?_, h.apart⟩⟩
  · intro e he
    obtain ⟨s, hs, -, href, hsize⟩ := hlive e he
    obtain ⟨b, hb, hb1, hb2, -⟩ := hrep.inBlock hs
    have hle := hroom e he
    exact ⟨b, hb, by omega, by omega⟩
  · intro e he
    obtain ⟨s, hs, hfree, href, hsize⟩ := h.allocated e he
    obtain ⟨hs', hne⟩ := hold s hs hfree
    rcases hrep.apart hnew hs' with heq | hle | hle
    · exact absurd (congrArg Space.address heq).symm hne
    · dsimp only at hle ⊢
      omega
    · dsimp only at hle ⊢
      omega

/-- One call keeps a run safe. -/
theorem step_safe {r : FreeSpaceRun} (h : Safe t r blocks lists)
    (htotal : r.state.totalSpace = 0 ∨ r.state.totalSpace = t.pageSize - 8) (c : FreeSpaceCall)
    (hc : Splits t r c) :
    ∃ r', step t body r c = .ok r' ∧ (∃ blocks' lists', Safe t r' blocks' lists') ∧
      (r'.state.totalSpace = 0 ∨ r'.state.totalSpace = t.pageSize - 8) := by
  cases c with
  | getFreeSpace m =>
    rcases getFreeSpace_spec h.layout htotal hc.1 hc.2 with
      ⟨e, he⟩ | ⟨mem', dataBlocks', a, n, hget, hn, halloc⟩
    · exact ⟨r, by rw [step, he], ⟨blocks, lists, h⟩, htotal⟩
    · exact ⟨_, by rw [step, hget], h.cons hn halloc, .inr rfl⟩
  | releaseSpace reference =>
    -- a reference is 4 bytes after a multiple of 8
    obtain ⟨e, he, rfl⟩ := hc
    obtain ⟨s, hs, -, href, -⟩ := h.allocated e he
    have hdvd := h.layout.address_dvd hs
    rw [metaBytes] at href
    exact ⟨r, by rw [step, releaseSpace, if_pos (by omega)], ⟨blocks, lists, h⟩, htotal⟩

/-- A table file with no data block and empty lists. -/
theorem start_safe {memory : ℕ → ℕ} {totalSpace : ℕ}
    (hmem : ∀ size, 8 ≤ size → size < t.pageSize → memory (t.freeSpaceBlock + size) = 0) :
    Safe t (start memory totalSpace) [] fun _ => [] := by
  refine ⟨?_, by simp [start], by simp [start], by simp [start], List.Pairwise.nil⟩
  exact
    { offsets := rfl
      nodup := List.nodup_nil
      pages := by simp [start]
      tiles := by simp
      metaData := by simp [spacesOf]
      fits := by simp [spacesOf]
      heads := fun size h8 _ hlt => hmem size h8 hlt
      links := fun _ => trivial
      lists_nodup := fun _ => List.nodup_nil
      mem_lists := by simp [spacesOf] }

/-- A file of pages of 4096 bytes. -/
def smallTable : TableFile :=
  TableFile.sequential 4096 (by decide) (by decide) (by decide)

/-- The first space of the table of `smallTable` for 4076 bytes: the 8 bytes that follow it are
in the list of their size. -/
theorem getFreeSpace_small :
    ∃ st result, getFreeSpace smallTable ⟨fun _ => 0, [], 0⟩ 4076 = .ok (st, result) ∧
      st.memory (smallTable.freeSpaceBlock + 8) ≠ 0 := by
  have hslot : ((getFreeSpace smallTable ⟨fun _ => 0, [], 0⟩ 4076).toOption.map
      fun p => p.1.memory (smallTable.freeSpaceBlock + 8)) = some 12280 := by decide
  cases hget : getFreeSpace smallTable ⟨fun _ => 0, [], 0⟩ 4076 with
  | error e => rw [hget] at hslot; simp [Except.toOption] at hslot
  | ok p =>
    rw [hget] at hslot
    have hvalue : p.1.memory (smallTable.freeSpaceBlock + 8) = 12280 := Option.some.inj hslot
    exact ⟨p.1, p.2, rfl, by omega⟩

end FreeSpaceRun

end Prinbee
