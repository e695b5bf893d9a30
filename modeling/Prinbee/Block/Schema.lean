import Mathlib.Algebra.Order.BigOperators.Group.List
import Mathlib.Order.Bounds.Basic
import Prinbee.Block.Calls
import Prinbee.Data.DbFile
import Prinbee.Data.VirtualBufferRefinement
import Prinbee.Database.BlockAllocation
import Prinbee.Lib.LinkedList

/-!
# The schema of a table in its blocks

A schema is written in a chain of SCHM blocks, each with the number of bytes it holds and the offset
of the next one.  `set_schema()` reuses the blocks that are there, makes new ones at the end and
frees those that are left over.  It counts the bytes with 32 bits.

Allocation is taken as it should be: a new block is one that is not in use.

## Main definitions

* `SchemaBlock`, `BlockAllocator`, `SchemaFile` — the blocks of a table.
* `SchemaFile.setSchema`, `SchemaFile.getSchema` — the two functions; they have no result when they
  are not given enough steps.
* `SchemaFile.Held` — what a call to `set_schema()` has to do.
* `PageSize.Fits` — the sizes that it does it for.

## Main results

* `SchemaFile.setSchema_spec` — what a call does.
* `SchemaFile.held_iff` — a run of calls does what it has to exactly when all sizes fit.
-/

namespace Prinbee

open LinkedList

namespace PageSize

variable (p : PageSize)

/-- `get_static_size()` of a SCHM block. -/
def staticSize : ℕ := 20

/-- The bytes of a page that follow the fields. -/
def payloadSize : ℕ := p.pageSize - staticSize

/-- `size_per_page`. -/
def sizePerPage : ℕ := p.payloadSize % 2 ^ 32

/-- A size that is counted right: with pages of more than 32 bits, in one page. -/
def Fits (n : ℕ) : Prop := n < 2 ^ 32 ∧ (p.payloadSize < 2 ^ 32 ∨ n ≤ p.sizePerPage)

end PageSize

/-- A SCHM block: its fields and the bytes that follow them. -/
structure SchemaBlock where
  size : ℕ
  nextSchemaBlock : ℕ
  payload : Bytes

/-- The page of the block. -/
def SchemaBlock.page (b : SchemaBlock) : Bytes :=
  DbType.schema.magic ++ UInt512.toBytes 4 0 ++ UInt512.toBytes 4 b.size ++
    UInt512.toBytes 8 b.nextSchemaBlock ++ b.payload

/-- `allocate_new_block()` and `free_block()`: a new block is not in use, and is in use until it is
freed. -/
structure BlockAllocator (σ : Type) where
  IsLive : σ → ℕ → Prop
  allocateNewBlock : σ → ℕ × σ
  freeBlock : σ → ℕ → σ
  new_ne_null : ∀ a, (allocateNewBlock a).1 ≠ nullFileAddr
  not_isLive_new : ∀ a, ¬ IsLive a (allocateNewBlock a).1
  isLive_new : ∀ a o, IsLive (allocateNewBlock a).2 o ↔ o = (allocateNewBlock a).1 ∨ IsLive a o
  isLive_freeBlock : ∀ a o o', IsLive (freeBlock a o) o' ↔ IsLive a o' ∧ o' ≠ o

/-- The blocks that are in use are a list; a new one comes after all of them. -/
def BlockAllocator.list : BlockAllocator (List ℕ) where
  IsLive live o := o ∈ live
  allocateNewBlock live := (live.sum + 1, (live.sum + 1) :: live)
  freeBlock live o := live.filter (· ≠ o)
  new_ne_null live := Nat.succ_ne_zero _
  not_isLive_new live hmem := by
    have hle : live.sum + 1 ≤ live.sum := List.single_le_sum (fun _ _ => Nat.zero_le _) _ hmem
    omega
  isLive_new live o := List.mem_cons
  isLive_freeBlock live o o' := by rw [List.mem_filter, decide_eq_true_iff]

/-- The SCHM blocks of a table, and the calls to `free_block()` so far. -/
structure SchemaFile (σ : Type) where
  allocator : σ
  blocks : ℕ → Option SchemaBlock
  freed : List ℕ := []

/-- A schema is a virtual buffer. -/
abbrev SchemaBuffer := { vb : VirtualBuffer // vb.WellFormed }

namespace SchemaFile

variable {σ : Type} (p : PageSize) (A : BlockAllocator σ)

/-- The table writes to a block. -/
def setBlock (f : SchemaFile σ) (s : ℕ) (b : SchemaBlock) : SchemaFile σ :=
  { f with blocks := Function.update f.blocks s (some b) }

/-- `allocate_new_block()`: the new block is cleared. -/
def allocateNewBlock (f : SchemaFile σ) : ℕ × SchemaFile σ :=
  let (o, allocator) := A.allocateNewBlock f.allocator
  (o, { f with allocator }.setBlock o ⟨0, nullFileAddr, List.replicate p.payloadSize 0⟩)

/-- `free_block()`: the block is a SCHM block no more. -/
def freeBlock (f : SchemaFile σ) (o : ℕ) : SchemaFile σ where
  allocator := A.freeBlock f.allocator o
  blocks := Function.update f.blocks o none
  freed := f.freed ++ [o]

/-- The loop that frees the blocks that are left over. -/
def freeLoop : ℕ → ℕ → SchemaFile σ → Option (SchemaFile σ)
  | 0, next, f => if next = nullFileAddr then some f else none
  | fuel + 1, next, f =>
    if next = nullFileAddr then some f
    else do
      let nextSchema ← f.blocks next
      freeLoop fuel nextSchema.nextSchemaBlock (f.freeBlock A next)

/-- The loop of `set_schema()`, at a block. -/
def writeLoop (schema : VirtualBuffer) : ℕ → ℕ → ℕ → ℕ → SchemaFile σ → Option (SchemaFile σ)
  | 0, _, _, _, _ => none
  | fuel + 1, s, pos, remainingSize, f => do
    let b ← f.blocks s
    let size := min p.sizePerPage remainingSize
    let bytes ← (schema.pread size pos true).toOption
    let b := { b with size, payload := b.payload.overwrite 0 bytes }
    let next := b.nextSchemaBlock
    if remainingSize - size = 0 then
      freeLoop A fuel next (f.setBlock s { b with nextSchemaBlock := nullFileAddr })
    else if next = nullFileAddr then
      let (newBlock, f) := (f.setBlock s b).allocateNewBlock p A
      writeLoop schema fuel newBlock (pos + size) (remainingSize - size)
        (f.setBlock s { b with nextSchemaBlock := newBlock })
    else writeLoop schema fuel next (pos + size) (remainingSize - size) (f.setBlock s b)

/-- `set_schema()` of the block at that offset. -/
def setSchema (fuel start : ℕ) (schema : VirtualBuffer) (f : SchemaFile σ) :
    Option (SchemaFile σ) :=
  writeLoop p A schema fuel start 0 (schema.totalSize % 2 ^ 32) f

/-- The memory of the blocks. -/
def memory (f : SchemaFile σ) : Blocks := fun o => ((f.blocks o).map SchemaBlock.page).getD []

/-- The loop of `get_schema()`. -/
def readLoop (f : SchemaFile σ) : ℕ → ℕ → VirtualBuffer → Option VirtualBuffer
  | 0, _, _ => none
  | fuel + 1, s, result => do
    let b ← f.blocks s
    let result ← (result.addBuffer s PageSize.staticSize b.size).toOption
    if b.nextSchemaBlock = nullFileAddr then some result
    else readLoop f fuel b.nextSchemaBlock result

/-- `get_schema()` of the block at that offset. -/
def getSchema (f : SchemaFile σ) (fuel start : ℕ) : Option VirtualBuffer :=
  f.readLoop fuel start { blocks := f.memory }

/-! ### The property -/

/-- The offset of the block after that one. -/
def nextOf (f : SchemaFile σ) (o : ℕ) : ℕ :=
  ((f.blocks o).map SchemaBlock.nextSchemaBlock).getD nullFileAddr

/-- The offsets of the blocks of the chain. -/
def IsChain (f : SchemaFile σ) (start : ℕ) (l : List ℕ) : Prop :=
  Chain f.nextOf 0 start l ∧ nullFileAddr ∉ l

/-- A call to `set_schema()` that returns with `f'`. -/
def SetSchema (start : ℕ) (schema : VirtualBuffer) (f f' : SchemaFile σ) : Prop :=
  ∃ n, ∀ fuel ≥ n, setSchema p A fuel start schema f = some f'

/-- A call to `get_schema()` that returns that buffer. -/
def GetSchema (f : SchemaFile σ) (start : ℕ) (vb : VirtualBuffer) : Prop :=
  ∃ n, ∀ fuel ≥ n, f.getSchema fuel start = some vb

/-- **The block holds the schema**: `get_schema()` returns its bytes, no shorter chain has room for
them, and the blocks that the chain lost were freed, each one once, and no others. -/
structure Held (start : ℕ) (schema : VirtualBuffer) (f f' : SchemaFile σ) : Prop where
  contents : ∃ vb, GetSchema f' start vb ∧ vb.contents = schema.contents
  chains : ∃ l l', IsChain f start l ∧ IsChain f' start l' ∧
    IsLeast {k | 0 < k ∧ schema.totalSize ≤ k * p.payloadSize} l'.length ∧
    ∃ released, f'.freed = f.freed ++ released ∧ released.Nodup ∧
      ∀ o, o ∈ released ↔ o ∈ l ∧ o ∉ l'

/-- Each call of the run returns and the block holds its schema then. -/
def HeldAlong (start : ℕ) : SchemaFile σ → List SchemaBuffer → Prop
  | _, [] => True
  | f, schema :: schemas => ∃ f', SetSchema p A start schema.1 f f' ∧
      Held p start schema.1 f f' ∧ HeldAlong start f' schemas

end SchemaFile

namespace PageSize

variable {p : PageSize}

theorem staticSize_lt (p : PageSize) : staticSize < p.pageSize :=
  lt_of_lt_of_le (by decide) p.pageSize_ge

/-- A block holds something: the size of the fields is not a multiple of that of a system page. -/
theorem sizePerPage_pos (p : PageSize) : 0 < p.sizePerPage := by
  apply Nat.pos_of_ne_zero
  intro hzero
  have hdvd : 2 ^ p.exponent ∣ p.pageSize - staticSize :=
    (pow_dvd_pow 2 p.exponent_le).trans (Nat.dvd_of_mod_eq_zero hzero)
  have hfields : 2 ^ p.exponent ∣ staticSize :=
    (Nat.dvd_sub_iff_right p.staticSize_lt.le (Dvd.intro_left p.count rfl)).1 hdvd
  have hle : 2 ^ 5 ≤ 2 ^ p.exponent := Nat.pow_le_pow_right (by decide) p.exponent_ge
  exact absurd (Nat.le_of_dvd (by decide) hfields) (not_le.2 (lt_of_lt_of_le (by decide) hle))

theorem sizePerPage_le (p : PageSize) : p.sizePerPage ≤ p.payloadSize := Nat.mod_le _ _

/-- How many blocks `set_schema()` uses. -/
def blockCount (p : PageSize) (n : ℕ) : ℕ := (n - 1) / p.sizePerPage + 1

theorem blockCount_of_le {n : ℕ} (h : n ≤ p.sizePerPage) : p.blockCount n = 1 := by
  have hpos := p.sizePerPage_pos
  rw [blockCount, Nat.div_eq_of_lt (by omega)]

theorem blockCount_of_lt {n : ℕ} (h : p.sizePerPage < n) :
    p.blockCount n = p.blockCount (n - p.sizePerPage) + 1 := by
  have hsplit : n - 1 = (n - p.sizePerPage - 1) + p.sizePerPage := by omega
  rw [blockCount, blockCount, hsplit, Nat.add_div_right _ p.sizePerPage_pos]

/-- When pages are counted right, there are as many as needed. -/
theorem isLeast_blockCount (h : p.payloadSize < 2 ^ 32) (n : ℕ) :
    IsLeast {k | 0 < k ∧ n ≤ k * p.payloadSize} (p.blockCount n) := by
  have hsize : p.sizePerPage = p.payloadSize := Nat.mod_eq_of_lt h
  have hpos := p.sizePerPage_pos
  rw [hsize] at hpos
  rw [blockCount, hsize]
  constructor
  · have hlt : n - 1 < (n - 1) / p.payloadSize * p.payloadSize + p.payloadSize :=
      Nat.lt_div_mul_add hpos
    refine ⟨Nat.succ_pos _, ?_⟩
    rw [Nat.add_mul, Nat.one_mul]
    omega
  · intro k ⟨hk, hle⟩
    apply Nat.succ_le_of_lt
    rw [Nat.div_lt_iff_lt_mul hpos]
    have hkpos : 0 < k * p.payloadSize := Nat.mul_pos hk hpos
    omega

end PageSize

namespace SchemaFile

variable {σ : Type} {p : PageSize} {A : BlockAllocator σ} {f f' : SchemaFile σ} {s : ℕ}
  {l l' : List ℕ}

/-! ### Chains -/

/-- The bytes of the schema in a block. -/
def shown (f : SchemaFile σ) (o : ℕ) : Bytes :=
  ((f.blocks o).map fun b => b.payload.take b.size).getD []

/-- A chain of blocks that are in use. -/
structure Linked (p : PageSize) (A : BlockAllocator σ) (f : SchemaFile σ) (s : ℕ) (l : List ℕ) :
    Prop where
  chain : IsChain f s l
  nodup : l.Nodup
  live : ∀ o ∈ l, A.IsLive f.allocator o
  block : ∀ o ∈ l, ∃ b, f.blocks o = some b ∧ b.payload.length = p.payloadSize ∧
    b.size ≤ p.payloadSize

theorem nextOf_of_blocks {b : SchemaBlock} (h : f.blocks s = some b) :
    f.nextOf s = b.nextSchemaBlock := by
  rw [nextOf, h]
  rfl

theorem shown_of_blocks {b : SchemaBlock} (h : f.blocks s = some b) :
    f.shown s = b.payload.take b.size := by
  rw [shown, h]
  rfl

/-- Blocks that do not change, and are still in use. -/
theorem Linked.congr (h : Linked p A f s l) (hblocks : ∀ o ∈ l, f'.blocks o = f.blocks o)
    (hlive : ∀ o ∈ l, A.IsLive f'.allocator o) : Linked p A f' s l where
  chain := by
    refine ⟨h.chain.1.congr ?_, h.chain.2⟩
    intro o ho
    change f'.nextOf o = f.nextOf o
    rw [nextOf, nextOf, hblocks o ho]
  nodup := h.nodup
  live := hlive
  block := by
    intro o ho
    rw [hblocks o ho]
    exact h.block o ho

theorem Linked.tail (h : Linked p A f s (s :: l)) : Linked p A f (f.nextOf s) l where
  chain := ⟨h.chain.1.2, fun hmem => h.chain.2 (List.mem_cons_of_mem s hmem)⟩
  nodup := (List.nodup_cons.1 h.nodup).2
  live o ho := h.live o (List.mem_cons_of_mem s ho)
  block o ho := h.block o (List.mem_cons_of_mem s ho)

/-- A block in front of a chain. -/
theorem Linked.cons {u : ℕ} {b : SchemaBlock} (h : Linked p A f u l) (hb : f.blocks s = some b)
    (hnext : b.nextSchemaBlock = u) (hlength : b.payload.length = p.payloadSize)
    (hsize : b.size ≤ p.payloadSize) (hlive : A.IsLive f.allocator s) (hs : s ∉ l)
    (hnull : s ≠ nullFileAddr) : Linked p A f s (s :: l) where
  chain := by
    constructor
    · refine ⟨rfl, ?_⟩
      change Chain f.nextOf 0 (f.nextOf s) l
      rw [nextOf_of_blocks hb, hnext]
      exact h.chain.1
    · intro hmem
      obtain heq | hmem := List.mem_cons.1 hmem
      · exact hnull heq.symm
      · exact h.chain.2 hmem
  nodup := List.nodup_cons.2 ⟨hs, h.nodup⟩
  live o ho := by
    obtain rfl | ho := List.mem_cons.1 ho
    · exact hlive
    · exact h.live o ho
  block o ho := by
    obtain rfl | ho := List.mem_cons.1 ho
    · exact ⟨b, hb, hlength, hsize⟩
    · exact h.block o ho

/-- A chain starts at its first block, and ends at no block. -/
theorem Linked.eq_null_iff (h : Linked p A f s l) : s = nullFileAddr ↔ l = [] := by
  cases l with
  | nil => exact iff_of_true h.chain.1 rfl
  | cons o l =>
    refine iff_of_false ?_ (List.cons_ne_nil o l)
    intro hs
    have ho : s = o := h.chain.1.1
    exact h.chain.2 (hs ▸ ho ▸ List.mem_cons_self)

/-! ### Blocks that are freed -/

theorem freeLoop_spec (h : Linked p A f s l) :
    ∃ f', (∀ fuel ≥ l.length, freeLoop A fuel s f = some f') ∧ f'.freed = f.freed ++ l ∧
      (∀ o ∉ l, f'.blocks o = f.blocks o) ∧
      ∀ o, A.IsLive f'.allocator o ↔ A.IsLive f.allocator o ∧ o ∉ l := by
  induction l generalizing f s with
  | nil =>
    have hs : s = nullFileAddr := h.eq_null_iff.2 rfl
    refine ⟨f, ?_, (List.append_nil _).symm, fun o _ => rfl, fun o => by simp⟩
    intro fuel _
    cases fuel <;> rw [freeLoop, if_pos hs]
  | cons o l ih =>
    obtain rfl : s = o := h.chain.1.1
    have hs : s ≠ nullFileAddr := fun hs => List.cons_ne_nil s l (h.eq_null_iff.1 hs)
    obtain ⟨b, hb, -⟩ := h.block s List.mem_cons_self
    have hnotin := (List.nodup_cons.1 h.nodup).1
    have htail : Linked p A (f.freeBlock A s) b.nextSchemaBlock l := by
      have hnext := h.tail
      rw [nextOf_of_blocks hb] at hnext
      refine hnext.congr ?_ ?_
      · intro o ho
        have hne : o ≠ s := ne_of_mem_of_not_mem ho hnotin
        exact Function.update_of_ne hne _ _
      · intro o ho
        exact (A.isLive_freeBlock _ s o).2 ⟨hnext.live o ho, ne_of_mem_of_not_mem ho hnotin⟩
    obtain ⟨f', hfuel, hfreed, hblocks, hlive⟩ := ih htail
    refine ⟨f', ?_, ?_, ?_, ?_⟩
    · intro fuel hle
      obtain ⟨k, rfl⟩ : ∃ k, fuel = k + 1 := ⟨fuel - 1, by rw [List.length_cons] at hle; omega⟩
      rw [freeLoop, if_neg hs, hb]
      exact hfuel k (Nat.le_of_succ_le_succ hle)
    · rw [hfreed]
      exact List.append_assoc f.freed [s] l
    · intro o ho
      rw [List.mem_cons, not_or] at ho
      rw [hblocks o ho.2]
      exact Function.update_of_ne ho.1 _ _
    · intro o
      rw [hlive, List.mem_cons, not_or, ← and_assoc]
      exact and_congr_left fun _ => A.isLive_freeBlock _ s o

/-! ### Blocks that are written -/

/-- What the loop of `set_schema()` does with the chain `l` from a block on: it becomes `l'`, which
has `count` blocks and shows `bytes`. -/
structure Wrote (p : PageSize) (A : BlockAllocator σ) (f f' : SchemaFile σ) (s : ℕ) (l l' : List ℕ)
    (count : ℕ) (bytes : Bytes) : Prop where
  linked : Linked p A f' s l'
  length : l'.length = count
  kept : ∀ o ∈ l, o ∈ l' ↔ o ∈ l.take count
  freed : f'.freed = f.freed ++ l.drop count
  shown : l'.flatMap f'.shown = bytes
  fresh : ∀ o ∈ l', o ∈ l ∨ ¬ A.IsLive f.allocator o
  frame : ∀ o ∉ l, A.IsLive f.allocator o → f'.blocks o = f.blocks o ∧ A.IsLive f'.allocator o

/-- `pread()` of bytes that are there. -/
theorem toOption_pread {schema : VirtualBuffer} (h : schema.WellFormed) {size pos : ℕ}
    (hle : pos + size ≤ schema.totalSize) :
    (schema.pread size pos true).toOption = some (schema.contents.slice pos size) := by
  rw [VirtualBuffer.pread_full_eq h hle]
  rfl

/-- The block that is written at a step. -/
def written (schema : VirtualBuffer) (pos size next : ℕ) (b : SchemaBlock) : SchemaBlock :=
  { size
    nextSchemaBlock := next
    payload := b.payload.overwrite 0 (schema.contents.slice pos size) }

section Written

variable {schema : VirtualBuffer} {pos size next : ℕ} {b : SchemaBlock}

theorem length_payload_written (h : schema.WellFormed) (hpos : pos + size ≤ schema.totalSize)
    (hlength : b.payload.length = p.payloadSize) (hsize : size ≤ p.payloadSize) :
    (written schema pos size next b).payload.length = p.payloadSize := by
  rw [← h.length_contents] at hpos
  have hslice := List.length_slice_of_le hpos
  rw [written, List.length_overwrite_of_le (by omega), hlength]

theorem take_payload_written (h : schema.WellFormed) (hpos : pos + size ≤ schema.totalSize) :
    (written schema pos size next b).payload.take size = schema.contents.slice pos size := by
  rw [← h.length_contents] at hpos
  have hslice := List.length_slice_of_le hpos
  have hstart := List.slice_overwrite_start (Nat.zero_le b.payload.length) hslice.ge
  rw [List.slice, List.drop_zero, List.take_of_length_le hslice.le] at hstart
  exact hstart

/-- The file when a new block was linked to the one that was written. -/
def extended (p : PageSize) (A : BlockAllocator σ) (schema : VirtualBuffer) (pos size s : ℕ)
    (b : SchemaBlock) (f : SchemaFile σ) : SchemaFile σ :=
  let new := (f.setBlock s (written schema pos size b.nextSchemaBlock b)).allocateNewBlock p A
  new.2.setBlock s (written schema pos size new.1 b)

/-- A step of the loop. -/
theorem writeLoop_succ (h : schema.WellFormed) {n : ℕ} (hpos : pos + n ≤ schema.totalSize)
    (hb : f.blocks s = some b) (fuel : ℕ) :
    writeLoop p A schema (fuel + 1) s pos n f =
      let size := min p.sizePerPage n
      if n - size = 0 then
        freeLoop A fuel b.nextSchemaBlock (f.setBlock s (written schema pos size nullFileAddr b))
      else if b.nextSchemaBlock = nullFileAddr then
        writeLoop p A schema fuel (A.allocateNewBlock f.allocator).1 (pos + size) (n - size)
          (extended p A schema pos size s b f)
      else
        writeLoop p A schema fuel b.nextSchemaBlock (pos + size) (n - size)
          (f.setBlock s (written schema pos size b.nextSchemaBlock b)) := by
  have hsize : pos + min p.sizePerPage n ≤ schema.totalSize := by omega
  rw [writeLoop, hb]
  simp only [Option.bind_eq_bind, Option.bind_some, toOption_pread h hsize]
  rfl

end Written

theorem linked_null (p : PageSize) (A : BlockAllocator σ) (f : SchemaFile σ) :
    Linked p A f nullFileAddr [] where
  chain := ⟨rfl, List.not_mem_nil⟩
  nodup := List.nodup_nil
  live o ho := by cases ho
  block o ho := by cases ho

@[simp] theorem setBlock_self (f : SchemaFile σ) (s : ℕ) (b : SchemaBlock) :
    (f.setBlock s b).blocks s = some b := Function.update_self _ _ _

theorem setBlock_of_ne {o : ℕ} (h : o ≠ s) (f : SchemaFile σ) (b : SchemaBlock) :
    (f.setBlock s b).blocks o = f.blocks o := Function.update_of_ne h _ _

/-- The other blocks of the chain do not see that its first one is written. -/
theorem Linked.setBlock (h : Linked p A f s (s :: l)) {b : SchemaBlock}
    (hb : f.blocks s = some b) (b' : SchemaBlock) :
    Linked p A (f.setBlock s b') b.nextSchemaBlock l := by
  have htail := h.tail
  rw [nextOf_of_blocks hb] at htail
  apply htail.congr
  · intro o ho
    exact setBlock_of_ne (ne_of_mem_of_not_mem ho (List.nodup_cons.1 h.nodup).1) f b'
  · exact htail.live

section Steps

variable {schema : VirtualBuffer} {pos n : ℕ} {b : SchemaBlock}

/-- The last block: what comes after it in the chain is freed. -/
theorem wrote_last (h : schema.WellFormed) (hpos : pos + n ≤ schema.totalSize)
    (hl : Linked p A f s (s :: l)) (hb : f.blocks s = some b) (hn : n ≤ p.sizePerPage) :
    ∃ f', (∀ fuel ≥ l.length + 1, writeLoop p A schema fuel s pos n f = some f') ∧
      Wrote p A f f' s (s :: l) [s] 1 (schema.contents.slice pos n) := by
  obtain ⟨b₀, hb₀, hlength, -⟩ := hl.block s List.mem_cons_self
  obtain rfl : b = b₀ := Option.some.inj (hb.symm.trans hb₀)
  have hnotin := (List.nodup_cons.1 hl.nodup).1
  have hs : s ≠ nullFileAddr := fun hs => hl.chain.2 (hs ▸ List.mem_cons_self)
  have hfits := hn.trans p.sizePerPage_le
  obtain ⟨f', hfuel, hfreed, hblocks, hlive⟩ :=
    freeLoop_spec (hl.setBlock hb (written schema pos n nullFileAddr b))
  have hwritten : f'.blocks s = some (written schema pos n nullFileAddr b) :=
    (hblocks s hnotin).trans (setBlock_self f s _)
  refine ⟨f', ?_, ?_⟩
  · intro fuel hle
    obtain ⟨k, rfl⟩ : ∃ k, fuel = k + 1 := ⟨fuel - 1, by omega⟩
    rw [writeLoop_succ h hpos hb, Nat.min_eq_right hn]
    dsimp only
    rw [if_pos (Nat.sub_self n)]
    exact hfuel k (Nat.le_of_succ_le_succ hle)
  · constructor
    · have hlive' : A.IsLive f'.allocator s := (hlive s).2 ⟨hl.live s List.mem_cons_self, hnotin⟩
      exact (linked_null p A f').cons hwritten rfl (length_payload_written h hpos hlength hfits)
        hfits hlive' List.not_mem_nil hs
    · rfl
    · intro o ho
      rfl
    · exact hfreed
    · rw [List.flatMap_singleton, shown_of_blocks hwritten]
      exact take_payload_written h hpos
    · intro o ho
      exact .inl (List.mem_singleton.1 ho ▸ List.mem_cons_self)
    · intro o ho hliveo
      rw [List.mem_cons, not_or] at ho
      exact ⟨(hblocks o ho.2).trans (setBlock_of_ne ho.1 f _), (hlive o).2 ⟨hliveo, ho.2⟩⟩

/-- A block in front of those that the rest of the loop writes. -/
theorem Wrote.cons {f₁ : SchemaFile σ} {u count : ℕ} {l₁ : List ℕ} {bytes : Bytes}
    (hrest : Wrote p A f₁ f' u l₁ l' count bytes) (hb : f₁.blocks s = some b)
    (hnext : b.nextSchemaBlock = u) (hlength : b.payload.length = p.payloadSize)
    (hsize : b.size ≤ p.payloadSize) (hs : s ∉ l₁) (hnull : s ≠ nullFileAddr)
    (hlive : A.IsLive f₁.allocator s)
    (hkept : ∀ o ∈ l, o ∈ l' ↔ o ∈ l.take count) (hfreed : f'.freed = f.freed ++ l.drop count)
    (hfresh : ∀ o ∈ l', o ∈ l ∨ ¬ A.IsLive f.allocator o)
    (hframe : ∀ o ∉ s :: l, A.IsLive f.allocator o →
      f'.blocks o = f.blocks o ∧ A.IsLive f'.allocator o) (hnodup : s ∉ l) :
    Wrote p A f f' s (s :: l) (s :: l') (count + 1) (b.payload.take b.size ++ bytes) := by
  obtain ⟨hblocks, hlive'⟩ := hrest.frame s hs hlive
  have hnotin : s ∉ l' := by
    intro hmem
    obtain hmem | hdead := hrest.fresh s hmem
    · exact hs hmem
    · exact hdead hlive
  constructor
  · exact hrest.linked.cons (hblocks.trans hb) hnext hlength hsize hlive' hnotin hnull
  · rw [List.length_cons, hrest.length]
  · intro o ho
    rw [List.take_succ_cons, List.mem_cons, List.mem_cons]
    obtain rfl | ho := List.mem_cons.1 ho
    · exact iff_of_true (.inl rfl) (.inl rfl)
    · exact or_congr_right (hkept o ho)
  · exact hfreed
  · rw [List.flatMap_cons, shown_of_blocks (hblocks.trans hb), hrest.shown]
  · intro o ho
    obtain rfl | ho := List.mem_cons.1 ho
    · exact .inl List.mem_cons_self
    · exact (hfresh o ho).imp_left (List.mem_cons_of_mem s)
  · exact hframe

/-- The loop goes on with a block that is there. -/
theorem wrote_next {count : ℕ} {bytes : Bytes} (h : schema.WellFormed) {size : ℕ}
    (hsize : size ≤ p.payloadSize) (hpos : pos + size ≤ schema.totalSize)
    (hl : Linked p A f s (s :: l)) (hb : f.blocks s = some b)
    (hrest : Wrote p A (f.setBlock s (written schema pos size b.nextSchemaBlock b)) f'
      b.nextSchemaBlock l l' count bytes) :
    Wrote p A f f' s (s :: l) (s :: l') (count + 1) (schema.contents.slice pos size ++ bytes) := by
  obtain ⟨b₀, hb₀, hlength, -⟩ := hl.block s List.mem_cons_self
  obtain rfl : b = b₀ := Option.some.inj (hb.symm.trans hb₀)
  have hnotin := (List.nodup_cons.1 hl.nodup).1
  have hnull : s ≠ nullFileAddr := fun hs => hl.chain.2 (hs ▸ List.mem_cons_self)
  have htake : (written schema pos size b.nextSchemaBlock b).payload.take size =
      schema.contents.slice pos size := take_payload_written h hpos
  rw [← htake]
  refine hrest.cons (setBlock_self f s _) rfl (length_payload_written h hpos hlength hsize) hsize
    hnotin hnull (hl.live s List.mem_cons_self) hrest.kept hrest.freed hrest.fresh ?_ hnotin
  intro o ho hlive
  rw [List.mem_cons, not_or] at ho
  obtain ⟨hblocks, hlive'⟩ := hrest.frame o ho.2 hlive
  exact ⟨hblocks.trans (setBlock_of_ne ho.1 f _), hlive'⟩

/-- A new block is not one of the table, and the one that it is linked to. -/
theorem extended_blocks (p : PageSize) (schema : VirtualBuffer) (pos size : ℕ) (b : SchemaBlock)
    (hlive : A.IsLive f.allocator s) :
    (A.allocateNewBlock f.allocator).1 ≠ s ∧
      (extended p A schema pos size s b f).blocks s =
        some (written schema pos size (A.allocateNewBlock f.allocator).1 b) ∧
      (extended p A schema pos size s b f).blocks (A.allocateNewBlock f.allocator).1 =
        some ⟨0, nullFileAddr, List.replicate p.payloadSize 0⟩ ∧
      ∀ o ≠ s, A.IsLive f.allocator o →
        (extended p A schema pos size s b f).blocks o = f.blocks o := by
  have hdead := A.not_isLive_new f.allocator
  have hne : (A.allocateNewBlock f.allocator).1 ≠ s := fun heq => hdead (heq ▸ hlive)
  refine ⟨hne, setBlock_self _ _ _, ?_, ?_⟩
  · exact (setBlock_of_ne hne _ _).trans (setBlock_self _ _ _)
  · intro o ho hliveo
    have hnew : o ≠ (A.allocateNewBlock f.allocator).1 := fun heq => hdead (heq ▸ hliveo)
    exact (setBlock_of_ne ho _ _).trans ((setBlock_of_ne hnew _ _).trans (setBlock_of_ne ho f _))

/-- The new block is a chain of one. -/
theorem linked_new (p : PageSize) (schema : VirtualBuffer) (pos size : ℕ) (b : SchemaBlock)
    (hlive : A.IsLive f.allocator s) :
    Linked p A (extended p A schema pos size s b f) (A.allocateNewBlock f.allocator).1
      [(A.allocateNewBlock f.allocator).1] := by
  obtain ⟨-, -, hnew, -⟩ := extended_blocks p schema pos size b hlive
  have hlivenew := (A.isLive_new f.allocator (A.allocateNewBlock f.allocator).1).2 (.inl rfl)
  exact (linked_null p A _).cons hnew rfl List.length_replicate (Nat.zero_le _) hlivenew
    List.not_mem_nil (A.new_ne_null f.allocator)

/-- The loop goes on with a new block. -/
theorem wrote_new {count : ℕ} {bytes : Bytes} (h : schema.WellFormed) {size : ℕ}
    (hsize : size ≤ p.payloadSize) (hpos : pos + size ≤ schema.totalSize) (hcount : 0 < count)
    (hl : Linked p A f s [s]) (hb : f.blocks s = some b)
    (hrest : Wrote p A (extended p A schema pos size s b f) f' (A.allocateNewBlock f.allocator).1
      [(A.allocateNewBlock f.allocator).1] l' count bytes) :
    Wrote p A f f' s [s] (s :: l') (count + 1) (schema.contents.slice pos size ++ bytes) := by
  obtain ⟨b₀, hb₀, hlength, -⟩ := hl.block s List.mem_cons_self
  obtain rfl : b = b₀ := Option.some.inj (hb.symm.trans hb₀)
  have hlive := hl.live s List.mem_cons_self
  have hnull : s ≠ nullFileAddr := fun hs => hl.chain.2 (hs ▸ List.mem_cons_self)
  obtain ⟨hne, hs, -, hothers⟩ := extended_blocks p schema pos size b hlive
  set new := (A.allocateNewBlock f.allocator).1 with hnew
  have hextended : ∀ o, A.IsLive f.allocator o →
      A.IsLive (extended p A schema pos size s b f).allocator o := fun o ho =>
    (A.isLive_new f.allocator o).2 (.inr ho)
  have hdead : ∀ o, A.IsLive f.allocator o → o ∉ [new] := by
    intro o ho hmem
    rw [List.mem_singleton.1 hmem] at ho
    exact A.not_isLive_new f.allocator ho
  have htake : (written schema pos size new b).payload.take size =
      schema.contents.slice pos size := take_payload_written h hpos
  rw [← htake]
  refine hrest.cons hs rfl (length_payload_written h hpos hlength hsize) hsize (hdead s hlive) hnull
    (hextended s hlive) ?_ ?_ ?_ ?_ List.not_mem_nil
  · intro o ho
    cases ho
  · rw [hrest.freed, List.drop_nil, List.drop_of_length_le hcount]
    rfl
  · intro o ho
    refine .inr fun hliveo => ?_
    obtain hmem | hdeado := hrest.fresh o ho
    · exact hdead o hliveo hmem
    · exact hdeado (hextended o hliveo)
  · intro o ho hliveo
    obtain ⟨hblocks, hlive'⟩ := hrest.frame o (hdead o hliveo) (hextended o hliveo)
    exact ⟨hblocks.trans (hothers o (fun heq => ho (heq ▸ List.mem_cons_self)) hliveo), hlive'⟩

/-- **The loop of `set_schema()`**, by induction on the bytes that remain. -/
theorem writeLoop_spec (h : schema.WellFormed) (hpos : pos + n ≤ schema.totalSize)
    (hl : Linked p A f s (s :: l)) :
    ∃ f' l', (∃ m, ∀ fuel ≥ m, writeLoop p A schema fuel s pos n f = some f') ∧
      Wrote p A f f' s (s :: l) l' (p.blockCount n) (schema.contents.slice pos n) := by
  induction n using Nat.strong_induction_on generalizing pos s l f with
  | h n ih =>
    obtain ⟨b, hb, -⟩ := hl.block s List.mem_cons_self
    by_cases hn : n ≤ p.sizePerPage
    · obtain ⟨f', hfuel, hwrote⟩ := wrote_last h hpos hl hb hn
      rw [PageSize.blockCount_of_le hn]
      exact ⟨f', [s], ⟨l.length + 1, hfuel⟩, hwrote⟩
    · rw [not_le] at hn
      have hmin : min p.sizePerPage n = p.sizePerPage := Nat.min_eq_left hn.le
      have hrest : ¬ n - p.sizePerPage = 0 := Nat.sub_ne_zero_of_lt hn
      have hlt : n - p.sizePerPage < n := Nat.sub_lt_of_pos_le p.sizePerPage_pos hn.le
      have hpos' : pos + p.sizePerPage + (n - p.sizePerPage) ≤ schema.totalSize := by omega
      have hsplit : schema.contents.slice pos n = schema.contents.slice pos p.sizePerPage ++
          schema.contents.slice (pos + p.sizePerPage) (n - p.sizePerPage) := by
        rw [List.slice_append_slice, Nat.add_sub_cancel' hn.le]
      have hsize : pos + p.sizePerPage ≤ schema.totalSize := by omega
      rw [PageSize.blockCount_of_lt hn, hsplit]
      cases l with
      | nil =>
        have hnext : b.nextSchemaBlock = nullFileAddr := by
          have hend := hl.tail.chain.1
          rwa [nextOf_of_blocks hb] at hend
        obtain ⟨f', l', ⟨m, hfuel⟩, hwrote⟩ := ih _ hlt hpos'
          (linked_new p schema pos p.sizePerPage b (hl.live s List.mem_cons_self))
        refine ⟨f', s :: l', ⟨m + 1, ?_⟩,
          wrote_new h p.sizePerPage_le hsize (Nat.succ_pos _) hl hb hwrote⟩
        intro fuel hle
        obtain ⟨k, rfl⟩ : ∃ k, fuel = k + 1 := ⟨fuel - 1, by omega⟩
        rw [writeLoop_succ h hpos hb, hmin]
        dsimp only
        rw [if_neg hrest, if_pos hnext]
        exact hfuel k (Nat.le_of_succ_le_succ hle)
      | cons o l =>
        have ho : b.nextSchemaBlock = o := by
          have hfirst := hl.tail.chain.1.1
          rwa [nextOf_of_blocks hb] at hfirst
        subst ho
        obtain ⟨f', l', ⟨m, hfuel⟩, hwrote⟩ := ih _ hlt hpos'
          (hl.setBlock hb (written schema pos p.sizePerPage b.nextSchemaBlock b))
        refine ⟨f', s :: l', ⟨m + 1, ?_⟩, wrote_next h p.sizePerPage_le hsize hl hb hwrote⟩
        intro fuel hle
        obtain ⟨k, rfl⟩ : ∃ k, fuel = k + 1 := ⟨fuel - 1, by omega⟩
        have hnext : b.nextSchemaBlock ≠ nullFileAddr := fun hnext =>
          hl.chain.2 (List.mem_cons_of_mem s (hnext ▸ List.mem_cons_self))
        rw [writeLoop_succ h hpos hb, hmin]
        dsimp only
        rw [if_neg hrest, if_neg hnext]
        exact hfuel k (Nat.le_of_succ_le_succ hle)

end Steps

/-- **`set_schema()`** of a block with a chain. -/
theorem setSchema_spec {schema : VirtualBuffer} (h : schema.WellFormed)
    (hl : Linked p A f s (s :: l)) :
    ∃ f' l', SetSchema p A s schema f f' ∧ Wrote p A f f' s (s :: l) l'
      (p.blockCount (schema.totalSize % 2 ^ 32))
      (schema.contents.take (schema.totalSize % 2 ^ 32)) := by
  have hle : 0 + schema.totalSize % 2 ^ 32 ≤ schema.totalSize := by
    rw [Nat.zero_add]
    exact Nat.mod_le _ _
  obtain ⟨f', l', hfuel, hwrote⟩ := writeLoop_spec h hle hl
  refine ⟨f', l', hfuel, ?_⟩
  rw [List.slice, List.drop_zero] at hwrote
  exact hwrote

/-! ### Blocks that are read -/

theorem length_page (b : SchemaBlock) :
    b.page.length = PageSize.staticSize + b.payload.length := by
  simp only [SchemaBlock.page, List.length_append, UInt512.length_toBytes]
  rfl

theorem slice_page (b : SchemaBlock) (n : ℕ) :
    b.page.slice PageSize.staticSize n = b.payload.take n := by
  have hlength : (DbType.schema.magic ++ UInt512.toBytes 4 0 ++ UInt512.toBytes 4 b.size ++
      UInt512.toBytes 8 b.nextSchemaBlock).length = PageSize.staticSize := by
    simp only [List.length_append, UInt512.length_toBytes]
    rfl
  rw [SchemaBlock.page, List.slice_append_right n b.payload hlength.le, hlength, Nat.sub_self,
    List.slice, List.drop_zero]

/-- A view of the schema bytes of a block is added. -/
theorem addBuffer_spec {b : SchemaBlock} (hb : f.blocks s = some b)
    (hsize : b.size ≤ b.payload.length) {result : VirtualBuffer}
    (hmodified : result.modified = false) (hblocks : result.blocks = f.memory)
    (hresult : result.WellFormed) :
    ∃ vb, result.addBuffer s PageSize.staticSize b.size = .ok vb ∧ vb.modified = false ∧
      vb.blocks = f.memory ∧ vb.WellFormed ∧ vb.contents = result.contents ++ f.shown s := by
  have hpage : result.blocks s = b.page := by rw [hblocks, memory, hb]; rfl
  have hadd : result.addBuffer s PageSize.staticSize b.size = .ok { result with
      buffers := result.buffers ++
        [{ block := some s, offset := PageSize.staticSize, size := b.size }]
      totalSize := result.totalSize + b.size } := by
    rw [VirtualBuffer.addBuffer, hmodified, if_neg Bool.false_ne_true]
  refine ⟨_, hadd, hmodified, hblocks, ⟨?_, ?_⟩, ?_⟩
  · intro c hc
    obtain hc | hc := List.mem_append.1 hc
    · exact hresult.chunks c hc
    · rw [List.mem_singleton.1 hc]
      change PageSize.staticSize + b.size ≤ (result.blocks s).length
      rw [hpage, length_page]
      omega
  · simp only [VirtualBuffer.chunkSizes, List.map_append, List.sum_append, List.map_cons,
      List.map_nil, List.sum_cons, List.sum_nil, hresult.total, Nat.add_zero]
  · simp only [VirtualBuffer.contents, List.flatMap_append, List.flatMap_singleton, Vbuf.view,
      hpage, slice_page, shown_of_blocks hb]

/-- The loop of `get_schema()` shows block after block. -/
theorem readLoop_spec (hl : Linked p A f s (s :: l)) {result : VirtualBuffer}
    (hmodified : result.modified = false) (hblocks : result.blocks = f.memory)
    (hresult : result.WellFormed) :
    ∃ vb, (∀ fuel ≥ l.length + 1, f.readLoop fuel s result = some vb) ∧ vb.WellFormed ∧
      vb.contents = result.contents ++ (s :: l).flatMap f.shown := by
  induction l generalizing s result with
  | nil =>
    obtain ⟨b, hb, hlength, hsize⟩ := hl.block s List.mem_cons_self
    obtain ⟨vb, hadd, -, -, hvb, hcontents⟩ :=
      addBuffer_spec hb (hlength ▸ hsize) hmodified hblocks hresult
    have hnext : b.nextSchemaBlock = nullFileAddr := by
      have hend := hl.tail.chain.1
      rwa [nextOf_of_blocks hb] at hend
    refine ⟨vb, ?_, hvb, by rw [List.flatMap_singleton, hcontents]⟩
    intro fuel hle
    obtain ⟨k, rfl⟩ : ∃ k, fuel = k + 1 := ⟨fuel - 1, by omega⟩
    rw [readLoop, hb]
    simp only [Option.bind_eq_bind, Option.bind_some, hadd, Except.toOption, hnext, if_pos]
  | cons o l ih =>
    obtain ⟨b, hb, hlength, hsize⟩ := hl.block s List.mem_cons_self
    obtain ⟨vb, hadd, hmodified', hblocks', hvb, hcontents⟩ :=
      addBuffer_spec hb (hlength ▸ hsize) hmodified hblocks hresult
    have ho : b.nextSchemaBlock = o := by
      have hfirst := hl.tail.chain.1.1
      rwa [nextOf_of_blocks hb] at hfirst
    have hnull : o ≠ nullFileAddr := fun hnull =>
      hl.chain.2 (List.mem_cons_of_mem s (hnull ▸ List.mem_cons_self))
    have htail : Linked p A f o (o :: l) := by
      have htail := hl.tail
      rwa [nextOf_of_blocks hb, ho] at htail
    obtain ⟨vb', hfuel, hvb', hcontents'⟩ := ih htail hmodified' hblocks' hvb
    refine ⟨vb', ?_, hvb', by rw [hcontents', hcontents, List.append_assoc]; rfl⟩
    intro fuel hle
    obtain ⟨k, rfl⟩ : ∃ k, fuel = k + 1 := ⟨fuel - 1, by omega⟩
    rw [readLoop, hb]
    simp only [Option.bind_eq_bind, Option.bind_some, hadd, Except.toOption, ho, if_neg hnull]
    exact hfuel k (Nat.le_of_succ_le_succ hle)

/-- **`get_schema()`** of a block with a chain. -/
theorem getSchema_spec (hl : Linked p A f s (s :: l)) :
    ∃ vb, GetSchema f s vb ∧ vb.WellFormed ∧ vb.contents = (s :: l).flatMap f.shown := by
  have hempty : ({ blocks := f.memory } : VirtualBuffer).WellFormed :=
    ⟨fun c hc => absurd hc List.not_mem_nil, rfl⟩
  obtain ⟨vb, hfuel, hvb, hcontents⟩ := readLoop_spec hl rfl rfl hempty
  exact ⟨vb, ⟨l.length + 1, hfuel⟩, hvb, hcontents⟩

/-! ### Runs -/

theorem SetSchema.unique {schema : VirtualBuffer} {f₁ f₂ : SchemaFile σ}
    (h₁ : SetSchema p A s schema f f₁) (h₂ : SetSchema p A s schema f f₂) : f₁ = f₂ := by
  obtain ⟨n₁, h₁⟩ := h₁
  obtain ⟨n₂, h₂⟩ := h₂
  have heq := (h₁ (max n₁ n₂) (le_max_left _ _)).symm.trans (h₂ _ (le_max_right _ _))
  exact Option.some.inj heq

theorem GetSchema.unique {vb₁ vb₂ : VirtualBuffer} (h₁ : GetSchema f s vb₁)
    (h₂ : GetSchema f s vb₂) : vb₁ = vb₂ := by
  obtain ⟨n₁, h₁⟩ := h₁
  obtain ⟨n₂, h₂⟩ := h₂
  have heq := (h₁ (max n₁ n₂) (le_max_left _ _)).symm.trans (h₂ _ (le_max_right _ _))
  exact Option.some.inj heq

section Calls

variable {schema : VirtualBuffer} {count : ℕ} {bytes : Bytes}

/-- The chain after a call starts with the block of the call. -/
theorem Wrote.exists_cons (h : Wrote p A f f' s l l' (count + 1) bytes) :
    ∃ t, l' = s :: t := by
  cases l' with
  | nil => cases h.length
  | cons o t => exact ⟨t, by rw [show s = o from h.linked.chain.1.1]⟩

/-- What is freed is what the chain lost. -/
theorem Wrote.released (h : Wrote p A f f' s l l' count bytes) (hl : l.Nodup) :
    ∃ released, f'.freed = f.freed ++ released ∧ released.Nodup ∧
      ∀ o, o ∈ released ↔ o ∈ l ∧ o ∉ l' := by
  refine ⟨l.drop count, h.freed, hl.sublist (List.drop_sublist count l), ?_⟩
  intro o
  have hdisjoint : o ∈ l.take count → o ∉ l.drop count := by
    rw [← List.take_append_drop count l] at hl
    exact fun htake hdrop => (List.nodup_append.1 hl).2.2 o htake o hdrop rfl
  constructor
  · intro hdrop
    have hmem := List.mem_of_mem_drop hdrop
    exact ⟨hmem, fun hkept => hdisjoint ((h.kept o hmem).1 hkept) hdrop⟩
  · rintro ⟨hmem, hlost⟩
    rw [← List.take_append_drop count l, List.mem_append] at hmem
    obtain htake | hdrop := hmem
    · exact absurd ((h.kept o (List.mem_of_mem_take htake)).2 htake) hlost
    · exact hdrop

/-- A call does what it has to exactly when the size fits. -/
theorem held_iff_fits (hschema : schema.WellFormed) (hl : Linked p A f s l)
    (hwrote : Wrote p A f f' s l l' (p.blockCount (schema.totalSize % 2 ^ 32))
      (schema.contents.take (schema.totalSize % 2 ^ 32))) :
    Held p s schema f f' ↔ p.Fits schema.totalSize := by
  obtain ⟨t, rfl⟩ := hwrote.exists_cons
  obtain ⟨vb, hget, -, hcontents⟩ := getSchema_spec hwrote.linked
  rw [hwrote.shown] at hcontents
  constructor
  · intro hheld
    have hsize : schema.totalSize % 2 ^ 32 = schema.totalSize := by
      obtain ⟨vb', hget', hcontents'⟩ := hheld.contents
      rw [hget'.unique hget, hcontents] at hcontents'
      have hlength := congrArg List.length hcontents'
      rw [List.length_take, hschema.length_contents] at hlength
      have hle := Nat.mod_le schema.totalSize (2 ^ 32)
      omega
    have hlt : schema.totalSize < 2 ^ 32 := hsize ▸ Nat.mod_lt _ (by decide)
    refine ⟨hlt, or_iff_not_imp_left.2 fun hpages => ?_⟩
    rw [not_lt] at hpages
    obtain ⟨l₁, l₂, -, hchain, hleast, -⟩ := hheld.chains
    rw [hchain.1.unique hwrote.linked.chain.1 hchain.2 hwrote.linked.chain.2, hwrote.length,
      hsize] at hleast
    -- one page has room for all of them
    have hone : p.blockCount schema.totalSize ≤ 1 :=
      hleast.2 ⟨Nat.one_pos, by rw [Nat.one_mul]; omega⟩
    by_contra hmore
    rw [PageSize.blockCount_of_lt (not_le.1 hmore)] at hone
    exact Nat.not_succ_le_zero _ (Nat.le_of_succ_le_succ hone)
  · rintro ⟨hlt, hpages⟩
    rw [Nat.mod_eq_of_lt hlt] at hwrote hcontents
    rw [← hschema.length_contents, List.take_length] at hcontents
    refine ⟨⟨vb, hget, hcontents⟩, l, s :: t, hl.chain, hwrote.linked.chain, ?_,
      hwrote.released hl.nodup⟩
    rw [hwrote.length]
    obtain hpages | hpage := hpages
    · exact PageSize.isLeast_blockCount hpages _
    · rw [PageSize.blockCount_of_le hpage]
      have hroom : schema.totalSize ≤ 1 * p.payloadSize := by
        rw [Nat.one_mul]
        exact hpage.trans p.sizePerPage_le
      exact ⟨⟨Nat.one_pos, hroom⟩, fun k hk => hk.1⟩

end Calls

/-- The runs of calls on a chain. -/
theorem Linked.heldAlong_iff (hl : Linked p A f s (s :: l)) (schemas : List SchemaBuffer) :
    HeldAlong p A s f schemas ↔ ∀ schema ∈ schemas, p.Fits schema.1.totalSize := by
  induction schemas generalizing f l with
  | nil => exact iff_of_true trivial (fun schema hmem => by cases hmem)
  | cons schema schemas ih =>
    obtain ⟨f', l', hset, hwrote⟩ := setSchema_spec schema.2 hl
    have hheld := held_iff_fits schema.2 hl hwrote
    obtain ⟨t, rfl⟩ := hwrote.exists_cons
    rw [List.forall_mem_cons, ← hheld, ← ih hwrote.linked]
    constructor
    · rintro ⟨f'', hset', hheld', hrest⟩
      rw [hset'.unique hset] at hheld' hrest
      exact ⟨hheld', hrest⟩
    · rintro ⟨hheld', hrest⟩
      exact ⟨f', hset, hheld', hrest⟩

/-- A new block is a chain. -/
theorem linked_allocateNewBlock (p : PageSize) (A : BlockAllocator σ) (f : SchemaFile σ) :
    Linked p A (f.allocateNewBlock p A).2 (f.allocateNewBlock p A).1
      [(f.allocateNewBlock p A).1] := by
  have hlive := (A.isLive_new f.allocator (A.allocateNewBlock f.allocator).1).2 (.inl rfl)
  exact (linked_null p A (f.allocateNewBlock p A).2).cons (setBlock_self _ _ _) rfl
    List.length_replicate (Nat.zero_le _) hlive List.not_mem_nil (A.new_ne_null f.allocator)

/-- **In a run of calls to `set_schema()` on a new block, the block holds each schema after its call
exactly when all sizes fit.** -/
theorem held_iff (p : PageSize) (A : BlockAllocator σ) (f : SchemaFile σ)
    (schemas : List SchemaBuffer) :
    HeldAlong p A (f.allocateNewBlock p A).1 (f.allocateNewBlock p A).2 schemas ↔
      ∀ schema ∈ schemas, p.Fits schema.1.totalSize :=
  (linked_allocateNewBlock p A f).heldAlong_iff schemas

/-- A schema of `n` bytes. -/
def zeroes (n : ℕ) : SchemaBuffer where
  val :=
    { blocks := fun _ => []
      buffers := [{ data := List.replicate n 0, capacity := n, size := n }]
      totalSize := n }
  property := by
    refine ⟨?_, rfl⟩
    intro c hc
    rw [List.mem_singleton.1 hc]
    exact ⟨List.length_replicate.ge, List.length_replicate.le⟩

/-- Pages of 4096 bytes, and a schema of 4 GiB. -/
theorem not_heldAlong : ¬ ∀ (p : PageSize) (f : SchemaFile (List ℕ)) (schemas : List SchemaBuffer),
    HeldAlong p .list (f.allocateNewBlock p .list).1 (f.allocateNewBlock p .list).2 schemas := by
  intro h
  have hheld := h ⟨12, 1, by decide, by decide, by decide⟩ ⟨[], fun _ => none, []⟩ [zeroes (2 ^ 32)]
  rw [(linked_allocateNewBlock _ _ _).heldAlong_iff] at hheld
  exact absurd (hheld _ List.mem_cons_self).1 (Nat.lt_irrefl _)

end SchemaFile

end Prinbee
