import Prinbee.Basic
import Prinbee.Lib.LinkedList

/-!
# The free space of a table

`block_free_space.cpp`: the allocator of rows in the `DATA` blocks of a table file.  The `FSPC`
block is an array of references, one for each multiple of eight: the head of the list of the
free spaces of that size.  A list is doubly linked and its links are in the free spaces
themselves.

The file is modelled as memory, a word of 64 bits at each multiple of eight.  Blocks are found
(`get_block()`) and allocated (`allocate_new_block()`) by the table: `TableFile` says what the
allocator counts on.

## Main definitions

* `TableFile` — the page size, the `FSPC` block and the blocks that the table allocates.
* `getFreeSpace` — `get_free_space()`, with its three paths.
* `linkSpace`, `unlinkSpace` — the lists.
* `releaseSpace` — `release_space()`.
-/

namespace Prinbee

/-- The table under an allocator.  Pages are whole system pages, of at most the 16Mb that the 24
bits of a size can tell; `newDataBlock` is what `allocate_new_block()` answers once the blocks of
a list are in use: the offset of a page that is not. -/
structure TableFile where
  pageSize : ℕ
  freeSpaceBlock : ℕ
  newDataBlock : List ℕ → ℕ
  pageSize_pos : 0 < pageSize
  pageSize_dvd : 4096 ∣ pageSize
  pageSize_le : pageSize ≤ 2 ^ 24
  freeSpaceBlock_dvd : pageSize ∣ freeSpaceBlock
  newDataBlock_dvd : ∀ bs, pageSize ∣ newDataBlock bs
  newDataBlock_ne : ∀ bs, newDataBlock bs ≠ freeSpaceBlock
  newDataBlock_pos : ∀ bs, 0 < newDataBlock bs
  newDataBlock_notMem : ∀ bs, newDataBlock bs ∉ bs

/-- A file of pages one after the other: the table header, the `FSPC` block, then `DATA` blocks. -/
def TableFile.sequential (pageSize : ℕ) (hpos : 0 < pageSize) (hdvd : 4096 ∣ pageSize)
    (hle : pageSize ≤ 2 ^ 24) : TableFile where
  pageSize := pageSize
  freeSpaceBlock := pageSize
  newDataBlock bs := (bs.foldr max pageSize / pageSize + 1) * pageSize
  pageSize_pos := hpos
  pageSize_dvd := hdvd
  pageSize_le := hle
  freeSpaceBlock_dvd := dvd_rfl
  newDataBlock_dvd bs := dvd_mul_left _ _
  newDataBlock_ne bs := by
    have hone : 1 ≤ bs.foldr max pageSize / pageSize := by
      rw [Nat.one_le_div_iff hpos]
      induction bs with
      | nil => exact le_rfl
      | cons b bs ih => exact ih.trans (le_max_right _ _)
    intro h
    have h2 : 2 * pageSize ≤ pageSize := by
      calc 2 * pageSize ≤ (bs.foldr max pageSize / pageSize + 1) * pageSize :=
            Nat.mul_le_mul_right _ (by omega)
        _ = pageSize := h
    omega
  newDataBlock_pos bs := Nat.mul_pos (Nat.succ_pos _) hpos
  newDataBlock_notMem bs hmem := by
    have hle : ∀ b ∈ bs, b ≤ bs.foldr max pageSize := by
      intro b hb
      clear hmem
      induction bs with
      | nil => simp at hb
      | cons c cs ih =>
        rcases List.mem_cons.1 hb with rfl | hb
        · exact le_max_left _ _
        · exact (ih hb).trans (le_max_right _ _)
    have hlt := Nat.lt_div_mul_add hpos (a := bs.foldr max pageSize)
    have hb := hle _ hmem
    rw [Nat.add_mul, Nat.one_mul] at hb
    omega

/-- The state of the allocator: the words of the file, the `DATA` blocks it has asked for, and
the static variable of `total_space_available_in_one_data_block()`. -/
structure FreeSpaceState where
  memory : ℕ → ℕ
  dataBlocks : List ℕ
  totalSpace : ℕ

/-- `free_space_t`. -/
structure FreeSpaceResult where
  reference : ℕ
  size : ℕ
  deriving DecidableEq, Repr

/-! ### The meta data of a space

`free_space_meta_t` is 24 bits of size and 8 bits of flags, in the low half of the first word of
a space; the high half is `f_padding`, or the first bytes of the row once the space is
allocated. -/

/-- `f_meta.f_size`. -/
def metaSize (w : ℕ) : ℕ := w % 2 ^ 24

/-- `f_meta.f_flags`. -/
def metaFlags (w : ℕ) : ℕ := w / 2 ^ 24 % 2 ^ 8

/-- `FREE_SPACE_FLAG_ALLOCATED` is set. -/
def isAllocated (w : ℕ) : Bool := metaFlags w % 2 = 1

/-- Assign `f_meta.f_size`. -/
def setSize (w size : ℕ) : ℕ := w / 2 ^ 24 * 2 ^ 24 + size % 2 ^ 24

/-- Assign `f_meta.f_flags`. -/
def setFlags (w flags : ℕ) : ℕ := w / 2 ^ 32 * 2 ^ 32 + flags % 2 ^ 8 * 2 ^ 24 + w % 2 ^ 24

/-- `f_meta.f_flags |= FREE_SPACE_FLAG_ALLOCATED`. -/
def setAllocated (w : ℕ) : ℕ := setFlags w (metaFlags w / 2 * 2 + 1)

/-- `f_meta.f_flags &= ~FREE_SPACE_FLAG_ALLOCATED`. -/
def clearAllocated (w : ℕ) : ℕ := setFlags w (metaFlags w / 2 * 2)

/-- `f_padding = 0`. -/
def clearPadding (w : ℕ) : ℕ := w % 2 ^ 32

theorem metaSize_setSize (w : ℕ) {size : ℕ} (h : size < 2 ^ 24) :
    metaSize (setSize w size) = size := by
  simp only [metaSize, setSize]
  omega

@[simp] theorem metaFlags_setSize (w size : ℕ) : metaFlags (setSize w size) = metaFlags w := by
  simp only [metaFlags, setSize]
  omega

@[simp] theorem metaSize_setFlags (w flags : ℕ) : metaSize (setFlags w flags) = metaSize w := by
  simp only [metaSize, setFlags]
  omega

theorem metaFlags_setFlags (w : ℕ) {flags : ℕ} (h : flags < 2 ^ 8) :
    metaFlags (setFlags w flags) = flags := by
  simp only [metaFlags, setFlags]
  omega

theorem metaFlags_lt (w : ℕ) : metaFlags w < 2 ^ 8 := Nat.mod_lt _ (by decide)

@[simp] theorem metaSize_setAllocated (w : ℕ) : metaSize (setAllocated w) = metaSize w :=
  metaSize_setFlags _ _

@[simp] theorem isAllocated_setAllocated (w : ℕ) : isAllocated (setAllocated w) = true := by
  have hlt := metaFlags_lt w
  rw [isAllocated, setAllocated, metaFlags_setFlags _ (by omega), decide_eq_true_eq]
  omega

theorem isAllocated_setFlags_one {w : ℕ} : isAllocated (setFlags w 1) = true := by
  rw [isAllocated, metaFlags_setFlags _ (by decide)]
  rfl

@[simp] theorem metaSize_clearAllocated (w : ℕ) : metaSize (clearAllocated w) = metaSize w :=
  metaSize_setFlags _ _

@[simp] theorem isAllocated_clearAllocated (w : ℕ) : isAllocated (clearAllocated w) = false := by
  have hlt := metaFlags_lt w
  rw [isAllocated, clearAllocated, metaFlags_setFlags _ (by omega), decide_eq_false_iff_not]
  omega

@[simp] theorem metaSize_clearPadding (w : ℕ) : metaSize (clearPadding w) = metaSize w := by
  simp only [metaSize, clearPadding]
  omega

@[simp] theorem isAllocated_clearPadding (w : ℕ) :
    isAllocated (clearPadding w) = isAllocated w := by
  have hflags : metaFlags (clearPadding w) = metaFlags w := by
    simp only [metaFlags, clearPadding]
    omega
  rw [isAllocated, hflags, isAllocated]

/-- One word of the file assigned. -/
def poke (memory : ℕ → ℕ) (address value : ℕ) : ℕ → ℕ :=
  fun a => if a = address then value else memory a

@[simp] theorem poke_self (memory : ℕ → ℕ) (a value : ℕ) : poke memory a value a = value :=
  if_pos rfl

theorem poke_of_ne (memory : ℕ → ℕ) {a x : ℕ} (value : ℕ) (h : x ≠ a) :
    poke memory a value x = memory x := if_neg h

@[simp] theorem poke_poke (memory : ℕ → ℕ) (a value value' : ℕ) :
    poke (poke memory a value) a value' = poke memory a value' := by
  funext x
  by_cases h : x = a
  · rw [h, poke_self, poke_self]
  · rw [poke_of_ne _ _ h, poke_of_ne _ _ h, poke_of_ne _ _ h]

/-! ### The functions of the class -/

/-- `sizeof(free_space_meta_t)`. -/
def metaBytes : ℕ := 4

/-- `sizeof(free_space_link_t)`. -/
def linkBytes : ℕ := 24

/-- `FREE_SPACE_JUMP`. -/
def freeSpaceJump : ℕ := 256

variable (t : TableFile)

/-- `total_space_available_in_one_data_block()`: computed by the first call. -/
def totalSpaceAvailable (st : FreeSpaceState) : ℕ :=
  if st.totalSpace = 0 then roundDown (t.pageSize - 8) 8 else st.totalSpace

/-- `get_free_space_pointer()`: the address of the entry of the `FSPC` block. -/
def getFreeSpacePointer (size : ℕ) : Except Failure ℕ :=
  if size < 8 then
    .error (.thrown .logicError
      ("You cannot call get_free_space_pointer() with a size less than 8, so "
        ++ toString size ++ " is too small."))
  else .ok (t.freeSpaceBlock + roundUp size 8 % t.pageSize)

/-- `link_space()`: the space at `link`, of the size in its meta data, becomes the first one of
its list, under the reference `linkOffset`. -/
def linkSpace (memory : ℕ → ℕ) (linkOffset link : ℕ) : Except Failure (ℕ → ℕ) := do
  let d ← getFreeSpacePointer t (metaSize (memory link))
  let next := memory d
  let memory := poke memory link (clearPadding (clearAllocated (memory link)))
  let memory := poke memory (link + 8) next
  let memory := poke memory (link + 16) 0
  let memory := if next ≠ 0 then poke memory (next + 16) linkOffset else memory
  .ok (poke memory d linkOffset)

/-- `unlink_space()`. -/
def unlinkSpace (memory : ℕ → ℕ) (link : ℕ) : Except Failure (ℕ → ℕ) := do
  let previous := memory (link + 16)
  let next := memory (link + 8)
  let memory ←
    if previous ≠ 0 then .ok (poke memory (previous + 8) next)
    else do
      let d ← getFreeSpacePointer t (metaSize (memory link))
      .ok (poke memory d next)
  .ok (if next ≠ 0 then poke memory (next + 16) previous else memory)

/-- The loop that searches a larger space: the first entry in use among `n` of them. -/
def searchLarger (memory : ℕ → ℕ) : ℕ → ℕ → Option ℕ
  | 0, _ => none
  | n + 1, d => if memory d ≠ 0 then some d else searchLarger memory n (d + 8)

/-- The first path: a free space of exactly the size wanted. -/
def takeExact (st : FreeSpaceState) (minimumSize link : ℕ) :
    Except Failure (FreeSpaceState × FreeSpaceResult) := do
  let memory ← unlinkSpace t st.memory link
  let memory := poke memory link (setAllocated (setSize (memory link) minimumSize))
  .ok ({ st with memory := memory }, { reference := link + metaBytes, size := minimumSize })

/-- The second path: a larger free space, broken in two when the rest can hold a link. -/
def takeLarger (st : FreeSpaceState) (minimumSize link : ℕ) :
    Except Failure (FreeSpaceState × FreeSpaceResult) := do
  let memory ← unlinkSpace t st.memory link
  let size := metaSize (memory link)
  let remainingSize := sub32 size minimumSize
  if linkBytes ≤ remainingSize then do
    let memory := poke memory (link + minimumSize)
      (setSize (memory (link + minimumSize)) remainingSize)
    let memory := poke memory link (setSize (memory link) minimumSize)
    let memory := poke memory (link + minimumSize) (setFlags (memory (link + minimumSize)) 0)
    let memory ← linkSpace t memory (link + minimumSize) (link + minimumSize)
    .ok ({ st with memory := poke memory link (setAllocated (memory link)) },
      { reference := link + metaBytes, size := minimumSize })
  else
    .ok ({ st with memory := poke memory link (setAllocated (memory link)) },
      { reference := link + metaBytes, size := size })

/-- The third path: a new `DATA` block, cleared, broken in two when the rest can hold a meta
data.  The reference is that of the end of the page less `totalSpace`, in 64 bits, and
`block::data()` finds its address in the page that was allocated: the two agree when `totalSpace` is
the room of a page of this table. -/
def takeNewBlock (st : FreeSpaceState) (totalSpace minimumSize : ℕ) :
    Except Failure (FreeSpaceState × FreeSpaceResult) := do
  let block := t.newDataBlock st.dataBlocks
  let memory := fun a => if block + 8 ≤ a ∧ a < block + t.pageSize then 0 else st.memory a
  let link := block + sub64 (block + t.pageSize) totalSpace % t.pageSize
  let remainingSize := totalSpace - minimumSize
  let memory ←
    if metaBytes ≤ remainingSize then do
      let memory := poke memory (link + minimumSize)
        (setSize (memory (link + minimumSize)) remainingSize)
      let memory := poke memory (link + minimumSize) (setFlags (memory (link + minimumSize)) 0)
      let memory ← linkSpace t memory (sub64 (block + t.pageSize + minimumSize) totalSpace)
        (link + minimumSize)
      .ok (poke memory link (setSize (memory link) (totalSpace - remainingSize)))
    else .ok (poke memory link (setSize (memory link) totalSpace))
  .ok ({ st with
    memory := poke memory link (setFlags (memory link) 1)
    dataBlocks := block :: st.dataBlocks },
    { reference := sub64 (block + t.pageSize + metaBytes) totalSpace, size := minimumSize })

/-- `get_free_space()`.  The size wanted, with the meta data and rounded up, is assigned back to
a 32 bit variable. -/
def getFreeSpace (st : FreeSpaceState) (minimumSize : ℕ) :
    Except Failure (FreeSpaceState × FreeSpaceResult) := do
  let minimumSize := roundUp (minimumSize + metaBytes) 8 % 2 ^ 32
  let totalSpace := totalSpaceAvailable t st
  let st := { st with totalSpace := totalSpace }
  if totalSpace < minimumSize then
    .error (.thrown .notYetImplemented
      ("get_free_space() called with a minimum_size (" ++ toString minimumSize ++ " > "
        ++ toString totalSpace ++ ") larger than what can be allocated."))
  else if 2 ^ 24 ≤ minimumSize then
    .error (.thrown .logicError
      ("get_free_space() called with a minimum_size (" ++ toString minimumSize ++ " > "
        ++ toString totalSpace ++ ") larger than what can be allocated."))
  else
    let d ← getFreeSpacePointer t minimumSize
    if st.memory d ≠ 0 then takeExact t st minimumSize (st.memory d)
    else
      let d := if minimumSize < freeSpaceJump then t.freeSpaceBlock + freeSpaceJump else d + 8
      match searchLarger st.memory ((t.freeSpaceBlock + t.pageSize - d) / 8) d with
      | some d => takeLarger t st minimumSize (st.memory d)
      | none => takeNewBlock t st totalSpace minimumSize

/-- `release_space()`.  What follows the first check goes through the address at which the page
is mapped and is left as a parameter. -/
def releaseSpace (body : FreeSpaceState → ℕ → Except Failure FreeSpaceState)
    (st : FreeSpaceState) (offset : ℕ) : Except Failure FreeSpaceState :=
  if offset % 8 ≠ 0 then
    .error (.thrown .logicError
      ("release_space() called with an invalid offset (" ++ toString offset
        ++ "); it must be a multiple of 8."))
  else body st (offset - metaBytes)

end Prinbee
