import Prinbee.Basic
import Prinbee.Lib.Splice

/-!
# Virtual buffers

`virtual_buffer.cpp`: a byte buffer made of chunks, each one either a view of a block of the
table file or a vector the buffer owns.

A chunk that owns its bytes may hold more of them than it shows (`perase()` only lowers
`f_size`), and its vector may have room for more than it holds.  The capacity of a vector is
not ours to compute: `VectorCapacity` gives what the standard library
promises about it.

## Main definitions

* `Vbuf`, `VirtualBuffer` — `vbuf_t` and `virtual_buffer`, with the memory of the blocks.
* `VirtualBuffer.addBuffer`, `pread`, `pwrite`, `pinsert`, `perase`, `pshift`.
* `VirtualBuffer.contents` — the bytes the chunks show, one after the other.
* `VirtualBuffer.WellFormed` — every chunk shows bytes that exist, and the total is right.
-/

namespace Prinbee

/-- The memory of the blocks, by block. -/
abbrev Blocks := ℕ → List UInt8

/-- What `std::vector` promises about its capacity: a copy has room for what it copies and a
vector that grows has room for what is put in it. -/
structure VectorCapacity where
  copied : ℕ → ℕ
  grown : ℕ → ℕ → ℕ
  le_copied : ∀ n, n ≤ copied n
  le_grown : ∀ capacity n, n ≤ grown capacity n

/-- libstdc++: a copy is exact, a vector that is full at least doubles. -/
def VectorCapacity.libstdcxx : VectorCapacity where
  copied n := n
  grown capacity n := if n ≤ capacity then capacity else max n (2 * capacity)
  le_copied _ := le_rfl
  le_grown capacity n := by
    by_cases h : n ≤ capacity
    · rw [if_pos h]; exact h
    · rw [if_neg h]; exact le_max_left _ _

/-- `virtual_buffer::vbuf_t`.  `block` is `f_block` (`none` for the null pointer), `data` and
`capacity` are those of the vector `f_data`. -/
structure Vbuf where
  block : Option ℕ := none
  data : List UInt8 := []
  capacity : ℕ := 0
  offset : ℕ := 0
  size : ℕ := 0
  deriving DecidableEq, Repr

/-- `virtual_buffer`, with the memory its block pointers lead to. -/
structure VirtualBuffer where
  blocks : Blocks
  buffers : List Vbuf := []
  totalSize : ℕ := 0
  modified : Bool := false

namespace Vbuf

/-- `memcpy()` out of the chunk: `size` bytes from `offset` on. -/
def load (blocks : Blocks) (b : Vbuf) (offset size : ℕ) : Except Failure (List UInt8) :=
  match b.block with
  | some i =>
    if b.offset + offset + size ≤ (blocks i).length then
      .ok ((blocks i).slice (b.offset + offset) size)
    else .error .undefinedBehavior
  | none =>
    if offset + size ≤ b.data.length then .ok (b.data.slice offset size)
    else .error .undefinedBehavior

/-- `memcpy()` into the chunk, as `pwrite()` does it: in a block the bytes go to
`f_block->data() + offset`. -/
def store (blocks : Blocks) (b : Vbuf) (offset : ℕ) (bytes : List UInt8) :
    Except Failure (Blocks × Vbuf) :=
  match b.block with
  | some i =>
    if offset + bytes.length ≤ (blocks i).length then
      .ok (Function.update blocks i ((blocks i).overwrite offset bytes), b)
    else .error .undefinedBehavior
  | none =>
    if offset + bytes.length ≤ b.data.length then
      .ok (blocks, { b with data := b.data.overwrite offset bytes })
    else .error .undefinedBehavior

/-- The bytes the chunk shows. -/
def view (blocks : Blocks) (b : Vbuf) : List UInt8 :=
  match b.block with
  | some i => (blocks i).slice b.offset b.size
  | none => b.data.take b.size

/-- The chunk shows bytes that exist. -/
def WellFormed (blocks : Blocks) (b : Vbuf) : Prop :=
  match b.block with
  | some i => b.offset + b.size ≤ (blocks i).length
  | none => b.size ≤ b.data.length ∧ b.data.length ≤ b.capacity

end Vbuf

/-! ### The loops over the chunks -/

/-- The loop of `pread()`: skip the chunks before `offset`, then copy chunk after chunk. -/
def preadLoop (blocks : Blocks) : List Vbuf → ℕ → ℕ → Except Failure (List UInt8)
  | [], _, _ => .ok []
  | b :: bs, size, offset =>
    if b.size ≤ offset then preadLoop blocks bs size (offset - b.size)
    else do
      let sz := min size (b.size - offset)
      let bytes ← b.load blocks offset sz
      if size - sz = 0 then .ok bytes
      else
        let more ← preadLoop blocks bs (size - sz) 0
        .ok (bytes ++ more)

/-- The loop of `pwrite()`.  Returns what is left to write once the chunks are full. -/
def pwriteLoop : Blocks → List Vbuf → List UInt8 → ℕ →
    Except Failure (Blocks × List Vbuf × List UInt8)
  | blocks, [], bytes, _ => .ok (blocks, [], bytes)
  | blocks, b :: bs, bytes, offset =>
    if b.size ≤ offset then do
      let (blocks, bs, bytes) ← pwriteLoop blocks bs bytes (offset - b.size)
      .ok (blocks, b :: bs, bytes)
    else do
      let sz := min bytes.length (b.size - offset)
      let (blocks, b) ← b.store blocks offset (bytes.take sz)
      if bytes.length - sz = 0 then .ok (blocks, b :: bs, [])
      else
        let (blocks, bs, bytes) ← pwriteLoop blocks bs (bytes.drop sz) 0
        .ok (blocks, b :: bs, bytes)

/-- The end of `pwrite()`: the last chunk, when the buffer owns it, takes what its vector has
room for, and the rest goes in a new chunk. -/
def growLoop (v : VectorCapacity) : List Vbuf → List UInt8 → List Vbuf
  | [], bytes =>
    [{ data := bytes, capacity := v.copied bytes.length, size := bytes.length }]
  | [b], bytes =>
    match b.block with
    | some _ =>
      [b, { data := bytes, capacity := v.copied bytes.length, size := bytes.length }]
    | none =>
      if b.capacity - b.size = 0 then
        [b, { data := bytes, capacity := v.copied bytes.length, size := bytes.length }]
      else
        let sz := min (b.capacity - b.size) bytes.length
        let last : Vbuf :=
          { b with data := b.data.take b.size ++ bytes.take sz, size := b.size + sz }
        if bytes.length - sz = 0 then [last]
        else
          [last, { data := bytes.drop sz, capacity := v.copied (bytes.length - sz),
                   size := bytes.length - sz }]
  | b :: c :: bs, bytes => b :: growLoop v (c :: bs) bytes

/-- The loop of `pinsert()`: the chunks with the bytes inserted, or the offset left at the end
of the loop.  In a block the source inserts two entries in the deque and goes on using the
iterator that the first insertion invalidates. -/
def pinsertLoop (v : VectorCapacity) : List Vbuf → List UInt8 → ℕ → Except Failure (List Vbuf ⊕ ℕ)
  | [], _, offset => .ok (.inr offset)
  | b :: bs, bytes, offset =>
    if b.size ≤ offset then do
      match ← pinsertLoop v bs bytes (offset - b.size) with
      | .inl bs => .ok (.inl (b :: bs))
      | .inr offset => .ok (.inr offset)
    else
      match b.block with
      | some _ => .error .undefinedBehavior
      | none =>
        .ok (.inl ({ b with
          data := b.data.insertRange offset bytes
          capacity := v.grown b.capacity (b.data.length + bytes.length)
          size := b.size + bytes.length } :: bs))

/-- The loop of `perase()`: the chunks that stay and the number of bytes erased.  In the middle
of a block the source inserts an entry in the deque and goes on using an invalidated
iterator. -/
def peraseLoop : List Vbuf → ℕ → ℕ → Except Failure (List Vbuf × ℕ)
  | [], _, _ => .ok ([], 0)
  | b :: bs, size, offset =>
    if size = 0 then .ok (b :: bs, 0)
    else if b.size ≤ offset then do
      let (bs, erased) ← peraseLoop bs size (offset - b.size)
      .ok (b :: bs, erased)
    else if b.size ≤ offset + size then
      if offset = 0 then do
        let (bs, erased) ← peraseLoop bs (size - b.size) 0
        .ok (bs, b.size + erased)
      else do
        let sz := b.size - offset
        let (bs, erased) ← peraseLoop bs (size - sz) 0
        .ok ({ b with size := offset } :: bs, sz + erased)
    else if offset = 0 then
      match b.block with
      | some _ => .ok ({ b with offset := b.offset + size, size := b.size - size } :: bs, size)
      | none =>
        .ok ({ b with
          data := b.data.overwrite 0 (b.data.slice size (b.size - size))
          size := b.size - size } :: bs, size)
    else
      match b.block with
      | some _ => .error .undefinedBehavior
      | none =>
        .ok ({ b with
          data := b.data.overwrite offset (b.data.slice (offset + size) (b.size - offset - size))
          size := b.size - size } :: bs, size)

/-! ### The functions of the class -/

namespace VirtualBuffer

/-- `is_data_available()`; the sum wraps. -/
def isDataAvailable (vb : VirtualBuffer) (offset size : ℕ) : Bool :=
  (offset + size) % 2 ^ 64 ≤ vb.totalSize

/-- `add_buffer()`. -/
def addBuffer (vb : VirtualBuffer) (block offset size : ℕ) : Except Failure VirtualBuffer :=
  if vb.modified then
    .error (.thrown .logicError
      ("virtual buffer was already modified, you cannot add"
        ++ " another buffer until you commit this virtual buffer."))
  else
    .ok { vb with
      buffers := vb.buffers ++ [{ block := some block, offset := offset, size := size }]
      totalSize := vb.totalSize + size }

/-- `pread()`: the bytes copied to the caller's buffer. -/
def pread (vb : VirtualBuffer) (size offset : ℕ) (full : Bool) : Except Failure (List UInt8) :=
  if size = 0 then .ok []
  else if full && !vb.isDataAvailable offset size then
    .error (.thrown .invalidSize
      ("not enough data to read from virtual buffer. Requested to read " ++ toString size
        ++ " bytes at " ++ toString offset
        ++ ", when the buffer is " ++ toString vb.totalSize
        ++ " bytes total (missing: " ++ toString (sub64 ((offset + size) % 2 ^ 64) vb.totalSize)
        ++ " bytes)."))
  else preadLoop vb.blocks vb.buffers size offset

/-- `pwrite()`. -/
def pwrite (v : VectorCapacity) (vb : VirtualBuffer) (bytes : List UInt8) (offset : ℕ)
    (allowGrowth : Bool) : Except Failure (VirtualBuffer × ℤ) :=
  if bytes.length = 0 then .ok (vb, 0)
  else if !allowGrowth && !vb.isDataAvailable offset bytes.length then
    .error (.thrown .invalidSize
      ("not enough space to write to virtual buffer. Requested to write "
        ++ toString bytes.length ++ " bytes at offset " ++ toString offset
        ++ ", when the buffer is " ++ toString vb.totalSize ++ " bytes only."))
  else do
    let (blocks, buffers, left) ← pwriteLoop vb.blocks vb.buffers bytes offset
    if left.length = 0 then
      .ok ({ vb with blocks := blocks, buffers := buffers, modified := true },
        toInt bytes.length)
    else
      .ok ({ blocks := blocks, buffers := growLoop v buffers left,
             totalSize := vb.totalSize + left.length, modified := true },
        toInt bytes.length)

/-- `pinsert()`.  Past the loop the source either inserts in the last vector without counting
the bytes in `f_size`, or copies them to an empty vector. -/
def pinsert (v : VectorCapacity) (vb : VirtualBuffer) (bytes : List UInt8) (offset : ℕ) :
    Except Failure (VirtualBuffer × ℤ) :=
  if bytes.length = 0 then .ok (vb, 0)
  else if vb.totalSize ≤ offset then vb.pwrite v bytes offset true
  else do
    match ← pinsertLoop v vb.buffers bytes offset with
    | .inl buffers =>
      .ok ({ vb with
        buffers := buffers, totalSize := vb.totalSize + bytes.length, modified := true },
        toInt bytes.length)
    | .inr 0 =>
      match vb.buffers.getLast? with
      | some { block := none, data, capacity, offset, size } =>
        let last : Vbuf :=
          { data := data ++ bytes
            capacity := v.grown capacity (data.length + bytes.length)
            offset := offset, size := size }
        .ok ({ vb with
          buffers := vb.buffers.dropLast ++ [last]
          totalSize := vb.totalSize + bytes.length, modified := true },
          toInt bytes.length)
      | _ => .error .undefinedBehavior
    | .inr offset =>
      .error (.thrown .logicError
        ("reached the end of the pinsert() function. Offset should be 0, it is "
          ++ toString offset ++ " instead, which should never happen."))

/-- `perase()`. -/
def perase (vb : VirtualBuffer) (size offset : ℕ) : Except Failure (VirtualBuffer × ℤ) :=
  if size = 0 then .ok (vb, 0)
  else if vb.totalSize ≤ offset then .ok (vb, 0)
  else do
    let size := min size (vb.totalSize - offset)
    let (buffers, erased) ← peraseLoop vb.buffers size offset
    .ok ({ vb with
      buffers := buffers, totalSize := vb.totalSize - erased
      modified := vb.modified || erased != 0 }, toInt erased)

/-- The first loop of `pshift()`: move `total` bytes down by `size`, a page at a time.  Returns
the offset reached. -/
def pshiftMove (v : VectorCapacity) (vb : VirtualBuffer) (size offset total : ℕ) :
    Except Failure (VirtualBuffer × ℕ) :=
  if total = 0 then .ok (vb, offset)
  else do
    let sz := min 4096 total
    let buf ← vb.pread sz (offset + size) true
    if toInt buf.length ≠ sz then
      .error (.thrown .ioError
        ("expected to read " ++ toString sz ++ " bytes from virtual buffer."))
    else
      let (vb, written) ← vb.pwrite v buf offset false
      if written ≠ sz then
        .error (.thrown .ioError
          ("expected to write " ++ toString sz ++ " bytes from virtual buffer."))
      else pshiftMove v vb size (offset + sz) (total - sz)
termination_by total
decreasing_by omega

/-- The second loop of `pshift()`: fill the end of the buffer, `left` bytes at `offset`. -/
def pshiftFill (v : VectorCapacity) (vb : VirtualBuffer) (offset left : ℕ) (x : UInt8) :
    Except Failure VirtualBuffer :=
  if left = 0 then .ok vb
  else do
    let sz := min 4096 left
    let (vb, written) ← vb.pwrite v (List.replicate sz x) offset false
    if written ≠ sz then
      .error (.thrown .ioError
        ("expected to write " ++ toString sz ++ " bytes from virtual buffer."))
    else pshiftFill v vb (offset + sz) (left - sz) x
termination_by left
decreasing_by omega

/-- `pshift()`.  Only a negative `size`, a shift towards the start, is implemented. -/
def pshift (v : VectorCapacity) (vb : VirtualBuffer) (size : ℤ) (offset : ℕ) (x : UInt8) :
    Except Failure (VirtualBuffer × ℤ) :=
  if size = 0 then .ok (vb, 0)
  else if 0 < size then
    .error (.thrown .invalidSize "Shift right not yet implemented.")
  else do
    let n := size.natAbs
    let (vb, reached) ← pshiftMove v vb n offset (sub64 (sub64 vb.totalSize offset) n)
    let vb ← pshiftFill v vb reached (vb.totalSize - reached) x
    .ok (vb, toInt (vb.totalSize - offset))

/-- The bytes of the buffer. -/
def contents (vb : VirtualBuffer) : List UInt8 := vb.buffers.flatMap (Vbuf.view vb.blocks)

/-- The sum of the sizes of the chunks. -/
def chunkSizes (vb : VirtualBuffer) : ℕ := (vb.buffers.map Vbuf.size).sum

/-- Every chunk shows bytes that exist and `f_total_size` counts them. -/
structure WellFormed (vb : VirtualBuffer) : Prop where
  chunks : ∀ b ∈ vb.buffers, b.WellFormed vb.blocks
  total : vb.totalSize = vb.chunkSizes

end VirtualBuffer

end Prinbee
