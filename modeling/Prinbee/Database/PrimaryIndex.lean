import Prinbee.Database.BlockAllocation

/-!
# The primary index of a table

`block_primary_index.cpp`, `block_entry_index.cpp` and the parts of `table.cpp` that use them: the
identifier of a row is found by the hash of its primary key.  The `PIDX` block is an array of
references that the low bits of the key index; position 0, which would be the header of the block,
is in the header of the table.  Each reference is to an `EIDX` block, where the entries are sorted
by their keys: a byte of flags, the identifier and the key.

Blocks are their bytes.  What `allocate_new_block()` answers to the successive calls, and whether
`get_block()` returns, is given.  Pages have fewer than `2 ^ 32` bytes, so that the offsets in a page
do not wrap.

## Main definitions

* `EntryIndex.findEntry`, `EntryIndex.addEntry` — the functions of `block_entry_index`.
* `PrimaryPages.keyToIndex` — `block_primary_index::key_to_index()`.
* `PrimaryTable.readPrimary` — `read_primary()`, up to the identifier.
* `PrimaryTable.rowInsert` — the part of `row_insert()` on the primary index.
-/

namespace Prinbee

open UInt512 (ofBytes toBytes)

/-- `memcmp()`. -/
def memcmp : Bytes → Bytes → Ordering
  | a :: as, b :: bs => (compare a.toNat b.toNat).then (memcmp as bs)
  | _, _ => .eq

/-! ### The entries -/

namespace EntryIndex

/-- The size of the structure that starts an `EIDX` block. -/
def staticSize : ℕ := 32

/-- `get_count()`. -/
def getCount (page : Bytes) : ℕ := ofBytes (page.slice 8 4)

/-- `set_count()`. -/
def setCount (page : Bytes) (count : ℕ) : Bytes := page.overwrite 8 (toBytes 4 count)

/-- `get_size()`. -/
def getSize (page : Bytes) : ℕ := ofBytes (page.slice 12 4)

/-- `set_size()` where the size is large enough. -/
def setSize (page : Bytes) (size : ℕ) : Bytes := page.overwrite 12 (toBytes 4 size)

/-- `set_key_size()`. -/
def setKeySize (page : Bytes) (size : ℕ) : Bytes := setSize page (1 + 8 + size)

/-- `ENTRY_INDEX_FLAG_COMPLETE`. -/
def flagComplete : UInt8 := 1

/-- Where an entry is in its page. -/
def entryOffset (size position : ℕ) : ℕ := staticSize + position * size

/-- The binary search of `find_entry()` and `add_entry()` between two positions: where it ends, and
whether the key is there. -/
def search (page : Bytes) (size length : ℕ) (key : Bytes) :
    ℕ → ℕ → ℕ → ℕ → Except Failure (ℕ × Bool)
  | 0, i, j, position => if i < j then .error .undefinedBehavior else .ok (position, false)
  | fuel + 1, i, j, position =>
    if i < j then
      let position := (j - i) / 2 + i
      match memcmp (page.slice (entryOffset size position + 1 + 8) length) (key.take length) with
      | .lt => search page size length key fuel (position + 1) j (position + 1)
      | .gt => search page size length key fuel i position position
      | .eq => .ok (position, true)
    else .ok (position, false)

/-- `find_entry()`: the identifier, and the position as `get_position()` returns it then. -/
def findEntry (page key : Bytes) : Except Failure (ℕ × ℕ) := do
  let count := getCount page
  if count = 0 then .ok (nullFileAddr, 0)
  else
    let size := getSize page
    let length := min (sub64 size (1 + 8)) key.length % 2 ^ 32
    let (position, found) ← search page size length key count 0 count 0
    if found then .ok (ofBytes (page.slice (entryOffset size position + 1) 8), position)
    else .ok (nullFileAddr, position)

/-- An exception, with the block as it is. -/
def throw (page : Bytes) {α : Type} (kind : ErrorKind) (message : String) :
    Except (Failure × Bytes) α := .error (.thrown kind message, page)

/-- The position of a new entry: the one that is given, or the one the search ends at. -/
def closePosition (page : Bytes) (size length count : ℕ) (key : Bytes) :
    Option ℕ → Except (Failure × Bytes) ℕ
  | some position => .ok position
  | none =>
    match search page size length key count 0 count 0 with
    | .error e => .error (e, page)
    | .ok (_, true) => throw page .notYetImplemented "block EIDX non-unique case"
    | .ok (position, false) => .ok position

/-- The bytes that `add_entry()` writes at a position, after those of the entries there were moved. -/
def putEntry (page : Bytes) (size length count position : ℕ) (key : Bytes) (oid : ℕ) : Bytes :=
  let minLength := min length key.length
  let page :=
    if 0 < count - position then
      page.overwrite (entryOffset size (position + 1))
        (page.slice (entryOffset size position) ((count - position) * size))
    else page
  let page := page.overwrite (entryOffset size position)
    [if key.length ≤ length then flagComplete else 0]
  let page := page.overwrite (entryOffset size position + 1) (toBytes 8 oid)
  let page := page.overwrite (entryOffset size position + 1 + 8) (key.take minLength)
  if key.length < length then
    page.overwrite (entryOffset size position + 1 + 8 + key.length)
      (List.replicate (length - key.length) 0)
  else page

/-- `add_entry()`, where a negative position is none. -/
def addEntry (pageSize : ℕ) (page key : Bytes) (oid : ℕ) (position : Option ℕ) :
    Except (Failure × Bytes) Bytes := do
  let count := getCount page
  let size := getSize page
  let length := sub64 size (1 + 8) % 2 ^ 32
  if size < 1 + 8 + 1 then
    throw page .logicError
      "the size of this block_entry_index is not yet defined calling add_entry()."
  else
    let position ← closePosition page size (min length key.length) count key position
    let maxCount := (pageSize - staticSize) / size
    if maxCount ≤ count then
      if maxCount ≤ position then throw page .notYetImplemented "block EIDX overflow case 1"
      else throw page .notYetImplemented "block EIDX overflow case 2"
    else if count < position then .error (.undefinedBehavior, page)
    else
      .ok (setCount (putEntry page size length count position key oid) (count + 1))

end EntryIndex

/-! ### The table -/

/-- What a table gives its primary index: the size of a page, `snapdev::log2()`, whether
`get_block()` returns, and what `allocate_new_block()` answers to each call. -/
structure PrimaryPages where
  pageSize : ℕ
  log2 : ℕ → ℕ
  getBlock : Except Failure Unit
  allocateNewBlock : ℕ → Except Failure ℕ

/-- A block of the primary index. -/
inductive PrimaryBlock
  | pidx (page : Bytes)
  | eidx (page : Bytes)

/-- The fields of the header that the primary index uses, its blocks, and how many were
allocated. -/
structure PrimaryTable where
  primaryIndexBlock : ℕ := nullFileAddr
  primaryIndexReferenceZero : ℕ := nullFileAddr
  blocks : ℕ → Option PrimaryBlock := fun _ => none
  allocated : ℕ := 0

namespace PrimaryPages

/-- `block_primary_index::get_size()`. -/
def indexBits (p : PrimaryPages) : ℕ := min (p.log2 p.pageSize - p.log2 8) 32

/-- The loop of `key_to_index()` from the end of the key. -/
def keyBits (key : Bytes) : ℕ → ℕ → ℕ → ℕ → ℕ
  | 0, _, _, k => k
  | bytes + 1, idx, shift, k =>
    keyBits key bytes (idx - 1) (shift + 8)
      ((k ||| (key.getD (idx - 1) 0).toNat <<< shift) % 2 ^ 32)

/-- `key_to_index()`: a number of 32 bits cannot be shifted by 32. -/
def keyToIndex (p : PrimaryPages) (key : Bytes) : Except Failure ℕ :=
  let size := p.indexBits
  let bytes := min ((size + 8 - 1) / 8) key.length
  let k := keyBits key bytes key.length 0 0
  if 32 ≤ size then .error .undefinedBehavior
  else
    let mask := ((2 ^ 32 - 1) <<< size) % 2 ^ 32
    .ok (k &&& (2 ^ 32 - 1 - mask))

end PrimaryPages

namespace PrimaryTable

variable (p : PrimaryPages)

/-- `get_block()`. -/
def getBlock (t : PrimaryTable) (offset : ℕ) : Except Failure PrimaryBlock := do
  p.getBlock
  match t.blocks offset with
  | some b => .ok b
  | none => .error .undefinedBehavior

/-- Keep a block. -/
def store (t : PrimaryTable) (offset : ℕ) (b : PrimaryBlock) : PrimaryTable :=
  { t with blocks := Function.update t.blocks offset (some b) }

/-- `allocate_new_block()`: a new block has its type, and zeroes. -/
def allocate (t : PrimaryTable) (block : Bytes → PrimaryBlock) (type : DbType) :
    Except Failure (PrimaryTable × ℕ × Bytes) := do
  let offset ← p.allocateNewBlock t.allocated
  let page := type.magic ++ List.replicate (p.pageSize - 4) 0
  .ok ({ t.store offset (block page) with allocated := t.allocated + 1 }, offset, page)

/-- `get_top_index()` of the `PIDX` block with those bytes. -/
def getTopIndex (t : PrimaryTable) (page key : Bytes) : Except Failure ℕ := do
  let k ← p.keyToIndex key
  if k = 0 then
    p.getBlock
    .ok t.primaryIndexReferenceZero
  else .ok (ofBytes (page.slice (k * 8) 8))

/-- `set_top_index()` of the `PIDX` block at an offset. -/
def setTopIndex (t : PrimaryTable) (pidx : ℕ) (page key : Bytes) (offset : ℕ) :
    Except Failure PrimaryTable := do
  let k ← p.keyToIndex key
  if k = 0 then
    p.getBlock
    .ok { t with primaryIndexReferenceZero := offset }
  else .ok (t.store pidx (.pidx (page.overwrite (k * 8) (toBytes 8 offset))))

/-- `get_primary_index_block()`. -/
def getPrimaryIndexBlock (t : PrimaryTable) (create : Bool) :
    Except Failure (PrimaryTable × Option (ℕ × Bytes)) := do
  p.getBlock
  if t.primaryIndexBlock = nullFileAddr then
    if create then
      let (t, offset, page) ← t.allocate p .pidx .primaryIndex
      .ok ({ t with primaryIndexBlock := offset }, some (offset, page))
    else .ok (t, none)
  else
    match ← t.getBlock p t.primaryIndexBlock with
    | .pidx page => .ok (t, some (t.primaryIndexBlock, page))
    | .eidx _ => .error .undefinedBehavior

/-- What `read_primary()` leaves in the state of the cursor: the `EIDX` block with the position in
it, if there is one. -/
structure CursorState where
  entryIndex : Option ℕ := none
  entryIndexClosePosition : ℕ := 0

/-- `read_primary()` up to the identifier of the row, where a key that is not found has the null
one. -/
def readPrimary (t : PrimaryTable) (key : Bytes) : Except Failure (ℕ × CursorState) := do
  match ← t.getPrimaryIndexBlock p false with
  | (_, none) => .ok (nullFileAddr, {})
  | (_, some (_, page)) =>
    let ref ← t.getTopIndex p page key
    if ref = nullFileAddr then .ok (nullFileAddr, {})
    else
      match ← t.getBlock p ref with
      | .pidx _ =>
        .error (.thrown .typeMismatch
          ("Found unexpected block of type \"" ++ DbType.primaryIndex.toName ++ "\". Expected an  \""
            ++ DbType.entryIndex.toName ++ "\"."))
      | .eidx page =>
        let (oid, position) ← EntryIndex.findEntry page key
        .ok (oid, { entryIndex := some ref, entryIndexClosePosition := position })

/-- `add_entry()` on the `EIDX` block at an offset. -/
def addEntry (t : PrimaryTable) (offset : ℕ) (page key : Bytes) (oid : ℕ) (position : Option ℕ) :
    Except Failure PrimaryTable :=
  match EntryIndex.addEntry p.pageSize page key oid position with
  | .ok page => .ok (t.store offset (.eidx page))
  | .error (e, _) => .error e

/-- The part of `row_insert()` on the primary index, with what the cursor found. -/
def rowInsert (t : PrimaryTable) (key : Bytes) (oid : ℕ) (state : CursorState) :
    Except Failure PrimaryTable := do
  match state.entryIndex with
  | some offset =>
    match t.blocks offset with
    | some (.eidx page) => t.addEntry p offset page key oid (some state.entryIndexClosePosition)
    | _ => .error .undefinedBehavior
  | none =>
    match ← t.getPrimaryIndexBlock p true with
    | (_, none) => .error .undefinedBehavior
    | (t, some (pidx, pidxPage)) =>
      let (t, offset, page) ← t.allocate p .eidx .entryIndex
      let page := EntryIndex.setKeySize page 16
      let t ← (t.store offset (.eidx page)).addEntry p offset page key oid none
      t.setTopIndex p pidx pidxPage key offset

/-- An insertion, as `row_commit()` makes it. -/
def insert (t : PrimaryTable) (key : Bytes) (oid : ℕ) : Except Failure PrimaryTable := do
  let (found, state) ← t.readPrimary p key
  if found = nullFileAddr then t.rowInsert p key oid state
  else
    .error (.thrown .rowAlreadyExists
      "Row with key \"...\" already exists so it can't be inserted.")

end PrimaryTable

end Prinbee
