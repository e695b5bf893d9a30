import Prinbee.Block.Calls

/-!
# The blocks of a table file

`dbfile.cpp` and the functions of `table.cpp` that hand out the pages of a file and take them back.
The free pages of a file are a list: the header of the table has the offset of the first one, and
each one has the offset of the next.  When the list is empty the file grows by sixteen pages.

The file is its bytes.  A call that throws leaves the file as it is at that point.

## Main definitions

* `DbType` — `dbtype_t`.
* `TableBlocks` — a table file and the blocks that are loaded.
* `TableBlocks.appendFreeBlock` — `dbfile::append_free_block()`.
* `TableBlocks.allocateNewBlock`, `TableBlocks.freeBlock` — the functions of `table_impl`.
* `TableBlocks.create` — what `dbfile::open_file()` does with a new file.
-/

namespace Prinbee

open UInt512 (ofBytes toBytes)

/-- `dbtype_t`. -/
inductive DbType
  | unknown
  | complexType
  | context
  | schema
  | indexDescription
  | table
  | primaryIndex
  | index
  | bloomFilter
  | blob
  | data
  | entryIndex
  | freeBlock
  | freeSpace
  | indexPointers
  | indirectIndex
  | secondaryIndex
  | schemaList
  | topIndex
  | topIndirectIndex
  deriving DecidableEq, Repr

namespace DbType

/-- The four characters of a type, which start its blocks. -/
def magic : DbType → Bytes
  | unknown => [63, 63, 63, 63]
  | complexType => [67, 88, 84, 80]
  | context => [67, 84, 88, 84]
  | schema => [83, 67, 72, 77]
  | indexDescription => [73, 68, 88, 68]
  | table => [80, 84, 66, 76]
  | primaryIndex => [80, 73, 68, 88]
  | index => [73, 78, 68, 88]
  | bloomFilter => [66, 76, 77, 70]
  | blob => [66, 76, 79, 66]
  | data => [68, 65, 84, 65]
  | entryIndex => [69, 73, 68, 88]
  | freeBlock => [70, 82, 69, 69]
  | freeSpace => [70, 83, 80, 67]
  | indexPointers => [73, 68, 88, 80]
  | indirectIndex => [73, 78, 68, 82]
  | secondaryIndex => [83, 73, 68, 88]
  | schemaList => [83, 67, 72, 76]
  | topIndex => [84, 73, 68, 88]
  | topIndirectIndex => [84, 73, 78, 68]

/-- `to_name()`. -/
def toName : DbType → String
  | unknown => "Unknown"
  | complexType => "Complex Type (CXTP)"
  | context => "Prinbee Context (CTXT)"
  | schema => "Schema (SCHM)"
  | indexDescription => "Index Definition (IDXD)"
  | table => "Prinbee Table (PTBL)"
  | primaryIndex => "Primary Index (PIDX)"
  | index => "Index (INDX)"
  | bloomFilter => "Bloom Filter (BLMF)"
  | blob => "Blob (BLOB)"
  | data => "Data (DATA)"
  | entryIndex => "Entry Index (EIDX)"
  | freeBlock => "Free Block (FREE)"
  | freeSpace => "Free Space (FSPC)"
  | indexPointers => "Index Pointer (IDXP)"
  | indirectIndex => "Indirect Index (INDR)"
  | secondaryIndex => "Secondary Index (SIDX)"
  | schemaList => "Schema List (SCHL)"
  | topIndex => "Top Index (TIDX)"
  | topIndirectIndex => "Top Indirect Index (TIND)"

/-- The types, and the one of a magic word. -/
def all : List DbType :=
  [unknown, complexType, context, schema, indexDescription, table, primaryIndex, index, bloomFilter,
    blob, data, entryIndex, freeBlock, freeSpace, indexPointers, indirectIndex, secondaryIndex,
    schemaList, topIndex, topIndirectIndex]

@[inherit_doc all]
def ofMagic (word : Bytes) : Option DbType := all.find? fun type => type.magic = word

/-- `get_static_size()` of the blocks that `allocate_block()` creates. -/
def staticSize : DbType → Option ℕ
  | table => some 140
  | index => some 8
  | bloomFilter => some 8
  | primaryIndex => some 8
  | schema => some 20
  | blob => some 20
  | data => some 8
  | entryIndex => some 32
  | freeBlock => some 16
  | freeSpace => some 8
  | indexPointers => some 8
  | indirectIndex => some 8
  | secondaryIndex => some 32
  | topIndex => some 16
  | topIndirectIndex => some 9
  | _ => none

/-- The types that start a file. -/
def isFile : DbType → Bool
  | table | index | bloomFilter => true
  | _ => false

end DbType

/-- A table file, and the offsets of the blocks in `f_blocks`. -/
structure TableBlocks where
  filename : String
  pageSize : ℕ
  sparse : Bool
  bytes : Bytes := []
  blocks : List ℕ := []

namespace TableBlocks

/-- A call that throws leaves the file in some state. -/
abbrev Outcome (α : Type) := Except (Failure × TableBlocks) α

/-- An exception. -/
def throw (t : TableBlocks) {α : Type} (kind : ErrorKind) (message : String) : Outcome α :=
  .error (.thrown kind message, t)

/-- A call on a block that may throw. -/
def call (t : TableBlocks) (outcome : Except Failure Unit) : Outcome Unit :=
  outcome.mapError fun e => (e, t)

/-- `dbfile::get_size()`. -/
def size (t : TableBlocks) : ℕ := t.bytes.length

/-- The magic word of the page at an offset. -/
def magicAt (t : TableBlocks) (offset : ℕ) : Bytes := t.bytes.slice offset 4

/-- The reference at an address. -/
def reference (t : TableBlocks) (address : ℕ) : ℕ := ofBytes (t.bytes.slice address 8)

/-- Bytes written in a page. -/
def write (t : TableBlocks) (address : ℕ) (bytes : Bytes) : TableBlocks :=
  { t with bytes := t.bytes.overwrite address bytes }

/-- `set_first_free_block()` of the header and `set_next_free_block()` of a free block. -/
def setReference (t : TableBlocks) (address ref : ℕ) : TableBlocks :=
  t.write address (toBytes 8 ref)

/-- Where the reference of a free block, and the one of the header to the first of them, are in
their page. -/
def freeBlockField : ℕ := 8

/-! ### The file -/

/-- The offsets of an `off_t` end here: the file cannot grow past it. -/
def maxFileSize : ℕ := 2 ^ 63

/-- `append_free_block()`. -/
def appendFreeBlock (t : TableBlocks) (previousBlockOffset : ℕ) : Outcome (TableBlocks × ℕ) :=
  let p := t.size
  let written := t.bytes ++ (DbType.freeBlock.magic ++ toBytes 4 1 ++ toBytes 8 previousBlockOffset)
  if t.sparse then
    if maxFileSize ≤ p + t.pageSize then
      t.throw .ioError
        ("System could not properly truncate the file \"" ++ t.filename
          ++ "\" (27, File too large).")
    else
      .ok ({ t with bytes := (written ++ List.replicate t.pageSize 0).take (p + t.pageSize) }, p)
  else
    let zeroes := t.pageSize - 4 - 8
    if maxFileSize ≤ written.length + zeroes then
      t.throw .ioError ("System could not properly write to file \"" ++ t.filename ++ "\".")
    else .ok ({ t with bytes := written ++ List.replicate zeroes 0 }, p)

/-- The loop that appends blocks with the offsets `next`, `next + page_size` and so on. -/
def appendLoop : ℕ → TableBlocks → ℕ → Outcome TableBlocks
  | 0, t, _ => .ok t
  | idx + 1, t, next => do
    let (t, _) ← t.appendFreeBlock next
    appendLoop idx t (next + t.pageSize)

/-- Sixteen `FREE` blocks: one that is for immediate use, and a list of fifteen. -/
def appendFreeBlocks (t : TableBlocks) : Outcome (TableBlocks × ℕ) := do
  let (t, offset) ← t.appendFreeBlock nullFileAddr
  let t ← appendLoop 14 t (offset + t.pageSize * 2)
  let (t, _) ← t.appendFreeBlock nullFileAddr
  .ok (t, offset)

/-! ### The blocks -/

/-- `allocate_block()`. -/
def allocateBlock (t : TableBlocks) (type : DbType) (offset : ℕ) : Outcome TableBlocks :=
  if offset ∈ t.blocks ∧ t.magicAt offset = type.magic then .ok t
  else if offset ∈ t.blocks ∧ type ≠ .freeBlock ∧ t.magicAt offset ≠ DbType.freeBlock.magic then
    t.throw .logicError
      ("allocate_block() called a non-free block type trying to allocate a non-free block ("
        ++ type.toName
        ++ "). You can go from a free to non-free and non-free to free only.")
  else
    let t := { t with blocks := t.blocks.erase offset }
    match type.staticSize with
    | none =>
      t.throw .logicError
        ("allocate_block() called with an unknown dbtype_t value (" ++ type.toName ++ ").")
    | some size =>
      -- `set_dbtype()`
      let t :=
        if t.magicAt offset = type.magic then t
        else t.write offset (type.magic ++ List.replicate (size - 4) 0)
      .ok { t with blocks := offset :: t.blocks }

/-- `get_block()`. -/
def getBlock (calls : BlockCalls) (t : TableBlocks) (offset : ℕ) : Outcome TableBlocks := do
  if offset ≠ 0 ∧ t.size ≤ offset then
    t.throw .logicError "Requested a block with an offset >= to the existing file size."
  else
    t.call calls.getBlock
    match DbType.ofMagic (t.magicAt offset) with
    | none =>
      t.throw .logicError "allocate_block() called with an unknown dbtype_t value (Invalid)."
    | some type => t.allocateBlock type offset

/-- `clear_block()` of a block whose structure has so many bytes. -/
def clearBlock (t : TableBlocks) (type : DbType) (offset : ℕ) : TableBlocks :=
  let size := type.staticSize.getD 0
  t.write (offset + size) (List.replicate ((t.pageSize - size) % 2 ^ 32) 0)

/-- The block at `offset` is made one of that type: the end of `allocate_new_block()`. -/
def makeBlock (calls : BlockCalls) (t : TableBlocks) (type : DbType) (offset : ℕ) :
    Outcome (TableBlocks × ℕ) := do
  let t ← t.allocateBlock type offset
  t.call calls.setStructureVersion
  let t := t.write (offset + 4) (toBytes 4 0)
  .ok (t.clearBlock type offset, offset)

/-- `allocate_new_block()`. -/
def allocateNewBlock (calls : BlockCalls) (t : TableBlocks) (type : DbType) :
    Outcome (TableBlocks × ℕ) := do
  if type = .freeBlock then
    t.throw .logicError "You can't allocate a Free Block with allocate_new_block()."
  else if t.size = 0 then
    if type.isFile then
      let (t, _) ← t.appendFreeBlocks
      t.makeBlock calls type 0
    else
      t.throw .logicError ("a new file can't be created with type \"" ++ type.toName ++ "\".")
  else if type.isFile then
    t.throw .logicError
      ("a file type such as \"" ++ type.toName ++ "\" is only for when you create a file.")
  else
    let t ← t.getBlock calls 0
    let offset := t.reference freeBlockField
    if offset = nullFileAddr then
      let (t, offset) ← t.appendFreeBlocks
      let t := t.setReference freeBlockField (offset + t.pageSize)
      t.makeBlock calls type offset
    else
      let t ← t.getBlock calls offset
      let t := t.setReference freeBlockField (t.reference (offset + freeBlockField))
      t.makeBlock calls type offset

/-- `free_block()`. -/
def freeBlock (calls : BlockCalls) (t : TableBlocks) (offset : ℕ) (clearBlock : Bool) :
    Outcome TableBlocks := do
  let t ← t.allocateBlock .freeBlock offset
  let t := if clearBlock then t.clearBlock .freeBlock offset else t
  let t ← t.getBlock calls 0
  let nextOffset := t.reference freeBlockField
  let t := t.setReference (offset + freeBlockField) nextOffset
  .ok (t.setReference freeBlockField offset)

/-- Where the header has its last identifier. -/
def lastOidField : ℕ := 24

/-- A new file, as `open_file()` creates it. -/
def create (calls : BlockCalls) (filename : String) (pageSize : ℕ) (sparse : Bool) :
    Outcome TableBlocks := do
  let t : TableBlocks := { filename := filename, pageSize := pageSize, sparse := sparse }
  let (t, offset) ← t.allocateNewBlock calls .table
  let t := t.setReference (offset + freeBlockField) pageSize
  t.call calls.setBlockSize
  t.call calls.setFileVersion
  .ok (t.setReference (offset + lastOidField) 1)

end TableBlocks

end Prinbee
