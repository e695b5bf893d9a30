import Prinbee.Block.Calls

/-!
# The indirect index of a table

`block_indirect_index.cpp`, `block_top_indirect_index.cpp` and the parts of `table.cpp` that use
them: the reference of a row is found by its object identifier.  An `INDR` block holds the
references of so many rows as fit in a page, and a `TIND` block of level `l` holds the offsets of
blocks, each one for `count ^ l` rows.  The index grows when a row is inserted: a level is added on
top when the blocks are full, and a `TIND` may lead to an `INDR` directly until this one is full.

Blocks are known by their offset.  What `allocate_new_block()` answers to the successive calls,
and whether `get_block()` returns, is given.

## Main definitions

* `IndexBlock`, `OidTable` — the blocks, with the fields of the header.
* `tindPosition`, `tindGetReference`, `indrGetReference` — the two `get_position()` and
  `get_reference()`.
* `OidTable.rowInsert` — the part of `row_insert()` on the index.
* `OidTable.getIndirectReference` — `get_indirect_reference()`.
-/

namespace Prinbee

/-- `NULL_OID`. -/
def nullOid : ℕ := 0

/-- An `INDR` block, or a `TIND` block with its `block_level`. -/
inductive IndexBlock
  | indr (refs : ℕ → ℕ)
  | tind (level : ℕ) (refs : ℕ → ℕ)

/-- What a table gives its index: the size of a page, whether `get_block()` returns, and what
`allocate_new_block()` answers to each call. -/
structure OidPages where
  pageSize : ℕ
  getBlock : Except Failure Unit
  allocateNewBlock : ℕ → Except Failure ℕ

/-- The fields of the header that the index uses, its blocks, and how many were allocated. -/
structure OidTable where
  firstFreeOid : ℕ := nullOid
  lastOid : ℕ := 1
  indirectIndex : ℕ := nullFileAddr
  blocks : ℕ → Option IndexBlock := fun _ => none
  allocated : ℕ := 0

/-! ### Positions -/

/-- `f_start_offset`: the structure of a `TIND` has 9 bytes and the one of an `INDR` has 8, and the
references start at the same place in both. -/
def startOffset : ℕ := max (roundUp 9 8) (roundUp 8 8)

/-- `get_max_count()`, the same for both blocks. -/
def maxCount (pageSize : ℕ) : ℕ := (pageSize - startOffset) / 8

/-- The loop on `power` in `block_top_indirect_index::get_position()`. -/
def powerLoop (count : ℕ) : ℕ → ℕ
  | 0 => count
  | l + 1 => powerLoop count l * count % 2 ^ 64

/-- `block_top_indirect_index::get_position()`: the position, when there is one, and the
identifier at the next level. -/
def tindPosition (count level id : ℕ) : Except Failure (Option ℕ × ℕ) :=
  let power := powerLoop count (level - 1)
  if power = 0 then .error .undefinedBehavior
  else
    let id := sub64 id 1
    let position := id / power
    .ok (if count ≤ position then none else some position, id % power + 1)

/-- `block_top_indirect_index::get_reference()`. -/
def tindGetReference (count level : ℕ) (refs : ℕ → ℕ) (id : ℕ) (mustExist : Bool) :
    Except Failure (ℕ × ℕ) := do
  match ← tindPosition count level id with
  | (some position, id) => .ok (refs position, id)
  | (none, id) =>
    if mustExist then
      .error (.thrown .logicError
        "somehow a Top Indirect Index position is out of bounds calling get_reference().")
    else .ok (missingFileAddr, id)

/-- `block_indirect_index::get_reference()` where the position must exist. -/
def indrGetReference (count : ℕ) (refs : ℕ → ℕ) (id : ℕ) : Except Failure ℕ :=
  if count ≤ sub64 id 1 then
    .error (.thrown .logicError "somehow an Indirect Index position is out of bounds.")
  else .ok (refs (sub64 id 1))

namespace OidTable

variable (p : OidPages)

/-- `get_block()`. -/
def getBlock (t : OidTable) (offset : ℕ) : Except Failure IndexBlock := do
  p.getBlock
  match t.blocks offset with
  | some b => .ok b
  | none => .error .undefinedBehavior

/-- Keep a block. -/
def store (t : OidTable) (offset : ℕ) (b : IndexBlock) : OidTable :=
  { t with blocks := Function.update t.blocks offset (some b) }

/-- `allocate_new_block()`; a new block is cleared. -/
def allocate (t : OidTable) (b : IndexBlock) : Except Failure (OidTable × ℕ) := do
  let offset ← p.allocateNewBlock t.allocated
  .ok ({ t.store offset b with allocated := t.allocated + 1 }, offset)

/-- `block_top_indirect_index::set_reference()` on the block at an offset. -/
def tindSetReference (t : OidTable) (offset id ref : ℕ) : Except Failure (OidTable × ℕ) :=
  match t.blocks offset with
  | some (.tind level refs) => do
    match ← tindPosition (maxCount p.pageSize) level id with
    | (some position, id) =>
      .ok (t.store offset (.tind level (Function.update refs position ref)), id)
    | (none, _) =>
      .error (.thrown .logicError
        "somehow a Top Indirect Index position is out of bounds calling set_reference().")
  | _ => .error .undefinedBehavior

/-- `block_indirect_index::set_reference()` on the block at an offset. -/
def indrSetReference (t : OidTable) (offset id ref : ℕ) : Except Failure OidTable :=
  match t.blocks offset with
  | some (.indr refs) =>
    if maxCount p.pageSize ≤ sub64 id 1 then
      .error (.thrown .logicError "somehow an Indirect Index position is out of bounds.")
    else .ok (t.store offset (.indr (Function.update refs (sub64 id 1) ref)))
  | _ => .error .undefinedBehavior

/-- `set_block_level()` on the block at an offset. -/
def setBlockLevel (t : OidTable) (offset level : ℕ) : OidTable :=
  match t.blocks offset with
  | some (.tind _ refs) => t.store offset (.tind level refs)
  | _ => t

/-- `get_block_level()` of the block at an offset. -/
def getBlockLevel (t : OidTable) (offset : ℕ) : Except Failure ℕ :=
  match t.blocks offset with
  | some (.tind level _) => .ok level
  | _ => .error .undefinedBehavior

/-- A new `INDR`. -/
def newIndr (t : OidTable) : Except Failure (OidTable × ℕ) :=
  t.allocate p (.indr fun _ => nullFileAddr)

/-- A new `TIND`. -/
def newTind (t : OidTable) : Except Failure (OidTable × ℕ) :=
  t.allocate p (.tind 0 fun _ => nullFileAddr)

/-! ### Insertion -/

/-- The loop of `row_insert()` that creates all the levels down to 1 under `parent`, starting with
`top`.  Returns the block of level 1. -/
def createLevels : ℕ → OidTable → ℕ → ℕ → ℕ → Except Failure (OidTable × ℕ)
  | 0, _, _, _, _ => .error .undefinedBehavior
  | blockLevel + 1, t, parent, top, positionOid => do
    let t := t.setBlockLevel top blockLevel
    let (t, positionOid) ← t.tindSetReference p parent positionOid top
    if blockLevel ≤ 1 then .ok (t, top)
    else
      let (t, next) ← t.newTind p
      createLevels blockLevel t top next positionOid

/-- Put the blocks `first` and, for `oid`, a new `INDR` in the first two positions of `top`. -/
def splitTop (t : OidTable) (top first oid : ℕ) : Except Failure (OidTable × ℕ × ℕ) := do
  let (t, _) ← t.tindSetReference p top (sub64 oid 1) first
  let (t, indr) ← t.newIndr p
  let (t, positionOid) ← t.tindSetReference p top oid indr
  .ok (t, indr, positionOid)

/-- The end of the search at the `INDR` block `indr`: when it is full, a `TIND` is created above. -/
def reachIndr (t : OidTable) (parent : Option ℕ) (indr parentOid positionOid : ℕ) :
    Except Failure (OidTable × ℕ × ℕ) :=
  if positionOid ≤ maxCount p.pageSize then .ok (t, indr, positionOid)
  else do
    let (t, top) ← t.newTind p
    let (t, top) ←
      match parent with
      | none => .ok ({ t.setBlockLevel top 1 with indirectIndex := top }, top)
      | some parent => do
        let blockLevel ← t.getBlockLevel parent
        if blockLevel ≤ 1 then
          .error (.thrown .logicError
            ("parent_tind block level is " ++ toString blockLevel
              ++ " which is not valid here, it is expected to be at least 2."))
        else t.createLevels p blockLevel parent top parentOid
    t.splitTop p top indr positionOid

/-- A `TIND` whose positions are all used up: a level on top of it. -/
def addTop (t : OidTable) (parent : Option ℕ) (tind level parentOid oid : ℕ) :
    Except Failure (OidTable × ℕ × ℕ) :=
  if 255 ≤ level then .error (.thrown .outOfBounds "too many block levels.")
  else do
    let (t, top) ← t.newTind p
    let t := t.setBlockLevel top (level + 1)
    let t ←
      match parent with
      | some parent => do
        let (t, _) ← t.tindSetReference p parent parentOid tind
        .ok t
      | none => .ok { t with indirectIndex := top }
    t.splitTop p top tind oid

/-- The loop of `row_insert()` down the index, from the block at `offset`: the `INDR` block and the
position in it.  A block is reached from one of a higher level, and levels are bytes. -/
def descend (mustExist : Bool) : ℕ → OidTable → Option ℕ → ℕ → ℕ → ℕ →
    Except Failure (OidTable × ℕ × ℕ)
  | 0, _, _, _, _, _ => .error .undefinedBehavior
  | fuel + 1, t, parent, offset, parentOid, positionOid => do
    match ← t.getBlock p offset with
    | .indr _ => t.reachIndr p parent offset parentOid positionOid
    | .tind level refs =>
      let saveOid := positionOid
      let (next, positionOid) ←
        tindGetReference (maxCount p.pageSize) level refs positionOid mustExist
      if next = nullFileAddr then
        let (t, indr) ← t.newIndr p
        let (t, positionOid) ← t.tindSetReference p offset saveOid indr
        .ok (t, indr, positionOid)
      else if next = missingFileAddr then t.addTop p parent offset level parentOid saveOid
      else descend mustExist fuel t (some offset) next saveOid positionOid

/-- The number of levels that a byte can count. -/
def maxLevels : ℕ := 256

/-- The part of `row_insert()` on the index: allocate an identifier, find its place and store the
reference of the row there. -/
def rowInsert (t : OidTable) (ref : ℕ) : Except Failure (OidTable × ℕ) := do
  p.getBlock
  let mustExist : Bool := t.firstFreeOid ≠ nullOid
  let oid := if mustExist then t.firstFreeOid else t.lastOid
  let t := if mustExist then t else { t with lastOid := (oid + 1) % 2 ^ 64 }
  let (t, indr, positionOid) ←
    if t.indirectIndex = nullFileAddr then
      if oid ≠ 1 then
        .error (.thrown .logicError
          "the indirect index offset is null but the first OID is not 1.")
      else do
        let (t, indr) ← t.newIndr p
        .ok ({ t with indirectIndex := indr }, indr, oid)
    else t.descend p mustExist maxLevels none t.indirectIndex oid oid
  let t ← t.indrSetReference p indr positionOid ref
  .ok (t, oid)

/-! ### Lookup -/

/-- The loop of `get_indirect_reference()` from the block at `offset`. -/
def findReference : ℕ → OidTable → ℕ → ℕ → Except Failure ℕ
  | 0, _, _, _ => .error .undefinedBehavior
  | fuel + 1, t, offset, oid => do
    match ← t.getBlock p offset with
    | .indr refs => indrGetReference (maxCount p.pageSize) refs oid
    | .tind level refs =>
      let (next, oid) ← tindGetReference (maxCount p.pageSize) level refs oid true
      if next = nullFileAddr then
        .error (.thrown .logicError
          "somehow the get_indirect_reference() was called with a still unused OID.")
      else findReference fuel t next oid

/-- `get_indirect_reference()`. -/
def getIndirectReference (t : OidTable) (oid : ℕ) : Except Failure ℕ := do
  p.getBlock
  if t.indirectIndex = nullFileAddr then
    .error (.thrown .logicError
      "somehow the get_indirect_reference() was called when no row exists.")
  else t.findReference p maxLevels t.indirectIndex oid

end OidTable

end Prinbee
