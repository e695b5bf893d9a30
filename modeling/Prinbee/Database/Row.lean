import Prinbee.Database.Cell

/-!
# Rows

`row.cpp`: the cells of a row, by the identifier of their column, and the blob a row is saved as: the
version of the schema, and then the identifier and the value of each cell.  A blob is read back with
the schema of its version; when that is not the current one, each value is copied to the column of
the current schema.

A table keeps its schemas by version.  A lookup without a version asks for version 0, and one of a
version the table does not have dereferences a null pointer.

## Main definitions

* `SchemaTable` — the columns of a version of the schema.
* `Table.getColumn`, `Table.getColumnByName` — the lookups of a column.
* `Row.toBinary`, `Row.fromBinary` — the binary format of a row.
-/

namespace Prinbee

/-- `schema_table`: its columns as they are loaded, none of which has the identifier 0. -/
structure SchemaTable where
  schemaVersion : UInt32
  columns : List SchemaColumn
  id_ne_zero : ∀ c ∈ columns, c.columnId ≠ 0

namespace SchemaTable

/-- `get_column()` by identifier, where the last column that is loaded stays. -/
def getColumn (s : SchemaTable) (id : UInt16) : Option SchemaColumn :=
  s.columns.reverse.find? (·.columnId = id)

/-- `get_column()` by name. -/
def getColumnByName (s : SchemaTable) (name : Bytes) : Option SchemaColumn :=
  s.columns.reverse.find? (·.name = name)

end SchemaTable

/-- A table: its name, its current schema, and the schemas it loaded. -/
structure Table where
  name : Bytes
  schemaTable : SchemaTable
  schemaTableByVersion : UInt32 → Option SchemaTable

namespace Table

/-- `get_schema_version()`. -/
def getSchemaVersion (t : Table) : UInt32 := t.schemaTable.schemaVersion

/-- `get_schema()`, for a call on what it returns. -/
def getSchema (t : Table) (version : UInt32) : Except Failure SchemaTable :=
  match t.schemaTableByVersion version with
  | some s => .ok s
  | none => .error .undefinedBehavior

/-- `get_column()` by identifier. -/
def getColumn (t : Table) (id : UInt16) (version : UInt32) :
    Except Failure (Option SchemaColumn) := do
  let s ← t.getSchema version
  .ok (s.getColumn id)

/-- `get_column()` by name. -/
def getColumnByName (t : Table) (name : Bytes) (version : UInt32) :
    Except Failure (Option SchemaColumn) := do
  let s ← t.getSchema version
  .ok (s.getColumnByName name)

end Table

namespace Row

variable {F : Type} (fmt : FloatFormat F) (lib : Conversions)

/-- `f_cells`, in the order of the identifiers. -/
abbrev Cells (F : Type) := List (Cell F)

/-- The identifier of the column of a cell. -/
def id (c : Cell F) : UInt16 := c.schemaColumn.columnId

/-- Keep a cell under the identifier of its column. -/
def put (c : Cell F) : Cells F → Cells F
  | [] => [c]
  | d :: cells =>
    if id c < id d then c :: d :: cells
    else if id c = id d then c :: cells
    else d :: put c cells

/-- `get_cell()` by identifier, which creates the cell if it is not there. -/
def getCell (t : Table) (cells : Cells F) (columnId : UInt16) : Except Failure (Cell F) := do
  match cells.find? (id · = columnId) with
  | some c => .ok c
  | none =>
    match ← t.getColumn columnId 0 with
    | some column => .ok (.new fmt column)
    | none =>
      .error (.thrown .columnNotFound
        ("Column with identifier " ++ toString columnId.toNat ++ " does not exist in \""
          ++ textOf t.name ++ "\" (get_cell)."))

/-! ### The blob -/

/-- A cell with the identifier of its column. -/
def cellToBinary (c : Cell F) : Except Failure Bytes := do
  let value ← c.valueToBinary fmt
  .ok (pushBe 2 (id c).toNat ++ value)

/-- The cells one after the other. -/
def cellsToBinary : Cells F → Except Failure Bytes
  | [] => .ok []
  | c :: cells => do
    let cell ← cellToBinary fmt c
    let rest ← cellsToBinary cells
    .ok (cell ++ rest)

/-- `to_binary()`. -/
def toBinary (t : Table) (cells : Cells F) : Except Failure Bytes := do
  let values ← cellsToBinary fmt cells
  let result := pushBe 4 t.getSchemaVersion.toNat ++ values
  if 2 ^ 32 - 1 < result.length then .error (.thrown .invalidSize "size of row too large")
  else .ok result

/-- The loop of `from_binary()` on a blob with the current version of the schema, which an identifier
of 0 ends. -/
def fromCurrent (t : Table) : ℕ → Cells F → Bytes → Except Failure (Cells F)
  | 0, _, _ => .error .undefinedBehavior
  | fuel + 1, cells, rest =>
    if 2 ≤ rest.length then do
      let (columnId, rest) ← readBe 2 rest
      if columnId = 0 then .ok cells
      else
        let c ← getCell fmt t cells (UInt16.ofNat columnId)
        let (c, rest) ← c.valueFromBinary fmt rest
        fromCurrent t fuel (put c cells) rest
    else .ok cells

/-- The loop of `from_binary()` on a blob with another version of the schema.  The cell it copies the
value to is the one with the identifier the column had. -/
def fromVersion (t : Table) (version : UInt32) : ℕ → Cells F → Bytes → Except Failure (Cells F)
  | 0, _, _ => .error .undefinedBehavior
  | fuel + 1, cells, rest =>
    if rest ≠ [] then do
      let (columnId, rest) ← readBe 2 rest
      match ← t.getColumn (UInt16.ofNat columnId) version with
      | none =>
        .error (.thrown .columnNotFound
          ("column with identifier " ++ toString columnId ++ " does not exist in \""
            ++ textOf t.name ++ "\" schema version " ++ toString version.toNat
            ++ " (from_binary)."))
      | some existSchema =>
        let (c, rest) ← (Cell.new fmt existSchema).valueFromBinary fmt rest
        match ← t.getColumnByName existSchema.name 0 with
        | some _ =>
          let cell ← getCell fmt t cells (UInt16.ofNat columnId)
          let cell ← cell.copyFrom fmt lib c
          fromVersion t version fuel (put cell cells) rest
        | none => fromVersion t version fuel cells rest
    else .ok cells

/-- `from_binary()` of a new row.  Each turn of the loops reads an identifier, so the length of the
blob is enough of them. -/
def fromBinary (t : Table) (blob : Bytes) : Except Failure (Cells F) := do
  let (version, rest) ← readBe 4 blob
  if UInt32.ofNat version ≠ t.getSchemaVersion then
    fromVersion fmt lib t (UInt32.ofNat version) (blob.length + 1) [] rest
  else fromCurrent fmt t (blob.length + 1) [] rest

end Row

end Prinbee
