import Prinbee.Data.Structure

/-!
# The calls a table makes on its blocks

Every access to a block of a table goes through `table_impl::get_block()`, which reads the block's
magic word with a structure of its own, and every new block through
`block::set_structure_version()`.  Whether these calls return depends on the descriptions of the
structures and not on the table, so the table is modelled over their outcome.

At this revision none of them returns: the description of the header does not start the way the
constructor of a structure asks, and `set_uinteger()` does not accept the version of a structure.
The header of a table has no `block_size` and no `file_version` either.

## Main definitions

* `BlockCalls` — the outcome of the calls.
* `BlockCalls.code` — the outcome the code has.
-/

namespace Prinbee

/-- `NULL_FILE_ADDR`. -/
def nullFileAddr : ℕ := 0

/-- `MISSING_FILE_ADDR`. -/
def missingFileAddr : ℕ := 1

/-- Whether the calls return. -/
structure BlockCalls where
  getBlock : Except Failure Unit := .ok ()
  setStructureVersion : Except Failure Unit := .ok ()
  setBlockSize : Except Failure Unit := .ok ()
  setFileVersion : Except Failure Unit := .ok ()

namespace BlockCalls

/-- Every call returns. -/
structure Return (calls : BlockCalls) : Prop where
  getBlock : calls.getBlock = .ok ()
  setStructureVersion : calls.setStructureVersion = .ok ()
  setBlockSize : calls.setBlockSize = .ok ()
  setFileVersion : calls.setFileVersion = .ok ()

/-- `g_block_header`. -/
def blockHeader : Description :=
  .field { fieldName := ['m', 'a', 'g', 'i', 'c'], type := .uint32 } .null
    (.field { fieldName := ['v', 'e', 'r', 's', 'i', 'o', 'n'], type := .version } .null .end)

/-- `g_system_field_name_magic`. -/
def systemFieldNameMagic : List Char := ['_', 'm', 'a', 'g', 'i', 'c']

/-- `g_system_field_name_structure_version`. -/
def systemFieldNameStructureVersion : List Char :=
  ['_', 's', 't', 'r', 'u', 'c', 't', 'u', 'r', 'e', '_', 'v', 'e', 'r', 's', 'i', 'o', 'n']

/-- What the description of every block starts with, and other fields after it. -/
def blockDescription (rest : Description) : Description :=
  .field { fieldName := systemFieldNameMagic, type := .magic } .null
    (.field { fieldName := systemFieldNameStructureVersion, type := .structureVersion
              minVersion := (0, 1) } .null rest)

/-- A structure over a page of zeroes. -/
def zeroPage (size : ℕ) : VirtualBuffer :=
  { blocks := fun _ => [], totalSize := size
    buffers := [{ data := List.replicate size 0, capacity := size, size := size }] }

/-- A call on a block whose structure has these fields after the first two. -/
def onBlock (rest : Description) (f : Structure → Structure.Outcome) : Except Failure Unit := do
  let s ← Structure.create (blockDescription rest) true
  let s ← s.setVirtualBuffer (zeroPage 8)
  match f s with
  | .ok _ => .ok ()
  | .error (e, _) => .error e

/-- `block_size`. -/
def blockSizeName : List Char := ['b', 'l', 'o', 'c', 'k', '_', 's', 'i', 'z', 'e']

/-- `file_version`. -/
def fileVersionName : List Char :=
  ['f', 'i', 'l', 'e', '_', 'v', 'e', 'r', 's', 'i', 'o', 'n']

/-- What the calls do.  Of the header of a table only the fields the three calls can find matter:
it has neither a `block_size` nor a `file_version`. -/
def code : BlockCalls where
  getBlock := (Structure.create blockHeader true).map fun _ => ()
  setStructureVersion := onBlock .end fun s =>
    s.setVersion .libstdcxx none systemFieldNameStructureVersion (0, 0)
  setBlockSize := onBlock .end fun s => s.setUinteger .libstdcxx none blockSizeName 4096
  setFileVersion := onBlock .end fun s => s.setUinteger .libstdcxx none fileVersionName 1

theorem code_getBlock : code.getBlock = .error (.thrown .logicError
    ("the root description of a structure must start with a magic field"
      ++ " followed by a structure version.")) := rfl

theorem code_setStructureVersion : code.setStructureVersion = .error
    (Structure.unexpectedFieldType systemFieldNameStructureVersion .structureVersion
      Structure.setUintegerTypes) := rfl

end BlockCalls

end Prinbee
