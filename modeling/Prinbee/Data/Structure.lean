import Prinbee.Data.Convert
import Prinbee.Data.VirtualBuffer
import Prinbee.Lib.Forest

/-!
# Structures

`structure.cpp`: a description says which fields a structure has, the values of the fields
are bytes of a virtual buffer, and a structure object caches where each field starts and how
large it is.  Fields of type structure and array hold more structures.

The objects are a forest: the fields of a structure, under a field the structures it holds,
under these their fields.  `structure::pointer_t` is a position in it.  All share one buffer; only
whether the pointer to it is set differs from object to object.  Offsets are natural numbers:
they stay far from `2 ^ 64`.  Unions are left out.

A call that throws may have changed the structure before: `Outcome` keeps the structure in both
cases.

## Main definitions

* `FieldInfo`, `Description` — `struct_description_t`, and the array of them that `END` closes.
* `Cached`, `Structure` — `field_t` and `structure`.
* `parse` — `parse_descriptions()`.
* `Structure.create`, `Structure.setVirtualBuffer` — a structure over a buffer.
* `Structure.getField`, and the getters and setters.
-/

namespace Prinbee

open Forest (Pos treePos)
open UInt512 (ofBytes toBytes)

/-! ### Types -/

namespace StructType

/-- `to_string()`. -/
def name : StructType → String
  | .end => "END"
  | .void => "VOID"
  | .bits8 => "BITS8"
  | .bits16 => "BITS16"
  | .bits32 => "BITS32"
  | .bits64 => "BITS64"
  | .bits128 => "BITS128"
  | .bits256 => "BITS256"
  | .bits512 => "BITS512"
  | .int8 => "INT8"
  | .uint8 => "UINT8"
  | .int16 => "INT16"
  | .uint16 => "UINT16"
  | .int32 => "INT32"
  | .uint32 => "UINT32"
  | .int64 => "INT64"
  | .uint64 => "UINT64"
  | .int128 => "INT128"
  | .uint128 => "UINT128"
  | .int256 => "INT256"
  | .uint256 => "UINT256"
  | .int512 => "INT512"
  | .uint512 => "UINT512"
  | .float32 => "FLOAT32"
  | .float64 => "FLOAT64"
  | .float128 => "FLOAT128"
  | .magic => "MAGIC"
  | .structureVersion => "STRUCTURE_VERSION"
  | .version => "VERSION"
  | .time => "TIME"
  | .mstime => "MSTIME"
  | .ustime => "USTIME"
  | .nstime => "NSTIME"
  | .char => "CHAR"
  | .p8string => "P8STRING"
  | .p16string => "P16STRING"
  | .p32string => "P32STRING"
  | .structure => "STRUCTURE"
  | .array8 => "ARRAY8"
  | .array16 => "ARRAY16"
  | .array32 => "ARRAY32"
  | .buffer8 => "BUFFER8"
  | .buffer16 => "BUFFER16"
  | .buffer32 => "BUFFER32"
  | .reference => "REFERENCE"
  | .oid => "OID"
  | .renamed => "RENAMED"
  -- the table of names has no unions
  | t => "*unknown struct type (" ++ toString t.ctorIdx ++ ")*"

/-- How the bytes of a field of a type are found. -/
inductive Shape
  | fixed (width : ℕ)
  | char
  | counted (k : ℕ)
  | structure : Shape
  | array (k : ℕ)
  | renamed
  | other
  deriving DecidableEq, Repr

/-- The cases of `parse_descriptions()`: the bytes of a fixed type, or the bytes of the size of
a string, a buffer or an array. -/
def shape : StructType → Shape
  | .void => .fixed 0
  | .bits8 | .int8 | .uint8 => .fixed 1
  | .bits16 | .int16 | .uint16 => .fixed 2
  | .bits32 | .int32 | .uint32 | .float32 | .magic | .structureVersion | .version => .fixed 4
  | .bits64 | .int64 | .uint64 | .float64 | .reference | .oid | .time | .mstime | .ustime =>
    .fixed 8
  | .bits128 | .int128 | .uint128 | .float128 | .nstime => .fixed 16
  | .bits256 | .int256 | .uint256 => .fixed 32
  | .bits512 | .int512 | .uint512 => .fixed 64
  | .char => .char
  | .p8string | .buffer8 => .counted 1
  | .p16string | .buffer16 => .counted 2
  | .p32string | .buffer32 => .counted 4
  | .structure => .structure
  | .array8 => .array 1
  | .array16 => .array 2
  | .array32 => .array 4
  | .renamed => .renamed
  | .end | .union | .unionArray8 | .unionArray16 | .unionArray32 => .other

/-- `f_size` of `g_struct_type_sizes`: `-1` is `INVALID_SIZE` and `-2` is `VARIABLE_SIZE`. -/
def tableSize (t : StructType) : ℤ :=
  match t with
  | .end | .char | .renamed => -1
  | .union | .unionArray8 | .unionArray16 | .unionArray32 => -2
  | _ =>
    match t.shape with
    | .fixed width => width
    | _ => -2

/-- `BITS8` to `BITS512`. -/
def isBits : StructType → Bool
  | .bits8 | .bits16 | .bits32 | .bits64 | .bits128 | .bits256 | .bits512 => true
  | _ => false

end StructType

open StructType (Shape)

/-- `struct_description_t`, but for the sub-description.  `charSize` and `flags` are what follows
the equal sign in the name of a `CHAR` or `BITS` field. -/
structure FieldInfo where
  fieldName : List Char
  type : StructType
  charSize : ℕ := 0
  flags : List (List Char) := []
  defaultValue : Option Bytes := none
  minVersion : ℕ × ℕ := (0, 0)
  deriving DecidableEq, Repr

namespace FieldInfo

/-- `field_name()`: the name, without what follows an equal sign. -/
def name (info : FieldInfo) : List Char :=
  if info.type.isBits ∨ info.type = .char then info.fieldName.takeWhile (· ≠ '=')
  else info.fieldName

/-- `type_field_size()`. -/
def typeFieldSize (info : FieldInfo) : ℕ :=
  match info.type.shape with
  | .char => info.charSize
  | .counted k | .array k => k
  | _ => 0

end FieldInfo

/-- An array of `struct_description_t` that `STRUCT_TYPE_END` closes, or the null pointer. -/
inductive Description
  | null
  | end
  | field (info : FieldInfo) (sub next : Description)
  deriving DecidableEq, Repr

/-- A node of the objects: `field_t`, or a `structure` that a field holds. -/
inductive Cached
  | field (info : FieldInfo) (sub : Description) (offset size : ℕ)
  | structure (startOffset : ℕ) (hasBuffer : Bool)
  deriving DecidableEq, Repr

/-- The root structure, with the buffer and all the objects under it. -/
structure Structure where
  description : Description
  buffer : Option VirtualBuffer := none
  fields : Forest Cached := .nil

/-! ### Parsing -/

/-- `f_buffer != nullptr && f_buffer->count_buffers() != 0`. -/
def hasData : Option VirtualBuffer → Bool
  | none => false
  | some vb => vb.buffers.length ≠ 0

/-- The size that `parse_descriptions()` reads, nothing without data. -/
def parseSize (buffer : Option VirtualBuffer) (k offset : ℕ) : Except Failure ℕ :=
  match buffer with
  | none => .ok 0
  | some vb =>
    if vb.buffers.length = 0 then .ok 0
    else do
      let bytes ← vb.pread k offset true
      .ok (ofBytes bytes)

/-- The size of a field, and the offset after its own bytes. -/
def parseExtent (buffer : Option VirtualBuffer) (info : FieldInfo) (offset : ℕ) :
    Except Failure (ℕ × ℕ) :=
  match info.type.shape with
  | .fixed width => .ok (width, offset + width)
  | .char =>
    if info.charSize = 0 ∨ 2 ^ 32 ≤ info.charSize then
      .error (.thrown .outOfRange
        ("the size in field \"" ++ String.ofList info.fieldName
          ++ "\" must be at least 1 and no more then 2^32 - 1."))
    else .ok (info.charSize, offset + info.charSize)
  | .counted k => do
    let size ← parseSize buffer k offset
    .ok (size, offset + size + k)
  | .structure => .ok (1, offset)
  | .array k => do
    let size ← parseSize buffer k offset
    .ok (size, offset + k)
  | .renamed => .ok (0, offset)
  | .other =>
    .error (.thrown .invalidSize "this field does not offer a size which can be queried.")

/-- The field has to end inside the buffer. -/
def parseBounds (buffer : Option VirtualBuffer) (info : FieldInfo) (offset : ℕ) :
    Except Failure Unit :=
  if hasData buffer ∧ (buffer.elim 0 VirtualBuffer.totalSize) < offset then
    .error (.thrown .corruptedData
      ("field \"" ++ String.ofList info.fieldName
        ++ "\" is too large for the specified data buffer."))
  else .ok ()

/-- `has_sub_defs`. -/
def hasSubDefs (t : StructType) : Bool :=
  match t.shape with
  | .structure | .array _ | .renamed => true
  | _ => false

/-- The loop over the structures a field holds. -/
def parseItems (hasBuffer : Bool) (parseOne : ℕ → Except Failure (Forest Cached × ℕ)) :
    ℕ → ℕ → Except Failure (Forest Cached × ℕ)
  | 0, offset => .ok (.nil, offset)
  | n + 1, offset => do
    let (fields, after) ← parseOne offset
    let (items, last) ← parseItems hasBuffer parseOne n after
    .ok (.node (.structure offset hasBuffer) fields items, last)

/-- A structure has a field of that name. -/
def hasName (name : List Char) : Forest Cached → Bool
  | .node (.field info _ _ _) _ next => info.name = name || hasName name next
  | .node _ _ next => hasName name next
  | .nil => false

/-- `parse_descriptions()`.  A field of the same name as an earlier one takes its place in
`f_fields_by_name`, and the earlier one is gone. -/
def parse (buffer : Option VirtualBuffer) :
    Description → ℕ → Except Failure (Forest Cached × ℕ)
  | .null, _ => .error .undefinedBehavior
  | .end, offset => .ok (.nil, offset)
  | .field info sub next, offset => do
    let (size, after) ← parseExtent buffer info offset
    parseBounds buffer info after
    let (items, after) ←
      match sub with
      | .null =>
        if hasSubDefs info.type then
          .error (.thrown .logicError
            ("field \"" ++ String.ofList info.fieldName ++ "\" is expected to have its"
              ++ " \"f_sub_description\" field set to a pointer but it is null right now."))
        else .ok (.nil, after)
      | sub =>
        if !hasSubDefs info.type then
          .error (.thrown .logicError
            ("field \"" ++ String.ofList info.fieldName ++ "\" has its \"f_sub_description\" field"
              ++ " set to a pointer when its type does not allow it."))
        else if info.type = .renamed then .ok (.nil, after)
        else parseItems buffer.isSome (fun o => parse buffer sub o) size after
    let (rest, last) ← parse buffer next after
    if hasName info.name rest then .ok (rest, last)
    else .ok (.node (.field info sub offset size) items rest, last)

namespace Structure

/-- The type of the first field. -/
def firstType : Description → StructType
  | .field info _ _ => info.type
  | _ => .end

/-- The type of the second field. -/
def secondType : Description → StructType
  | .field _ _ next => firstType next
  | _ => .end

/-- The constructor of a structure that has no parent. -/
def create (description : Description) (verifyStart : Bool) : Except Failure Structure :=
  if description = .null then
    .error (.thrown .logicError
      "the description parameter of a structure object cannot be null.")
  else if verifyStart ∧
      (firstType description ≠ .magic ∨ secondType description ≠ .structureVersion) then
    .error (.thrown .logicError
      ("the root description of a structure must start with a magic field"
        ++ " followed by a structure version."))
  else .ok { description := description }

/-- `set_virtual_buffer()` at offset 0, and the `parse()` that the first access makes. -/
def setVirtualBuffer (s : Structure) (buffer : VirtualBuffer) : Except Failure Structure := do
  let (fields, _) ← parse (some buffer) s.description 0
  .ok { s with buffer := some buffer, fields := fields }

/-! ### Calls that throw -/

/-- What a call leaves: the structure, also when it throws. -/
abbrev Outcome := Except (Failure × Structure) Structure

/-- A computation that does not change the structure. -/
def check {α : Type} (s : Structure) (x : Except Failure α) : Except (Failure × Structure) α :=
  x.mapError fun e => (e, s)

/-- The structure after a call, whether it threw or not. -/
def after : Outcome → Structure
  | .ok s => s
  | .error (_, s) => s

/-! ### The buffer -/

variable (v : VectorCapacity)

/-- `f_buffer->pread()`. -/
def pread (s : Structure) (size offset : ℕ) : Except Failure Bytes :=
  match s.buffer with
  | none => .error .undefinedBehavior
  | some vb => vb.pread size offset true

/-- Keep the buffer that a call made. -/
def withBuffer (s : Structure) : Except Failure (VirtualBuffer × ℤ) →
    Except (Failure × Structure) (Structure × ℤ)
  | .ok (vb, n) => .ok ({ s with buffer := some vb }, n)
  | .error e => .error (e, s)

/-- `f_buffer->pwrite()`. -/
def pwrite (s : Structure) (bytes : Bytes) (offset : ℕ) : Outcome :=
  match s.buffer with
  | none => .error (.undefinedBehavior, s)
  | some vb => (s.withBuffer (vb.pwrite v bytes offset false)).map Prod.fst

/-- `f_buffer->pinsert()`. -/
def pinsert (s : Structure) (bytes : Bytes) (offset : ℕ) : Outcome :=
  match s.buffer with
  | none => .error (.undefinedBehavior, s)
  | some vb => (s.withBuffer (vb.pinsert v bytes offset)).map Prod.fst

/-- `f_buffer->perase()`, with the number of bytes erased. -/
def perase (s : Structure) (size offset : ℕ) :
    Except (Failure × Structure) (Structure × ℤ) :=
  match s.buffer with
  | none => .error (.undefinedBehavior, s)
  | some vb => s.withBuffer (vb.perase size offset)

/-! ### Finding a field -/

/-- The number of the field of that name. -/
def fieldIndex (name : List Char) : Forest Cached → Option ℕ
  | .node (.field info _ _ _) _ next =>
    if info.name = name then some 0 else (fieldIndex name next).map (· + 1)
  | .node _ _ next => (fieldIndex name next).map (· + 1)
  | .nil => none

/-- `new_name()` of a field of type `RENAMED`. -/
def newName (info : FieldInfo) : Description → Except Failure (List Char)
  | .null =>
    .error (.thrown .logicError
      ("field \"" ++ String.ofList info.name ++ "\" is marked as having a new name (RENAMED) but"
        ++ " it has no f_sub_description to define the new name."))
  | .end =>
    .error (.thrown .logicError
      ("field \"" ++ String.ofList info.name ++ "\" is marked as having a new name (RENAMED) but"
        ++ " it has no entries in its f_sub_description defining the new name."))
  | .field renamed _ _ => .ok renamed.fieldName

/-- `find_field()`. -/
def findField (fields : Forest Cached) (name : List Char) : Except Failure ℕ :=
  match fieldIndex name fields with
  | none =>
    .error (.thrown .fieldNotFound
      ("this description does not include a field named \"" ++ String.ofList name ++ "\"."))
  | some i =>
    match fields.tree? i with
    | some (.field info sub _ _, _) =>
      if info.type = .renamed then do
        let new ← newName info sub
        match fieldIndex new fields with
        | none =>
          .error (.thrown .fieldNotFound
            ("this description renames field \"" ++ String.ofList name ++ "\" to \""
              ++ String.ofList new ++ "\" but we could not find the latter field."))
        | some j => .ok j
      else .ok i
    | _ => .error .undefinedBehavior

/-- The loop of `get_field()` over the characters of the name; `sub` are those since the last
period, backwards. -/
def getFieldLoop : Forest Cached → Pos → List Char → List Char → Except Failure Pos
  | fields, pos, sub, [] => do
    let i ← findField fields sub.reverse
    .ok (pos ++ treePos i)
  | fields, pos, sub, c :: n =>
    if c = '=' then do
      let i ← findField fields sub.reverse
      .ok (pos ++ treePos i)
    else if c = '.' then do
      let i ← findField fields sub.reverse
      match fields.tree? i with
      | some (.field info _ _ _, items) =>
        if info.type = .structure then
          match items.tree? 0 with
          | some (_, subFields) =>
            getFieldLoop subFields (pos ++ treePos i ++ [.down, .down]) [] n
          | none =>
            .error (.thrown .outOfBounds
              "index (0) is out of bounds since there are no sub-structures.")
        else if info.type.isBits then
          if n ∈ info.flags then .ok (pos ++ treePos i)
          else .error (.thrown .fieldNotFound ("flag named \"" ++ String.ofList n ++ "\" not found."))
        else
          .error (.thrown .typeMismatch
            ("field \"" ++ String.ofList sub.reverse ++ "\" is not of type structure, union, or bit"
              ++ " field so you can't get a sub-field (i.e. have a period in the name)."))
      | _ => .error .undefinedBehavior
    else getFieldLoop fields pos (c :: sub) n

/-- `structure::pointer_t`: the root, or the structure at a position. -/
abbrev Pointer := Option Pos

/-- The members of the structure a pointer leads to: whether `f_buffer` is set, and its fields
with their position. -/
def deref (s : Structure) : Pointer → Except Failure (Bool × Pos × Forest Cached)
  | none => .ok (s.buffer.isSome, [], s.fields)
  | some q =>
    match s.fields.get? q with
    | some (.structure _ hasBuffer, fields) => .ok (hasBuffer, q ++ [.down], fields)
    | _ => .error .undefinedBehavior

/-- `get_field()`. -/
def getField (s : Structure) (this : Pointer) (fieldName : List Char) : Except Failure Pos := do
  let (hasBuffer, pos, fields) ← s.deref this
  if !hasBuffer then
    .error (.thrown .logicError
      "trying to access a structure field when the f_buffer pointer is still null.")
  else if fieldName = [] then
    .error (.thrown .logicError "called structure::get_field() with an empty field name.")
  else getFieldLoop fields pos [] fieldName

/-- A field and where it is. -/
structure Field where
  pos : Pos
  info : FieldInfo
  sub : Description
  offset : ℕ
  size : ℕ
  items : Forest Cached

/-- The field at a position. -/
def fieldAt (s : Structure) (p : Pos) : Except Failure Field :=
  match s.fields.get? p with
  | some (.field info sub offset size, items) => .ok ⟨p, info, sub, offset, size, items⟩
  | _ => .error .undefinedBehavior

/-- `get_field()`, with the members of the field. -/
def lookup (s : Structure) (this : Pointer) (fieldName : List Char) : Except Failure Field := do
  let p ← s.getField this fieldName
  s.fieldAt p

/-- `verify_size()`. -/
def verifySize (t : StructType) (size : ℕ) : Except Failure Unit :=
  if t.tableSize ≠ size then
    .error (.thrown .outOfRange
      ("value (" ++ toString size ++ ") and type (" ++ t.name
        ++ ") sizes do not correspond (expected size: " ++ toString t.tableSize ++ ")."))
  else .ok ()

/-- The error of a field that is not of one of the types. -/
def unexpectedFieldType (fieldName : List Char) (t : StructType) (expected : List StructType) :
    Failure :=
  .thrown .typeMismatch
    ("type of field \"" ++ String.ofList fieldName ++ "\" is \"" ++ t.name
      ++ "\" but we expected one of \"" ++ ", ".intercalate (expected.map StructType.name) ++ "\".")

/-- The same error, from the functions that do not give the name. -/
def unexpectedType' (t : StructType) (expected : List StructType) : Failure :=
  .thrown .typeMismatch
    ("this field type is \"" ++ t.name ++ "\" but we expected one of \""
      ++ ", ".intercalate (expected.map StructType.name) ++ "\".")

/-- `adjust_offset()` on a field, and the same on the start of a structure. -/
def adjustOffset (cutoff : ℕ) (diff : ℤ) : Cached → Cached
  | .field info sub offset size =>
    .field info sub (if cutoff < offset then (offset + diff).toNat else offset) size
  | .structure startOffset hasBuffer =>
    .structure (if cutoff < startOffset then (startOffset + diff).toNat else startOffset) hasBuffer

/-- `adjust_offsets()`. -/
def adjustOffsets (s : Structure) (cutoff : ℕ) (diff : ℤ) : Structure :=
  if diff = 0 then s else { s with fields := s.fields.map (adjustOffset cutoff diff) }

/-- `set_size()` on the field at a position. -/
def setSize (s : Structure) (p : Pos) (size : ℕ) : Structure :=
  { s with
    fields := s.fields.modify
      (fun a items => match a with
        | .field info sub offset _ => (.field info sub offset size, items)
        | a => (a, items)) p }

/-! ### Integers -/

/-- The number that bytes are in two's complement. -/
def signedOf (bytes : Bytes) : ℤ :=
  if 2 * ofBytes bytes < 256 ^ bytes.length then ofBytes bytes
  else (ofBytes bytes : ℤ) - 256 ^ bytes.length

/-- The bytes of a number in two's complement. -/
def signedBytes (k : ℕ) (value : ℤ) : Bytes := toBytes k (value % 256 ^ k).toNat

/-- The bytes of a number with its sign extended over the 64 bytes of an `int512_t`. -/
def signExtend (bytes : Bytes) : Bytes :=
  bytes ++ List.replicate (64 - bytes.length) (if 128 ≤ bytes.getLastD 0 then 255 else 0)

/-- The width of the variable in which `get_integer()` and `set_integer()` hold a value. -/
def integerWidth : StructType → Option ℕ
  | .int8 => some 1
  | .int16 => some 2
  | .int32 => some 4
  | .int64 | .time | .mstime | .ustime => some 8
  | _ => none

/-- The types in the error of `get_integer()` and `set_integer()`. -/
def integerTypes : List StructType := [.int8, .int16, .int32, .int64, .mstime, .time, .ustime]

/-- The width of the variable in which `get_uinteger()` holds a value. -/
def getUintegerWidth : StructType → Option ℕ
  | .bits8 | .uint8 => some 1
  | .bits16 | .uint16 => some 2
  | .bits32 | .uint32 | .magic | .version | .structureVersion => some 4
  | .bits64 | .uint64 | .reference | .oid => some 8
  | _ => none

/-- The types in the error of `get_uinteger()`. -/
def getUintegerTypes : List StructType :=
  [.bits8, .bits16, .bits32, .bits64, .magic, .oid, .reference, .structureVersion, .uint8, .uint16,
    .uint32, .uint64, .version]

/-- The width of the variable in which `set_uinteger()` holds a value.  A magic word and the
version of a structure cannot be changed. -/
def setUintegerWidth : StructType → Option ℕ
  | .bits8 | .uint8 => some 1
  | .bits16 | .uint16 => some 2
  | .bits32 | .uint32 | .version => some 4
  | .bits64 | .uint64 | .reference | .oid => some 8
  | _ => none

/-- The types in the error of `set_uinteger()`. -/
def setUintegerTypes : List StructType :=
  [.bits8, .bits16, .bits32, .bits64, .oid, .reference, .uint8, .uint16, .uint32, .uint64, .version]

/-- The types that `get_large_integer()` and `set_large_integer()` accept. -/
def isLargeInteger : StructType → Bool
  | .int8 | .int16 | .int32 | .int64 | .int128 | .int256 | .int512 | .mstime | .nstime | .time
  | .ustime => true
  | _ => false

/-- The types in the error of the two. -/
def largeIntegerTypes : List StructType :=
  [.int8, .int16, .int32, .int64, .int128, .int256, .int512, .mstime, .nstime, .time, .ustime]

/-- The types that `set_large_uinteger()` accepts. -/
def isSetLargeUinteger : StructType → Bool
  | .bits8 | .bits16 | .bits32 | .bits64 | .bits128 | .bits256 | .bits512 | .nstime | .oid
  | .reference | .uint8 | .uint16 | .uint32 | .uint64 | .uint128 | .uint256 | .uint512
  | .version => true
  | _ => false

/-- The types in the error of `set_large_uinteger()`. -/
def setLargeUintegerTypes : List StructType :=
  [.bits8, .bits16, .bits32, .bits64, .oid, .reference, .uint8, .uint16, .uint32, .uint64,
    .uint128, .uint256, .uint512, .version]

/-- The types that `get_large_uinteger()` accepts. -/
def isGetLargeUinteger : StructType → Bool
  | .magic | .structureVersion => true
  | t => isSetLargeUinteger t

/-- The types in the error of `get_large_uinteger()`. -/
def getLargeUintegerTypes : List StructType :=
  [.bits8, .bits16, .bits32, .bits64, .magic, .oid, .reference, .structureVersion, .uint8, .uint16,
    .uint32, .uint64, .uint128, .uint256, .uint512, .version]

/-- The bytes of a field that holds an integer in a variable of a given width. -/
def getNumber (width : StructType → Option ℕ) (expected : List StructType) (s : Structure)
    (this : Pointer) (fieldName : List Char) : Except Failure Bytes := do
  let f ← s.lookup this fieldName
  verifySize f.info.type f.size
  match width f.info.type with
  | some k => s.pread k f.offset
  | none => .error (unexpectedFieldType fieldName f.info.type expected)

/-- Write a field that holds an integer in a variable of a given width. -/
def setNumber (width : StructType → Option ℕ) (expected : List StructType) (bytes : ℕ → Bytes)
    (s : Structure) (this : Pointer) (fieldName : List Char) : Outcome := do
  let f ← s.check (s.lookup this fieldName)
  s.check (verifySize f.info.type f.size)
  match width f.info.type with
  | some k => s.pwrite v (bytes k) f.offset
  | none => .error (unexpectedFieldType fieldName f.info.type expected, s)

/-- `get_integer()`. -/
def getInteger (s : Structure) (this : Pointer) (fieldName : List Char) : Except Failure ℤ := do
  let bytes ← getNumber integerWidth integerTypes s this fieldName
  .ok (signedOf bytes)

/-- `set_integer()`. -/
def setInteger (s : Structure) (this : Pointer) (fieldName : List Char) (value : ℤ) : Outcome :=
  setNumber v integerWidth integerTypes (fun k => signedBytes k value) s this fieldName

/-- `get_uinteger()`. -/
def getUinteger (s : Structure) (this : Pointer) (fieldName : List Char) : Except Failure ℕ := do
  let bytes ← getNumber getUintegerWidth getUintegerTypes s this fieldName
  .ok (ofBytes bytes)

/-- `set_uinteger()`. -/
def setUinteger (s : Structure) (this : Pointer) (fieldName : List Char) (value : ℕ) : Outcome :=
  setNumber v setUintegerWidth setUintegerTypes (fun k => toBytes k value) s this fieldName

/-- `set_version()`, with `to_binary()` of the version. -/
def setVersion (s : Structure) (this : Pointer) (fieldName : List Char) (version : ℕ × ℕ) :
    Outcome :=
  s.setUinteger v this fieldName (version.1 * 2 ^ 16 + version.2)

/-- The size of the type, for the functions on large integers that use the size of the field:
`verify_size()` has compared the two. -/
def largeWidth (accepts : StructType → Bool) (t : StructType) : Option ℕ :=
  if accepts t then some t.tableSize.toNat else none

/-- `get_large_integer()`. -/
def getLargeInteger (s : Structure) (this : Pointer) (fieldName : List Char) :
    Except Failure Int512 := do
  let bytes ← getNumber (largeWidth isLargeInteger) largeIntegerTypes s this fieldName
  .ok ⟨UInt512.ofMemory (signExtend bytes)⟩

/-- `set_large_integer()`. -/
def setLargeInteger (s : Structure) (this : Pointer) (fieldName : List Char) (value : Int512) :
    Outcome :=
  setNumber v (largeWidth isLargeInteger) largeIntegerTypes (fun k => value.words.memory.take k) s
    this fieldName

/-- `get_large_uinteger()`. -/
def getLargeUinteger (s : Structure) (this : Pointer) (fieldName : List Char) :
    Except Failure UInt512 := do
  let bytes ← getNumber (largeWidth isGetLargeUinteger) getLargeUintegerTypes s this fieldName
  .ok (UInt512.ofMemory bytes)

/-- `set_large_uinteger()`. -/
def setLargeUinteger (s : Structure) (this : Pointer) (fieldName : List Char) (value : UInt512) :
    Outcome :=
  setNumber v (largeWidth isSetLargeUinteger) setLargeUintegerTypes
    (fun k => value.memory.take k) s this fieldName

/-! ### Strings and arrays -/

/-- The error of `get_string()` when the size in the file is not the one that was parsed. -/
def differentSize (f : Field) (fieldName : List Char) (length : ℕ) : Failure :=
  .thrown .corruptedData
    ("the size of string field \"" ++ String.ofList fieldName ++ "\" (" ++ toString f.size
      ++ ") is different from the size found in the file (" ++ toString length
      ++ " found at offset " ++ toString f.offset ++ " over "
      ++ toString f.info.typeFieldSize ++ " bytes).")

/-- `get_string()`. -/
def getString (s : Structure) (this : Pointer) (fieldName : List Char) : Except Failure Bytes := do
  let f ← s.lookup this fieldName
  match f.info.type with
  | .char => do
    let bytes ← s.pread f.info.typeFieldSize f.offset
    .ok (bytes.takeWhile (· ≠ 0))
  | .p8string | .p16string | .p32string => do
    let length ← s.pread f.info.typeFieldSize f.offset
    if ofBytes length ≠ f.size then .error (differentSize f fieldName (ofBytes length))
    else s.pread (ofBytes length) (f.offset + f.info.typeFieldSize)
  | t => .error (unexpectedFieldType fieldName t [.char, .p8string, .p16string, .p32string])

/-- `get_array()`: the structures of an array. -/
def getArray (s : Structure) (this : Pointer) (fieldName : List Char) :
    Except Failure (List Pos) := do
  let f ← s.lookup this fieldName
  match f.info.type with
  | .array8 | .array16 | .array32 =>
    .ok ((List.range f.items.roots).map fun i => f.pos ++ .down :: treePos i)
  | t => .error (unexpectedType' t [.array8, .array16, .array32])

end Structure

end Prinbee
