import Prinbee.Data.StructureSafety

/-!
# Changing structures

The calls of `structure.cpp` that give a structure its first buffer, and those that change the
size of what it holds: strings, buffers and the items of arrays.  The objects under a structure keep
the offsets of their bytes, and `adjust_offsets()` moves those after the change.

`init_buffer()` parses the descriptions before there is a buffer: the structures under the root are
given the null pointer, and keep it.  `new_array_item()` does the same with the structures under
the item, and sets the buffer of the item itself.

## Main definitions

* `Structure.getCurrentSize` — `get_current_size()`.
* `Structure.setString`, `Structure.getBuffer`, `Structure.setBuffer`.
* `Structure.setDefaults`, `Structure.initBuffer` — the first values of a structure.
* `Structure.getStructure`, `Structure.newArrayItem` — the structures under another one.
-/

namespace Prinbee

open Forest (Pos treePos)
open UInt512 (ofBytes toBytes)

namespace Structure

variable (v : VectorCapacity) (lib : Conversions)

/-- `get_current_size()`: the end of the fields if they start at an offset. -/
def getCurrentSize : Forest Cached → ℕ → ℕ
  | .nil, start => start
  | .node (.field info _ _ size) items next, start =>
    if info.type = .renamed then getCurrentSize next start
    else getCurrentSize next (getCurrentSize items (start + ownSize info size))
  | .node (.structure _ _) fields next, start =>
    getCurrentSize next (getCurrentSize fields start)

/-! ### Strings and buffers -/

/-- A difference of two numbers of 32 bits, as an `std::int32_t`. -/
def diff32 (a b : ℕ) : ℤ :=
  let d := sub32 a b
  if d < 2 ^ 31 then d else (d : ℤ) - 2 ^ 32

/-- `set_string()`. -/
def setString (s : Structure) (this : Pointer) (fieldName : List Char) (value : Bytes) :
    Outcome := do
  let f ← s.check (s.lookup this fieldName)
  let fieldSize := f.info.typeFieldSize
  match f.info.type with
  | .char =>
    if fieldSize < value.length then
      .error (.thrown .outOfRange
        ("the CHAR field is limited to " ++ toString fieldSize
          ++ " characters. The input string is " ++ toString value.length
          ++ " characters. It does not fit this field."), s)
    else do
      let s ← s.pwrite v value f.offset
      if value.length < fieldSize then
        s.pwrite v (List.replicate (fieldSize - value.length) 0) (f.offset + value.length)
      else .ok s
  | .p8string | .p16string | .p32string => do
    let bytes ← s.check (s.pread fieldSize f.offset)
    let length := ofBytes bytes
    if length ≠ f.size then .error (differentSize f fieldName length, s)
    else
      let size := value.length % 2 ^ 32
      let maxSize := 2 ^ (fieldSize * 8)
      if maxSize ≤ size then
        .error (.thrown .outOfRange
          ("the input string is too large for this string field (" ++ toString size ++ " >= "
            ++ toString maxSize ++ ")."), s)
      else do
        let s ←
          if size = length then s.pwrite v (value.take size) (f.offset + fieldSize)
          else if length < size then do
            let s ← s.pwrite v (toBytes fieldSize size) f.offset
            let s ← s.pwrite v (value.take length) (f.offset + fieldSize)
            s.pinsert v ((value.drop length).take (size - length)) (f.offset + fieldSize + length)
          else do
            let s ← s.pwrite v (toBytes fieldSize size) f.offset
            let s ← s.pwrite v (value.take size) (f.offset + fieldSize)
            let (s, _) ← s.perase (length - size) (f.offset + fieldSize + size)
            .ok s
        .ok ((s.setSize f.pos size).adjustOffsets f.offset (diff32 size length))
  | t => .error (unexpectedFieldType fieldName t [.char, .p8string, .p16string, .p32string], s)

/-- `get_buffer()`. -/
def getBuffer (s : Structure) (this : Pointer) (fieldName : List Char) : Except Failure Bytes := do
  let f ← s.lookup this fieldName
  match f.info.type with
  | .buffer8 | .buffer16 | .buffer32 => do
    let fieldSize := f.info.typeFieldSize
    let bytes ← s.pread fieldSize f.offset
    if ofBytes bytes ≠ f.size then
      .error (.thrown .corruptedData
        ("the existing buffer size (" ++ toString (ofBytes bytes) ++ ") and field size ("
          ++ toString f.size ++ ") do not match."))
    else s.pread (ofBytes bytes) (f.offset + fieldSize)
  | t => .error (unexpectedType' t [.buffer8, .buffer16, .buffer32])

/-- `set_buffer()`. -/
def setBuffer (s : Structure) (this : Pointer) (fieldName : List Char) (value : Bytes) :
    Outcome := do
  let f ← s.check (s.lookup this fieldName)
  match f.info.type with
  | .buffer8 | .buffer16 | .buffer32 => do
    let fieldSize := f.info.typeFieldSize
    let max := 2 ^ (fieldSize * 8)
    let size := value.length
    if max ≤ size then
      .error (.thrown .outOfRange
        ("size of input buffer (" ++ toString size
          ++ ") too large to send it to the buffer; the maximum permitted by this field is "
          ++ toString (max - 1) ++ "."), s)
    else if size < f.size then do
      let (s, _) ← s.perase (f.size - size) (f.offset + fieldSize + size)
      let s ← s.pwrite v (toBytes fieldSize size) f.offset
      let s ← s.pwrite v value (f.offset + fieldSize)
      .ok ((s.setSize f.pos size).adjustOffsets f.offset ((size : ℤ) - f.size))
    else if f.size < size then do
      let s ← s.pwrite v (toBytes fieldSize size) f.offset
      let s ← s.pwrite v (value.take f.size) (f.offset + fieldSize)
      let s ← s.pinsert v (value.drop f.size) (f.offset + fieldSize + f.size)
      .ok ((s.setSize f.pos size).adjustOffsets f.offset ((size : ℤ) - f.size))
    else s.pwrite v value (f.offset + fieldSize)
  | t => .error (unexpectedType' t [.buffer8, .buffer16, .buffer32], s)

/-! ### Floating points -/

/-- `get_field()` with a type. -/
def lookupTyped (s : Structure) (this : Pointer) (fieldName : List Char) (type : StructType) :
    Except Failure Field := do
  let f ← s.lookup this fieldName
  if f.info.type ≠ type then
    .error (.thrown .typeMismatch
      ("type of field \"" ++ String.ofList fieldName ++ "\" is \"" ++ f.info.type.name
        ++ "\" but we expected \"" ++ type.name ++ "\"."))
  else .ok f

/-- `get_float32()`, `get_float64()` and `get_float128()`, as the bytes in memory. -/
def getFloat (type : StructType) (s : Structure) (this : Pointer) (fieldName : List Char) :
    Except Failure Bytes := do
  let f ← s.lookupTyped this fieldName type
  verifySize type f.size
  s.pread type.tableSize.toNat f.offset

/-- `set_float32()`, `set_float64()` and `set_float128()`, with the bytes in memory. -/
def setFloat (type : StructType) (s : Structure) (this : Pointer) (fieldName : List Char)
    (value : Bytes) : Outcome := do
  let f ← s.check (s.lookupTyped this fieldName type)
  s.check (verifySize type f.size)
  s.pwrite v (value.take type.tableSize.toNat) f.offset

/-! ### The first values -/

/-- `find_field()` of the structure a pointer leads to. -/
def findIn (s : Structure) (this : Pointer) (fieldName : List Char) : Except Failure Field := do
  let (_, pos, fields) ← s.deref this
  let i ← findField fields fieldName
  s.fieldAt (pos ++ treePos i)

/-- `version_t::to_string()`. -/
def versionText (version : ℕ × ℕ) : Bytes :=
  decimalText version.1 ++ 46 :: decimalText version.2

/-- The loop of `set_defaults()`, for one field. -/
def setDefault (s : Structure) (this : Pointer) (info : FieldInfo) : Outcome :=
  match info.defaultValue with
  | none =>
    if info.type = .structureVersion then do
      let f ← s.check (s.findIn this info.fieldName)
      let value ← s.check
        (stringToTypedBuffer lib .structureVersion (versionText info.minVersion) 0)
      s.pwrite v value f.offset
    else .ok s
  | some defaultValue => do
    let f ← s.check (s.findIn this (info.fieldName.takeWhile (· ≠ '=')))
    match info.type with
    | .char => do
      let value ← s.check
        (stringToTypedBuffer lib info.type defaultValue f.info.typeFieldSize)
      s.pwrite v value f.offset
    | .p8string | .p16string | .p32string => s.setString v this info.fieldName defaultValue
    | _ => do
      let value ← s.check (stringToTypedBuffer lib info.type defaultValue 0)
      s.pwrite v value f.offset

/-- `set_defaults()` of the structure a pointer leads to, with its description. -/
def setDefaults (s : Structure) (this : Pointer) : Description → Outcome
  | .field info _ next => do
    let s ← s.setDefault v lib this info
    setDefaults s this next
  | _ => .ok s

/-- A buffer without bytes. -/
def emptyBuffer : VirtualBuffer := { blocks := fun _ => [] }

/-- `init_buffer()` of a structure that was not parsed before. -/
def initBuffer (s : Structure) : Outcome := do
  let (fields, size) ← s.check (parse none s.description 0)
  let s := { s with buffer := some emptyBuffer, fields := fields }
  let (s, _) ← s.withBuffer (emptyBuffer.pwrite v (List.replicate size 0) 0 true)
  s.setDefaults v lib none s.description

/-! ### Structures under another one -/

/-- `get_structure()`. -/
def getStructure (s : Structure) (this : Pointer) (fieldName : List Char) : Except Failure Pos := do
  let f ← s.lookupTyped this fieldName .structure
  if f.items.roots ≠ 1 then
    .error (.thrown .invalidSize
      ("a structure requires a sub_structure vector of size 1 (got " ++ toString f.items.roots
        ++ " instead)."))
  else .ok (f.pos ++ [.down])

/-- `push_back()` of a structure on those of the field at a position. -/
def addItem (s : Structure) (p : Pos) (offset : ℕ) (fields : Forest Cached) : Structure :=
  { s with
    fields := s.fields.modify
      (fun a items => (a, items.append (.node (.structure offset true) fields .nil))) p }

/-- Where `new_array_item()` puts an item: before the next field of the structure, or at the size
of the structure the call is made on. -/
def newItemOffset (s : Structure) (fields : Forest Cached) (f : Field) : ℕ :=
  match s.fields.get? (f.pos ++ [.next]) with
  | some (.field _ _ offset _, _) => offset
  | _ => getCurrentSize fields 0

/-- `new_array_item()`, with a pointer to the new structure. -/
def newArrayItem (s : Structure) (this : Pointer) (fieldName : List Char) :
    Except (Failure × Structure) (Structure × Pos) := do
  let f ← s.check (s.lookup this fieldName)
  match f.info.type with
  | .array8 | .array16 | .array32 => do
    let fieldSize := f.info.typeFieldSize
    let bytes ← s.check (s.pread fieldSize f.offset)
    let size := ofBytes bytes + 1
    let max := 2 ^ (fieldSize * 8)
    if max ≤ size then
      .error (.thrown .outOfRange
        ("the new_array_item() function cannot be used because the array is already full with "
          ++ toString max ++ " items."), s)
    else do
      let (_, _, own) ← s.check (s.deref this)
      let offset := s.newItemOffset own f
      -- there is no buffer yet in the structure that is parsed
      let (fields, newOffset) ← s.check (parse none f.sub offset)
      let s ← s.pinsert v (List.replicate (getCurrentSize fields 0) 0) offset
      let s ← s.pwrite v (toBytes fieldSize size) f.offset
      let s := s.adjustOffsets (sub64 offset 1) ((newOffset : ℤ) - offset)
      let s := s.addItem f.pos offset fields
      let item := f.pos ++ .down :: treePos f.items.roots
      let s ← s.setDefaults v lib (some item) f.sub
      .ok (s, item)
  | t => .error (unexpectedType' t [.array8, .array16, .array32], s)

end Structure

end Prinbee
