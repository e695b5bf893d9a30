import Prinbee.Data.Structure

/-!
# Cells

`cell.cpp`: the value of a column in a row, as one of a number of 512 bits, a floating point or a
string, and its binary format.  Numbers are saved with their most significant byte first, in as many
bytes as the type of the column has, and read back over the eight words.

A buffer that is read is given by the bytes that are left of it; reading past its end is undefined.
A `long double` belongs to the machine: `FloatFormat` gives its conversions.

## Main definitions

* `Cell` — `cell`, with the column of the schema it is for.
* `Cell.Setter` — the calls that give a cell its value.
* `Cell.valueToBinary`, `Cell.valueFromBinary` — the binary format of a value.
* `Cell.copyFrom` — the copy of a value to another column, through its text when the types differ.
-/

namespace Prinbee

open UInt512 (ofBytes toBytes)

/-- The eight words of a number, the least significant one first. -/
def UInt512.ofWords (words : List ℕ) : UInt512 where
  limbs := (words.takeD 8 0).map (· % 2 ^ 64)
  fits := ⟨by rw [List.length_map, List.takeD_length], fun x hx => by
    obtain ⟨y, -, rfl⟩ := List.mem_map.1 hx
    exact Nat.mod_lt y (by decide)⟩

/-- A `long double`: the conversions from and to `float` and `double`, given by their bits, and its
two words in memory.  A narrower number is widened exactly. -/
structure FloatFormat (F : Type) where
  zero : F
  ofFloat : UInt32 → F
  toFloat : F → UInt32
  ofDouble : UInt64 → F
  toDouble : F → UInt64
  ofWords : UInt64 × UInt64 → F
  words : F → UInt64 × UInt64
  ofFloat_zero : ofFloat 0 = zero
  ofFloat_toFloat : ∀ bits, ofFloat (toFloat (ofFloat bits)) = ofFloat bits
  ofDouble_zero : ofDouble 0 = zero
  ofDouble_toDouble : ∀ bits, ofDouble (toDouble (ofDouble bits)) = ofDouble bits
  ofWords_words : ∀ x, ofWords (words x) = x

/-- `schema_column`, as its cells use it. -/
structure SchemaColumn where
  name : Bytes
  columnId : UInt16
  type : StructType
  minimumLength : UInt32
  deriving DecidableEq

/-- `cell`. -/
structure Cell (F : Type) where
  schemaColumn : SchemaColumn
  integer : UInt512
  floatValue : F
  string : Bytes

/-! ### Buffers -/

/-- `push_uint8()`, `push_be_uint16()`, `push_be_uint32()` and `push_be_uint64()`. -/
def pushBe (bytes value : ℕ) : Bytes := (toBytes bytes value).reverse

/-- `read_uint8()`, `read_be_uint16()`, `read_be_uint32()` and `read_be_uint64()`. -/
def readBe (bytes : ℕ) (rest : Bytes) : Except Failure (ℕ × Bytes) :=
  if bytes ≤ rest.length then .ok (ofBytes (rest.take bytes).reverse, rest.drop bytes)
  else .error .undefinedBehavior

/-- The low words of a number, the most significant one first. -/
def pushWords (count : ℕ) (value : UInt512) : Bytes :=
  (value.limbs.take count).reverse.flatMap (pushBe 8)

/-- As many words, the least significant one first in the result. -/
def readWords : ℕ → Bytes → Except Failure (List ℕ × Bytes)
  | 0, rest => .ok ([], rest)
  | count + 1, rest => do
    let (word, rest) ← readBe 8 rest
    let (words, rest) ← readWords count rest
    .ok (words ++ [word], rest)

/-- Characters that are copied out of the buffer. -/
def readString (size : ℕ) (rest : Bytes) : Except Failure (Bytes × Bytes) :=
  if size ≤ rest.length then .ok (rest.take size, rest.drop size) else .error .undefinedBehavior

/-- A number of some bits, cast to a signed type. -/
def signedCast (bits value : ℕ) : ℤ := if value < 2 ^ (bits - 1) then value else value - 2 ^ bits

/-- The low words of a number, and one that fills the others. -/
def extendWords (words : List ℕ) (fill : ℕ) : UInt512 :=
  UInt512.ofWords (words ++ List.replicate (8 - words.length) fill)

/-- The low words of a number, with the sign of the last one in the others. -/
def extendSign (words : List ℕ) : UInt512 :=
  extendWords words (if 2 ^ 63 ≤ words.getLastD 0 then 2 ^ 64 - 1 else 0)

namespace Cell

variable {F : Type} (fmt : FloatFormat F)

/-- A new cell. -/
def new (column : SchemaColumn) : Cell F := ⟨column, UInt512.zero, fmt.zero, []⟩

/-! ### Setters -/

/-- `set_integer()`. -/
def setInteger (c : Cell F) (value : ℤ) : Cell F :=
  { c with integer := extendWords [(value % 2 ^ 64).toNat] (if value < 0 then 2 ^ 64 - 1 else 0) }

/-- `set_uinteger()`. -/
def setUinteger (c : Cell F) (value : ℕ) : Cell F :=
  { c with integer := extendWords [value] 0 }

/-- `verify_cell_type()` before a change of the cell. -/
def verifyCellType (c : Cell F) (expected : List StructType) (changed : Cell F) :
    Except Failure (Cell F) :=
  if c.schemaColumn.type ∈ expected then .ok changed
  else
    .error (.thrown .typeMismatch
      ("the call you made to this cell expected "
        ++ " or ".intercalate (expected.map StructType.name) ++ " type"
        ++ (if expected.length = 1 then "" else "s")
        ++ ", but the schema says this cell is of type " ++ c.schemaColumn.type.name ++ "."))

/-- A call of one of the setters, with its parameter: floating points are given by their bits. -/
inductive Setter (F : Type)
  | void
  | oid (oid : UInt64)
  | int8 (value : Int8)
  | uint8 (value : UInt8)
  | int16 (value : Int16)
  | uint16 (value : UInt16)
  | int32 (value : Int32)
  | uint32 (value : UInt32)
  | int64 (value : Int64)
  | uint64 (value : UInt64)
  | int128 (value : Int512)
  | uint128 (value : UInt512)
  | int256 (value : Int512)
  | uint256 (value : UInt512)
  | int512 (value : Int512)
  | uint512 (value : UInt512)
  | time (t : UInt64)
  | timeMs (t : UInt64)
  | timeUs (t : UInt64)
  | timeUsTimespec (tvSec tvNsec : Int64)
  | float32 (bits : UInt32)
  | float64 (bits : UInt64)
  | float128 (value : F)
  | version (major minor : UInt16)
  | string (value : Bytes)

/-- The setters. -/
def set (c : Cell F) : Setter F → Except Failure (Cell F)
  | .void => c.verifyCellType [.void] c
  | .oid oid => c.verifyCellType [.oid] (c.setUinteger oid.toNat)
  | .int8 value => c.verifyCellType [.int8] (c.setInteger value.toInt)
  | .uint8 value => c.verifyCellType [.bits8, .uint8] (c.setUinteger value.toNat)
  | .int16 value => c.verifyCellType [.int16] (c.setInteger value.toInt)
  | .uint16 value => c.verifyCellType [.bits16, .uint16] (c.setUinteger value.toNat)
  | .int32 value => c.verifyCellType [.int32] (c.setInteger value.toInt)
  | .uint32 value => c.verifyCellType [.bits32, .uint32] (c.setUinteger value.toNat)
  | .int64 value => c.verifyCellType [.int64] (c.setInteger value.toInt)
  | .uint64 value => c.verifyCellType [.bits64, .uint64] (c.setUinteger value.toNat)
  | .int128 value => c.verifyCellType [.int128] { c with integer := value.words }
  | .uint128 value => c.verifyCellType [.uint128] { c with integer := value }
  | .int256 value => c.verifyCellType [.int256] { c with integer := value.words }
  | .uint256 value => c.verifyCellType [.uint256] { c with integer := value }
  | .int512 value => c.verifyCellType [.int512] { c with integer := value.words }
  | .uint512 value => c.verifyCellType [.uint512] { c with integer := value }
  | .time t => c.verifyCellType [.time] (c.setUinteger t.toNat)
  | .timeMs t => c.verifyCellType [.mstime] (c.setUinteger t.toNat)
  | .timeUs t => c.verifyCellType [.ustime] (c.setUinteger t.toNat)
  | .timeUsTimespec tvSec tvNsec =>
    -- a sum that is not a number of 64 bits is undefined, and wraps here
    c.verifyCellType [.ustime] (c.setUinteger
      ((tvSec.toInt * 1000000 + tvNsec.toInt.tdiv 1000) % 2 ^ 64).toNat)
  | .float32 bits => c.verifyCellType [.float32] { c with floatValue := fmt.ofFloat bits }
  | .float64 bits => c.verifyCellType [.float64] { c with floatValue := fmt.ofDouble bits }
  | .float128 value => c.verifyCellType [.float128] { c with floatValue := value }
  | .version major minor =>
    c.verifyCellType [.version] (c.setUinteger (major.toNat <<< 16 + minor.toNat))
  | .string value =>
    c.verifyCellType [.p8string, .p16string, .p32string] { c with string := value }

/-- A cell of a column whose value was set through the setters. -/
inductive IsSet (column : SchemaColumn) : Cell F → Prop
  | new : IsSet column (new fmt column)
  | set {c c' : Cell F} (setter : Setter F) (h : IsSet column c)
    (hset : c.set fmt setter = .ok c') : IsSet column c'

/-! ### The binary format -/

/-- The error of a type that a cell cannot have. -/
def unexpectedType (type : StructType) (message : String) : Failure :=
  .thrown .typeMismatch ("unexpected type (" ++ toString type.ctorIdx ++ ") to convert a cell to "
    ++ message ++ ".")

/-- The value of a `CHAR`, whose size is fixed. -/
def charToBinary (size : ℕ) (string : Bytes) : Bytes :=
  if 0 < size then string ++ List.replicate (size - string.length) 0 else []

/-- The value of a string with its size before it. -/
def pstringToBinary (bytes : ℕ) (type max : String) (string : Bytes) : Except Failure Bytes :=
  if 2 ^ (bytes * 8) - 1 < string.length then
    .error (.thrown .outOfBounds ("string to long for a " ++ type ++ " (max: " ++ max
      ++ ", actually: " ++ toString string.length ++ ")."))
  else .ok (pushBe bytes string.length ++ string)

/-- `value_to_binary()`. -/
def valueToBinary (c : Cell F) : Except Failure Bytes :=
  match c.schemaColumn.type with
  | .void => .ok []
  | .bits8 | .uint8 | .int8 => .ok (pushBe 1 c.integer.low)
  | .bits16 | .uint16 | .int16 => .ok (pushBe 2 c.integer.low)
  | .bits32 | .uint32 | .version | .int32 => .ok (pushBe 4 c.integer.low)
  | .bits64 | .uint64 | .reference | .oid | .time | .mstime | .ustime | .int64 =>
    .ok (pushBe 8 c.integer.low)
  | .bits128 | .nstime | .uint128 | .int128 => .ok (pushWords 2 c.integer)
  | .bits256 | .uint256 | .int256 => .ok (pushWords 4 c.integer)
  | .bits512 | .uint512 | .int512 => .ok (pushWords 8 c.integer)
  | .float32 => .ok (pushBe 4 (fmt.toFloat c.floatValue).toNat)
  | .float64 => .ok (pushBe 8 (fmt.toDouble c.floatValue).toNat)
  | .float128 =>
    .ok (pushBe 8 (fmt.words c.floatValue).2.toNat ++ pushBe 8 (fmt.words c.floatValue).1.toNat)
  | .char => .ok (charToBinary c.schemaColumn.minimumLength.toNat c.string)
  | .p8string => pstringToBinary 1 "P8STRING" "255" c.string
  | .p16string => pstringToBinary 2 "P16STRING" "64Kb" c.string
  | .p32string => pstringToBinary 4 "P32STRING" "4Gb" c.string
  | .magic | .structureVersion | .structure | .union | .array8 | .array16 | .array32
  | .unionArray8 | .unionArray16 | .unionArray32 | .buffer8 | .buffer16 | .buffer32 | .end
  | .renamed => .error (unexpectedType c.schemaColumn.type "binary")

/-- A string with its size before it. -/
def pstringFromBinary (bytes : ℕ) (c : Cell F) (rest : Bytes) : Except Failure (Cell F × Bytes) := do
  let (size, rest) ← readBe bytes rest
  let (string, rest) ← readString size rest
  .ok ({ c with string := string }, rest)

/-- `value_from_binary()`. -/
def valueFromBinary (c : Cell F) (rest : Bytes) : Except Failure (Cell F × Bytes) :=
  match c.schemaColumn.type with
  | .void => .ok (c, rest)
  | .bits8 | .uint8 => do
    let (value, rest) ← readBe 1 rest
    .ok (c.setUinteger value, rest)
  | .int8 => do
    let (value, rest) ← readBe 1 rest
    .ok (c.setInteger (signedCast 8 value), rest)
  | .bits16 | .uint16 => do
    let (value, rest) ← readBe 2 rest
    .ok (c.setInteger value, rest)
  | .int16 => do
    let (value, rest) ← readBe 2 rest
    .ok (c.setInteger (signedCast 16 value), rest)
  | .bits32 | .uint32 | .version => do
    let (value, rest) ← readBe 4 rest
    .ok (c.setInteger value, rest)
  | .int32 => do
    let (value, rest) ← readBe 4 rest
    .ok (c.setInteger (signedCast 32 value), rest)
  | .bits64 | .uint64 | .reference | .oid => do
    -- the parameter of `set_integer()` is signed
    let (value, rest) ← readBe 8 rest
    .ok (c.setInteger (signedCast 64 value), rest)
  | .time | .mstime | .ustime | .int64 => do
    let (value, rest) ← readBe 8 rest
    .ok (c.setInteger (signedCast 64 value), rest)
  | .bits128 | .uint128 => do
    let (words, rest) ← readWords 2 rest
    .ok ({ c with integer := extendWords words 0 }, rest)
  | .nstime | .int128 => do
    let (words, rest) ← readWords 2 rest
    .ok ({ c with integer := extendSign words }, rest)
  | .bits256 | .uint256 => do
    let (words, rest) ← readWords 4 rest
    .ok ({ c with integer := extendWords words 0 }, rest)
  | .int256 => do
    let (words, rest) ← readWords 4 rest
    .ok ({ c with integer := extendSign words }, rest)
  | .bits512 | .uint512 | .int512 => do
    let (words, rest) ← readWords 8 rest
    .ok ({ c with integer := UInt512.ofWords words }, rest)
  | .float32 => do
    let (bits, rest) ← readBe 4 rest
    .ok ({ c with floatValue := fmt.ofFloat (UInt32.ofNat bits) }, rest)
  | .float64 => do
    let (bits, rest) ← readBe 8 rest
    .ok ({ c with floatValue := fmt.ofDouble (UInt64.ofNat bits) }, rest)
  | .float128 => do
    let (high, rest) ← readBe 8 rest
    let (low, rest) ← readBe 8 rest
    .ok ({ c with floatValue := fmt.ofWords (UInt64.ofNat low, UInt64.ofNat high) }, rest)
  | .char => do
    let (string, rest) ← readString c.schemaColumn.minimumLength.toNat rest
    .ok ({ c with string := string.takeWhile (· ≠ 0) }, rest)
  | .p8string => pstringFromBinary 1 c rest
  | .p16string => pstringFromBinary 2 c rest
  | .p32string => pstringFromBinary 4 c rest
  | .magic | .structureVersion | .structure | .union | .array8 | .array16 | .array32
  | .unionArray8 | .unionArray16 | .unionArray32 | .buffer8 | .buffer16 | .buffer32 | .end
  | .renamed => .error (unexpectedType c.schemaColumn.type "binary")

/-! ### Copies -/

/-- Where a type keeps its value in a cell. -/
inductive Storage
  | void
  | unsigned
  | signed
  | float
  | string
  | none
  deriving DecidableEq

/-- The member of a cell that a type uses. -/
def storage : StructType → Storage
  | .void => .void
  | .bits8 | .bits16 | .bits32 | .bits64 | .bits128 | .bits256 | .bits512 | .uint8 | .uint16
  | .uint32 | .uint64 | .uint128 | .uint256 | .uint512 | .reference | .oid | .version => .unsigned
  | .int8 | .int16 | .int32 | .int64 | .int128 | .int256 | .int512 | .time | .mstime | .ustime
  | .nstime => .signed
  | .float32 | .float64 | .float128 => .float
  | .char | .p8string | .p16string | .p32string => .string
  | .magic | .structureVersion | .structure | .union | .array8 | .array16 | .array32
  | .unionArray8 | .unionArray16 | .unionArray32 | .buffer8 | .buffer16 | .buffer32 | .end
  | .renamed => .none

/-- `copy_from()` between columns of the same type. -/
def copySame (c source : Cell F) : Except Failure (Cell F) :=
  match storage source.schemaColumn.type with
  | .void => .ok c
  | .unsigned | .signed => .ok { c with integer := source.integer }
  | .float => .ok { c with floatValue := source.floatValue }
  | .string => .ok { c with string := source.string }
  | .none => .error (unexpectedType c.schemaColumn.type "another")

variable (lib : Conversions)

/-- The text of the value of `source`. -/
def copyText (c source : Cell F) : Except Failure Bytes :=
  match storage source.schemaColumn.type with
  | .void => .ok []
  | .unsigned | .signed => typedBufferToString lib source.schemaColumn.type source.integer.memory 16
  | .float =>
    typedBufferToString lib source.schemaColumn.type
      (toBytes 8 (fmt.words source.floatValue).1.toNat
        ++ toBytes 8 (fmt.words source.floatValue).2.toNat) 16
  | .string => .ok source.string
  | .none => .error (unexpectedType c.schemaColumn.type "another")

/-- The cell with the floating point that a text is, once it is in a buffer of a given size. -/
def setFloat (c : Cell F) (value : Bytes) (size : ℕ) (read : ℕ → F) : Except Failure (Cell F) := do
  let buf ← stringToTypedBuffer lib c.schemaColumn.type value 0
  if buf.length = size then .ok { c with floatValue := read (ofBytes buf) }
  else .error .undefinedBehavior

/-- `copy_from()`. -/
def copyFrom (c source : Cell F) : Except Failure (Cell F) := do
  if c.schemaColumn.type = source.schemaColumn.type then c.copySame source
  else
    let value ← c.copyText fmt lib source
    match storage c.schemaColumn.type with
    | .void => .ok c
    | .unsigned => do
      let buf ← stringToTypedBuffer lib .uint512 value 0
      .ok { c with integer := UInt512.ofMemory buf }
    | .signed => do
      let buf ← stringToTypedBuffer lib .int512 value 0
      .ok { c with integer := UInt512.ofMemory buf }
    | .float =>
      if c.schemaColumn.type = .float32 then
        c.setFloat lib value 4 fun n => fmt.ofFloat (UInt32.ofNat n)
      else if c.schemaColumn.type = .float64 then
        c.setFloat lib value 8 fun n => fmt.ofDouble (UInt64.ofNat n)
      else
        c.setFloat lib value 16 fun n =>
          fmt.ofWords (UInt64.ofNat (n % 2 ^ 64), UInt64.ofNat (n / 2 ^ 64))
    | .string => .ok { c with string := value }
    | .none => .error (unexpectedType c.schemaColumn.type "another")

end Cell

end Prinbee
