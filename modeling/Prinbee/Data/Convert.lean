import Prinbee.BigInt.Int512

/-!
# Text and typed buffers

`convert.cpp`: a value of a structure type, in binary in a buffer or as text for a person.  Texts
and buffers are both bytes.

The hexadecimal functions belong to a library, and the conversions of magic words, times and
floating points depend on it and on the C library: `Conversions` gives them.

## Main definitions

* `stringToInt` — the syntax of numbers, `string_to_int()` without a unit.
* `stringToUinteger`, `uintegerToString`, `stringToInteger`, `integerToString`,
  `stringToVersion`, `versionToString`, `charToBuffer`, `bufferToChar`, `stringToBuffer`,
  `bufferToString`, `stringToPbuffer`, `pbufferToString` — one pair for each kind of type.
* `stringToTypedBuffer`, `typedBufferToString` — the dispatch on the type.
-/

namespace Prinbee

/-- `buffer_t`, and the bytes of a `std::string`. -/
abbrev Bytes := List UInt8

/-- What the conversions use of other libraries. -/
structure Conversions where
  hexToBin : Bytes → Except Failure Bytes
  binToHex : Bytes → Bytes
  stringToOther : StructType → Bytes → Except Failure Bytes
  otherToString : StructType → Bytes → Except Failure Bytes

/-! ### The syntax of numbers -/

/-- `number_type_t`. -/
inductive NumberType
  | binary
  | octal
  | decimal
  | hexadecimal
  deriving DecidableEq, Repr

/-- `std::isspace()`. -/
def isSpace (c : UInt8) : Bool := c = 32 ∨ (9 ≤ c ∧ c ≤ 13)

/-- The sign of a number and what follows. -/
def numberSign (number n : Bytes) (acceptNegativeValues : Bool) :
    Except Failure (Bool × Bytes) :=
  if n.headD 0 = 43 then .ok (false, n.drop 1)
  else if n.headD 0 = 45 then
    if acceptNegativeValues then .ok (true, n.drop 1)
    else .error (.thrown .invalidNumber
      ("negative values are not accepted, \"" ++ textOf number ++ "\" is not valid."))
  else .ok (false, n)

/-- The base of a number, whether a quote closes it, and its digits. -/
def numberType (n : Bytes) : NumberType × Bool × Bytes :=
  if n.headD 0 = 48 then
    if n.getD 1 0 = 120 ∨ n.getD 1 0 = 88 then (.hexadecimal, false, n.drop 2)
    else if n.getD 1 0 = 98 ∨ n.getD 1 0 = 66 then (.binary, false, n.drop 2)
    else (.octal, false, n.drop 1)
  else if (n.headD 0 = 120 ∨ n.headD 0 = 88) ∧ n.getD 1 0 = 39 then
    (.hexadecimal, true, n.drop 2)
  else (.decimal, false, n)

/-- The value of a digit. -/
def digitOf : NumberType → UInt8 → Option ℕ
  | .binary, c => if 48 ≤ c ∧ c ≤ 49 then some (c.toNat - 48) else none
  | .octal, c => if 48 ≤ c ∧ c ≤ 55 then some (c.toNat - 48) else none
  | .decimal, c => if 48 ≤ c ∧ c ≤ 57 then some (c.toNat - 48) else none
  | .hexadecimal, c =>
    if 48 ≤ c ∧ c ≤ 57 then some (c.toNat - 48)
    else if (97 ≤ c ∧ c ≤ 102) ∨ (65 ≤ c ∧ c ≤ 70) then some ((c &&& 0x5F).toNat - 55)
    else none

/-- The result times the base, with a few additions. -/
def timesBase : NumberType → UInt512 → UInt512
  | .binary, result => result.add result
  | .octal, result =>
    let result := result.add result
    let result := result.add result
    result.add result
  | .decimal, result =>
    let result := result.add result
    let eight := result.add result
    let eight := eight.add eight
    result.add eight
  | .hexadecimal, result =>
    let result := result.add result
    let result := result.add result
    let result := result.add result
    result.add result

/-- The loop over the digits: the number, and what follows them. -/
def readDigits (t : NumberType) : UInt512 → Bytes → UInt512 × Bytes
  | result, [] => (result, [])
  | result, c :: n =>
    match digitOf t c with
    | some digit => readDigits t ((timesBase t result).add (UInt512.ofUInt64 digit)) n
    | none => (result, c :: n)

/-- `string_to_int()` with `UNIT_NONE`. -/
def stringToInt (number : Bytes) (acceptNegativeValues : Bool) : Except Failure UInt512 := do
  -- the text ends at its first null byte
  let n := (number.takeWhile (· ≠ 0)).dropWhile isSpace
  let (negative, n) ← numberSign number n acceptNegativeValues
  let (t, expectQuote, n) := numberType n
  let (result, n) := readDigits t UInt512.zero n
  let n ←
    if expectQuote then
      if n.headD 0 ≠ 39 then
        .error (.thrown .invalidNumber ("closing quote missing in \"" ++ textOf number ++ "\"."))
      else .ok (n.drop 1)
    else .ok n
  if n.dropWhile isSpace ≠ [] then
    .error (.thrown .invalidNumber
      ("could not convert number \"" ++ textOf number
        ++ "\" to a valid uint512_t value (spurious data found after number)."))
  else .ok (if negative then result.neg else result)

/-! ### Integers -/

/-- The loop of `value_byte_size()`, on the bytes from the last one. -/
def byteSizeLoop (expected : UInt8) (total : ℕ) : Bytes → ℕ
  | [] => 0
  | c :: rest =>
    if c ≠ expected then
      if expected = 255 ∧ c < 128 ∧ rest.length + 1 ≠ total then rest.length + 2
      else rest.length + 1
    else byteSizeLoop expected total rest

/-- `value_byte_size()`. -/
def valueByteSize (value : Bytes) (isSigned : Bool) : ℕ :=
  byteSizeLoop (if isSigned ∧ 128 ≤ value.getLastD 0 then 255 else 0) value.length value.reverse

/-- `string_to_uinteger()`. -/
def stringToUinteger (value : Bytes) (maxSize : ℕ) : Except Failure Bytes := do
  let n ← stringToInt value false
  if maxSize ≠ 512 ∧ maxSize < n.bitSize then
    .error (.thrown .outOfRange
      ("number \"" ++ textOf value ++ "\" too large for "
        ++ (if maxSize = 8 then "an " else "a ") ++ toString maxSize ++ " bit value."))
  else .ok (n.memory.take (maxSize / 8))

/-- The error of a value that has too many bytes. -/
def valueTooLarge (value : Bytes) (bytesForSize : ℕ) : Failure :=
  .thrown .outOfRange
    ("value too large (" ++ toString (value.length * 8) ++ " bits) for this field (max: "
      ++ toString (bytesForSize * 8) ++ " bits).")

/-- `uinteger_to_string()`. -/
def uintegerToString (value : Bytes) (bytesForSize : ℕ) (base : ℤ) : Except Failure Bytes :=
  if bytesForSize < valueByteSize value false then .error (valueTooLarge value bytesForSize)
  else if 64 < value.length then .error .undefinedBehavior
  else (UInt512.ofMemory value).toText base true true

/-- The minimum of a type is the only one of its size that fits: its bits above the sign are
compared. -/
def isMinimum (n : Int512) (maxSize : ℕ) : Except Failure Bool :=
  let f := fun i => n.words.limbs.getD i 0
  if maxSize = 256 then .ok (f 0 = 0 ∧ f 1 = 0 ∧ f 2 = 0 ∧ f 3 ^^^ 2 ^ 63 = 0)
  else if maxSize = 128 then .ok (f 0 = 0 ∧ f 1 ^^^ 2 ^ 63 = 0)
  else if maxSize = 64 then .ok (f 0 ^^^ 2 ^ 63 = 0)
  else if maxSize = 32 then .ok (f 0 ^^^ (2 ^ 64 - 2 ^ 31) = 0)
  else if maxSize = 16 then .ok (f 0 ^^^ (2 ^ 64 - 2 ^ 15) = 0)
  else if maxSize = 8 then .ok (f 0 ^^^ (2 ^ 64 - 2 ^ 7) = 0)
  else .error (.thrown .logicError "unexpected bit size.")

/-- `string_to_integer()`. -/
def stringToInteger (value : Bytes) (maxSize : ℕ) : Except Failure Bytes := do
  let n : Int512 := ⟨← stringToInt value true⟩
  let bitSize := n.bitSize
  if maxSize ≠ 512 ∧ maxSize - 1 < bitSize then
    let isZero ← if bitSize = maxSize then isMinimum n maxSize else .ok false
    if !isZero then
      .error (.thrown .outOfRange
        ("number \"" ++ textOf value ++ "\" too large for a signed " ++ toString maxSize
          ++ " bit value."))
    else .ok (n.words.memory.take (maxSize / 8))
  else .ok (n.words.memory.take (maxSize / 8))

/-- `integer_to_string()`. -/
def integerToString (value : Bytes) (bytesForSize : ℕ) (base : ℤ) : Except Failure Bytes :=
  if value = [] then .error .undefinedBehavior
  else if 128 ≤ value.getLastD 0 then
    let size := valueByteSize value true
    if bytesForSize < size then .error (valueTooLarge value bytesForSize)
    else if 64 < size then .error .undefinedBehavior
    else do
      -- the sign is extended over the high word too
      let v : Int512 := ⟨UInt512.ofMemory (value.take size ++ List.replicate (64 - size) 255)⟩
      let text ← uintegerToString v.neg.words.memory bytesForSize base
      .ok (45 :: text)
  else uintegerToString value bytesForSize base

/-! ### Versions -/

/-- `std::to_string()` of a number that is not negative. -/
def decimalText (n : ℕ) : Bytes := if n = 0 then [48] else UInt512.digitsText 10 false n

/-- `string_to_version()`. -/
def stringToVersion (value : Bytes) : Except Failure Bytes :=
  match value.idxOf? 46 with
  | none =>
    .error (.thrown .invalidParameter
      ("version \"" ++ textOf value
        ++ "\" must include a period (.) between the major and minor numbers."))
  | some pos => do
    let skip := (value.takeWhile isSpace).length
    let skip := if value.getD skip 0 = 118 ∨ value.getD skip 0 = 86 then skip + 1 else skip
    let a ← stringToInt ((value.drop skip).take (sub64 pos skip)) false
    let b ← stringToInt (value.drop (pos + 1)) false
    if 16 < a.bitSize ∨ 16 < b.bitSize then
      .error (.thrown .outOfRange
        ("one or both of the major or minor numbers from version \"" ++ textOf value
          ++ "\" are too large for a version number (max. is 65535)."))
    else .ok (UInt512.toBytes 4 (a.low * 2 ^ 16 + b.low))

/-- `version_to_string()`. -/
def versionToString (value : Bytes) : Except Failure Bytes :=
  if value.length ≠ 4 then
    .error (.thrown .outOfRange
      ("a buffer representing a version must be exactly 4 bytes, not " ++ toString value.length
        ++ "."))
  else
    let v := UInt512.ofBytes value
    .ok (decimalText (v / 2 ^ 16) ++ 46 :: decimalText (v % 2 ^ 16))

/-! ### Strings and buffers -/

/-- `char_to_buffer()`; a value longer than the field is copied past the end of the result. -/
def charToBuffer (value : Bytes) (size : ℕ) : Except Failure Bytes :=
  if size = 0 then
    .error (.thrown .outOfRange "char_to_buffer(): size out of range, it must be 1 or more.")
  else if size < value.length then .error .undefinedBehavior
  else .ok (value ++ List.replicate (size - value.length) 0)

/-- `buffer_to_char()`. -/
def bufferToChar (value : Bytes) (size : ℕ) : Except Failure Bytes :=
  if value.length < size then
    .error (.thrown .outOfRange
      ("buffer too small for the CHAR string (size: " ++ toString size
        ++ ", character bytes in buffer: " ++ toString value.length ++ ")."))
  else .ok ((value.take size).takeWhile (· ≠ 0))

/-- `string_to_buffer()`; the size is kept in 32 bits. -/
def stringToBuffer (value : Bytes) (bytesForSize : ℕ) : Except Failure Bytes :=
  let size := value.length % 2 ^ 32
  let maxSize := 2 ^ (bytesForSize * 8)
  if maxSize ≤ size then
    .error (.thrown .outOfRange
      ("string too long (" ++ toString size ++ ") for this field (max: " ++ toString (maxSize - 1)
        ++ ")."))
  else .ok (UInt512.toBytes bytesForSize size ++ value)

/-- `buffer_to_string()`. -/
def bufferToString (value : Bytes) (bytesForSize : ℕ) : Except Failure Bytes :=
  if value.length < bytesForSize then
    .error (.thrown .outOfRange
      ("buffer too small to incorporate the P-String size (" ++ toString value.length
        ++ ", expected at least: " ++ toString bytesForSize ++ ")."))
  else
    let size := UInt512.ofBytes (value.take bytesForSize)
    if value.length < bytesForSize + size then
      .error (.thrown .outOfRange
        ("buffer too small for the P-String characters (size: " ++ toString size
          ++ ", character bytes in buffer: " ++ toString (value.length - bytesForSize) ++ ")."))
    else .ok ((value.drop bytesForSize).take size)

/-- `string_to_pbuffer()`. -/
def stringToPbuffer (lib : Conversions) (value : Bytes) (bytesForSize : ℕ) :
    Except Failure Bytes := do
  let bin ← lib.hexToBin value
  if 2 ^ (bytesForSize * 8) ≤ bin.length then
    .error (.thrown .outOfRange
      ("number of bytes in value is too large (" ++ toString bin.length ++ ") for a buffer"
        ++ toString (bytesForSize * 8) ++ "."))
  else .ok (UInt512.toBytes bytesForSize bin.length ++ bin)

/-- `pbuffer_to_string()`. -/
def pbufferToString (lib : Conversions) (value : Bytes) (bytesForSize : ℕ) :
    Except Failure Bytes :=
  if value.length < bytesForSize then
    .error (.thrown .outOfRange
      ("buffer too small to incorporate the P-Buffer size (" ++ toString value.length
        ++ ", expected at least: " ++ toString bytesForSize ++ ")."))
  else
    let size := UInt512.ofBytes (value.take bytesForSize)
    if value.length < bytesForSize + size then
      .error (.thrown .outOfRange
        ("buffer (size: " ++ toString value.length ++ " including " ++ toString bytesForSize
          ++ " bytes for the size) too small for the requested number of bytes ("
          ++ toString (bytesForSize + size) ++ ")."))
    else .ok (lib.binToHex ((value.drop bytesForSize).take size))

/-! ### The dispatch -/

/-- The error of a type that has no text. -/
def unexpectedType (type : StructType) : Failure :=
  .thrown .logicError
    ("unexpected structure type (" ++ toString type.ctorIdx
      ++ ") to convert a string to a buffer.")

/-- `string_to_typed_buffer()`. -/
def stringToTypedBuffer (lib : Conversions) (type : StructType) (value : Bytes) (size : ℕ) :
    Except Failure Bytes :=
  match type with
  | .bits8 | .uint8 => stringToUinteger value 8
  | .bits16 | .uint16 => stringToUinteger value 16
  | .bits32 | .uint32 => stringToUinteger value 32
  | .bits64 | .uint64 | .oid | .reference => stringToUinteger value 64
  | .bits128 | .uint128 => stringToUinteger value 128
  | .bits256 | .uint256 => stringToUinteger value 256
  | .bits512 | .uint512 => stringToUinteger value 512
  | .int8 => stringToInteger value 8
  | .int16 => stringToInteger value 16
  | .int32 => stringToInteger value 32
  | .int64 => stringToInteger value 64
  | .int128 => stringToInteger value 128
  | .int256 => stringToInteger value 256
  | .int512 => stringToInteger value 512
  | .float32 | .float64 | .float128 | .magic => lib.stringToOther type value
  | .structureVersion | .version => stringToVersion value
  | .time | .mstime | .ustime | .nstime => lib.stringToOther type value
  | .char => charToBuffer value size
  | .p8string => stringToBuffer value 1
  | .p16string => stringToBuffer value 2
  | .p32string => stringToBuffer value 4
  | .buffer8 => stringToPbuffer lib value 1
  | .buffer16 => stringToPbuffer lib value 2
  | .buffer32 => stringToPbuffer lib value 4
  | .end | .void | .structure | .union | .array8 | .array16 | .array32 | .unionArray8
  | .unionArray16 | .unionArray32 | .renamed => .error (unexpectedType type)

/-- `typed_buffer_to_string()`. -/
def typedBufferToString (lib : Conversions) (type : StructType) (value : Bytes)
    (baseOrSize : ℤ) : Except Failure Bytes :=
  match type with
  | .bits8 | .uint8 => uintegerToString value 1 baseOrSize
  | .bits16 | .uint16 => uintegerToString value 2 baseOrSize
  | .bits32 | .uint32 => uintegerToString value 4 baseOrSize
  | .bits64 | .uint64 | .reference | .oid => uintegerToString value 8 baseOrSize
  | .bits128 | .uint128 => uintegerToString value 16 baseOrSize
  | .bits256 | .uint256 => uintegerToString value 32 baseOrSize
  | .bits512 | .uint512 => uintegerToString value 64 baseOrSize
  | .int8 => integerToString value 1 baseOrSize
  | .int16 => integerToString value 2 baseOrSize
  | .int32 => integerToString value 4 baseOrSize
  | .int64 => integerToString value 8 baseOrSize
  | .int128 => integerToString value 16 baseOrSize
  | .int256 => integerToString value 32 baseOrSize
  | .int512 => integerToString value 64 baseOrSize
  | .float32 | .float64 | .float128 | .magic => lib.otherToString type value
  | .structureVersion | .version => versionToString value
  | .time | .mstime | .ustime | .nstime => lib.otherToString type value
  | .char => bufferToChar value (baseOrSize % 2 ^ 64).toNat
  | .p8string => bufferToString value 1
  | .p16string => bufferToString value 2
  | .p32string => bufferToString value 4
  | .buffer8 => pbufferToString lib value 1
  | .buffer16 => pbufferToString lib value 2
  | .buffer32 => pbufferToString lib value 4
  | .end | .void | .structure | .union | .array8 | .array16 | .array32 | .unionArray8
  | .unionArray16 | .unionArray32 | .renamed => .error (unexpectedType type)

end Prinbee
