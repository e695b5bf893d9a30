import Prinbee.Data.StructureLayout

/-!
# Complex types

`schema.cpp`: a user defined type has fields, which have a type each, or is an enumeration, which
has values.  They are kept in one file per context, and a context holds them by name.  The fields
are read with the names of their types; when all the types are there, each name is resolved: it is
that of a basic type or that of another complex type.

The objects behind the shared pointers of the map are kept as its values.  Putting a string in
upper case is a function of another library, and a parameter here.

## Main definitions

* `nameToStructType` — `name_to_struct_type()`.
* `ComplexType`, `ComplexTypes` — `schema_complex_type` and its map.
* `ComplexType.construct` — the constructor, from the structure of an entry of the file.
* `ComplexTypes.load` — `load_complex_types()`.
-/

namespace Prinbee

open Forest (Pos)
open UInt512 (toBytes)

/-! ### Names of basic types -/

/-- The types of `g_name_to_struct_type`. -/
def namedStructTypes : List StructType :=
  [.array16, .array32, .array8, .bits128, .bits16, .bits256, .bits32, .bits512, .bits64, .bits8,
    .buffer16, .buffer32, .buffer8, .char, .end, .float128, .float32, .float64, .int128, .int16,
    .int256, .int32, .int512, .int64, .int8, .magic, .mstime, .nstime, .oid, .p16string,
    .p32string, .p8string, .reference, .renamed, .structure, .structureVersion, .time, .uint128,
    .uint16, .uint256, .uint32, .uint512, .uint64, .uint8, .ustime, .version, .void]

/-- The bytes of a name. -/
def nameBytes (t : StructType) : Bytes := t.name.toList.map fun c => UInt8.ofNat c.toNat

variable (toUpper : Bytes → Bytes)

/-- `name_to_struct_type()`, `none` for `INVALID_STRUCT_TYPE`.  The source searches the table, which
is sorted, by bisection. -/
def nameToStructType (typeName : Bytes) : Option StructType :=
  namedStructTypes.find? fun t => nameBytes t = toUpper typeName

/-! ### One type -/

/-- `schema_complex_type::field_t`. -/
structure ComplexField where
  name : Bytes
  typeName : Bytes := []
  type : StructType := .void
  enumValue : ℤ := 0
  deriving DecidableEq, Repr

/-- `schema_complex_type`.  A type of enumeration that is none is `INVALID_STRUCT_TYPE`. -/
structure ComplexType where
  name : Bytes
  description : Bytes
  compareScript : Bytes
  validationScript : Bytes := []
  enumType : Option StructType := some .void
  fields : List ComplexField := []
  deriving DecidableEq, Repr

namespace ComplexType

/-- `is_enum()`. -/
def isEnum (t : ComplexType) : Bool := t.enumType ≠ some .void

/-! #### The descriptions of the file -/

/-- The names of the fields. -/
def fldName : List Char := ['n', 'a', 'm', 'e']

@[inherit_doc fldName]
def fldDescription : List Char := ['d', 'e', 's', 'c', 'r', 'i', 'p', 't', 'i', 'o', 'n']

@[inherit_doc fldName]
def fldCompareScript : List Char :=
  ['c', 'o', 'm', 'p', 'a', 'r', 'e', '_', 's', 'c', 'r', 'i', 'p', 't']

@[inherit_doc fldName]
def fldValidationScript : List Char :=
  ['v', 'a', 'l', 'i', 'd', 'a', 't', 'i', 'o', 'n', '_', 's', 'c', 'r', 'i', 'p', 't']

@[inherit_doc fldName]
def fldType : List Char := ['t', 'y', 'p', 'e']

@[inherit_doc fldName]
def fldEnumType : List Char := ['e', 'n', 'u', 'm', '_', 't', 'y', 'p', 'e']

@[inherit_doc fldName]
def fldValue : List Char := ['v', 'a', 'l', 'u', 'e']

@[inherit_doc fldName]
def fldFields : List Char := ['f', 'i', 'e', 'l', 'd', 's']

@[inherit_doc fldName]
def fldValues : List Char := ['v', 'a', 'l', 'u', 'e', 's']

@[inherit_doc fldName]
def fldTypes : List Char := ['t', 'y', 'p', 'e', 's']

@[inherit_doc fldName]
def fldEnums : List Char := ['e', 'n', 'u', 'm', 's']

/-- `g_system_field_name_magic`. -/
def fldMagic : List Char := ['_', 'm', 'a', 'g', 'i', 'c']

/-- `g_system_field_name_structure_version`. -/
def fldStructureVersion : List Char :=
  ['_', 's', 't', 'r', 'u', 'c', 't', 'u', 'r', 'e', '_', 'v', 'e', 'r', 's', 'i', 'o', 'n']

/-- `"VOID"`, the default of a type. -/
def voidName : Bytes := [86, 79, 73, 68]

/-- `FILE_TYPE_COMPLEX_TYPE`, `"CXTP"`. -/
def magicName : Bytes := [67, 88, 84, 80]

/-- A string with its length in one byte, or in four. -/
def p8String (name : List Char) : FieldInfo := { fieldName := name, type := .p8string }

@[inherit_doc p8String]
def p32String (name : List Char) : FieldInfo := { fieldName := name, type := .p32string }

/-- An array with its length in two bytes. -/
def array16 (name : List Char) : FieldInfo := { fieldName := name, type := .array16 }

/-- The type of a field of a type, the type of an enumeration and a value of it. -/
def typeInfo : FieldInfo :=
  { fieldName := fldType, type := .p8string, defaultValue := some voidName }

@[inherit_doc typeInfo]
def enumTypeInfo : FieldInfo :=
  { fieldName := fldEnumType, type := .uint16, defaultValue := some voidName }

@[inherit_doc typeInfo]
def valueInfo : FieldInfo := { fieldName := fldValue, type := .uint64 }

/-- The first two fields of the file. -/
def magicInfo : FieldInfo :=
  { fieldName := fldMagic, type := .magic, defaultValue := some magicName }

@[inherit_doc magicInfo]
def structureVersionInfo : FieldInfo :=
  { fieldName := fldStructureVersion, type := .structureVersion, minVersion := (1, 0) }

/-- `g_complex_enum_field_description`. -/
def enumFieldDescription : Description :=
  .field (p8String fldName) .null (.field valueInfo .null .end)

/-- `g_complex_enum_description`. -/
def enumDescription : Description :=
  .field (p8String fldName) .null
    (.field (p32String fldDescription) .null
      (.field (p32String fldCompareScript) .null
        (.field enumTypeInfo .null
          (.field (array16 fldValues) enumFieldDescription .end))))

/-- `g_complex_type_field_description`. -/
def typeFieldDescription : Description :=
  .field (p8String fldName) .null (.field typeInfo .null .end)

/-- `g_complex_type_description`. -/
def typeDescription : Description :=
  .field (p8String fldName) .null
    (.field (p32String fldDescription) .null
      (.field (p32String fldCompareScript) .null
        (.field (p32String fldValidationScript) .null
          (.field (array16 fldFields) typeFieldDescription .end))))

/-- `g_complex_type_file_description`. -/
def fileDescription : Description :=
  .field magicInfo .null
    (.field structureVersionInfo .null
      (.field (array16 fldTypes) typeDescription
        (.field (array16 fldEnums) enumDescription .end)))

/-! #### The constructor -/

/-- The values of an enumeration, after those that were read. -/
def readValues (s : Structure) : List Pos → List ComplexField → Except Failure (List ComplexField)
  | [], fields => .ok fields
  | v :: vs, fields => do
    let name ← s.getString (some v) fldName
    let value ← s.getUinteger (some v) fldValue
    let enumValue := Structure.signedOf (toBytes 8 value)
    if fields.any (·.name = name) then
      .error (.thrown .definedTwice
        ("each name in an enum definition must be unique, found \"" ++ textOf name ++ "\" twice."))
    else
      match fields.find? (·.enumValue = enumValue) with
      | some field =>
        .error (.thrown .definedTwice
          ("each value in an enum definition must be unique, found \"" ++ toString enumValue
            ++ "\" twice in \"" ++ textOf field.name ++ "\" and \"" ++ textOf name ++ "\"."))
      | none => readValues s vs (fields ++ [{ name, enumValue }])

/-- The fields of a type, after those that were read.  The name of the type is read as an integer,
and assigned to a string as one character. -/
def readFields (s : Structure) : List Pos → List ComplexField → Except Failure (List ComplexField)
  | [], fields => .ok fields
  | f :: fs, fields => do
    let name ← s.getString (some f) fldName
    let type ← s.getUinteger (some f) fldType
    if fields.any (·.name = name) then
      .error (.thrown .definedTwice
        ("each field name in a complex type must be unique, found \"" ++ textOf name
          ++ "\" twice."))
    else readFields s fs (fields ++ [{ name, typeName := [UInt8.ofNat type] }])

/-- The constructor of `schema_complex_type`, from the structure at a position. -/
def construct (s : Structure) (p : Pos) (isEnum : Bool) : Except Failure ComplexType := do
  let name ← s.getString (some p) fldName
  if (nameToStructType toUpper name).isSome then
    .error (.thrown .typeMismatch
      ("the name of a complex type cannot be the name of a basic type; \"" ++ textOf name
        ++ "\" is not considered valid."))
  else do
    let description ← s.getString (some p) fldDescription
    let compareScript ← s.getString (some p) fldCompareScript
    if isEnum then do
      let type ← s.getString (some p) fldType
      let vs ← s.getArray (some p) fldValues
      let fields ← readValues s vs []
      .ok { name, description, compareScript, enumType := nameToStructType toUpper type, fields }
    else do
      let validationScript ← s.getString (some p) fldValidationScript
      let fs ← s.getArray (some p) fldFields
      let fields ← readFields s fs []
      .ok { name, description, compareScript, validationScript, fields }

end ComplexType

/-- `set_type()` on a field. -/
def ComplexField.setType (f : ComplexField) (t : StructType) : ComplexField :=
  if t = .structure then { f with type := t } else { f with type := t, typeName := nameBytes t }

/-! ### The types of a context -/

/-- `schema_complex_type::map_t`. -/
abbrev ComplexTypes := Std.ExtTreeMap Bytes ComplexType compare

namespace ComplexTypes

/-- What a call leaves of the map, and whether it throws. -/
abbrev Loading := ComplexTypes × Except Failure Unit

/-- Read from the file; when that throws the map is left as it is. -/
def Loading.read {α : Type} (types : ComplexTypes) (x : Except Failure α) (f : α → Loading) :
    Loading :=
  match x with
  | .ok a => f a
  | .error e => (types, .error e)

/-- Go on when a call returns. -/
def Loading.andThen (l : Loading) (f : ComplexTypes → Loading) : Loading :=
  match l.2 with
  | .ok () => f l.1
  | .error _ => l

/-- The loops that construct the entries of an array and put them in the map. -/
def loadEntries (s : Structure) (isEnum : Bool) : List Pos → ComplexTypes → Loading
  | [], types => (types, .ok ())
  | p :: ps, types =>
    Loading.read types (ComplexType.construct toUpper s p isEnum) fun t =>
      loadEntries s isEnum ps (types.insert t.name t)

/-- The types of the fields of one type, up to the first that is not known. -/
def resolveFields (known : Bytes → Bool) :
    List ComplexField → List ComplexField × Except Failure Unit
  | [] => ([], .ok ())
  | f :: fs =>
    let (rest, r) := resolveFields known fs
    match nameToStructType toUpper f.typeName with
    | some t => (f.setType t :: rest, r)
    | none =>
      if known f.typeName then (f.setType .structure :: rest, r)
      else
        (f :: fs, .error (.thrown .typeNotFound
          ("basic or complex type named \"" ++ textOf f.typeName ++ "\" not known.")))

/-- The loop that resolves the names of types, over the whole map. -/
def resolveTypes : List (Bytes × ComplexType) → ComplexTypes → Loading
  | [], types => (types, .ok ())
  | (name, t) :: rest, types =>
    if t.isEnum then resolveTypes rest types
    else
      let (fields, r) := resolveFields toUpper (fun n => types.contains n) t.fields
      Loading.andThen (types.insert name { t with fields }, r) (resolveTypes rest)

/-- The structure over a file of complex types. -/
def openFile (b : VirtualBuffer) : Except Failure Structure := do
  let s ← Structure.create ComplexType.fileDescription true
  s.setVirtualBuffer b

/-- `load_complex_types()`. -/
def load (types : ComplexTypes) (b : VirtualBuffer) : Loading :=
  Loading.read types (openFile b) fun s =>
  Loading.read types (s.getArray none ComplexType.fldTypes) fun ts =>
  Loading.andThen (loadEntries toUpper s false ts types) fun types =>
  Loading.read types (s.getArray none ComplexType.fldEnums) fun es =>
  Loading.andThen (loadEntries toUpper s true es types) fun types =>
  resolveTypes toUpper types.toList types

end ComplexTypes

end Prinbee
