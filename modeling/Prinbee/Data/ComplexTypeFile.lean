import Mathlib.Data.List.TakeWhile
import Prinbee.Data.ComplexType

/-!
# Files of complex types

A file of complex types is the values of its description: types with fields and enumerations with
values.  `ComplexTypeFile` has them as records, with the lengths the file has room for, and a
buffer that `load_complex_types()` can parse holds one of them.

Two of the accessors do not match the description.  The type of a field is a string, and the
constructor reads it as an integer; the type of an enumeration has another name than the one the
constructor asks for.  So a type is read when it has no fields, and an enumeration never.

## Main definitions

* `ComplexTypeFile` — what is in a file.
* `ComplexTypeFile.Loads` — loading the file gives its types and enumerations.
* `TypeEntry.Refused` — the constructor throws on a type.

## Main results

* `ComplexTypes.load_eq` — what a load puts in the map, and when it returns.
* `ComplexTypeFile.loads_iff` — a file is loaded when it has neither enumerations nor fields.
-/

namespace Prinbee

open Forest (Pos)
open Structure (Stored Stores Holds Counted Word stringNode wordNode arrayNode)
open UInt512 (toBytes)

/-! ### The values of the descriptions -/

/-- A field of a type in a file. -/
structure TypeField where
  name : Counted 1 UInt8
  type : Counted 1 UInt8

/-- A type in a file. -/
structure TypeEntry where
  name : Counted 1 UInt8
  description : Counted 4 UInt8
  compareScript : Counted 4 UInt8
  validationScript : Counted 4 UInt8
  fields : Counted 2 TypeField

/-- A value of an enumeration in a file. -/
structure EnumValue where
  name : Counted 1 UInt8
  value : Word 8

/-- An enumeration in a file. -/
structure EnumEntry where
  name : Counted 1 UInt8
  description : Counted 4 UInt8
  compareScript : Counted 4 UInt8
  enumType : Word 2
  values : Counted 2 EnumValue

/-- A file of complex types. -/
structure ComplexTypeFile where
  magic : Word 4
  structureVersion : Word 4
  types : Counted 2 TypeEntry
  enums : Counted 2 EnumEntry

open ComplexType

/-- The values of `typeFieldDescription`. -/
def TypeField.stored (f : TypeField) : Forest Stored :=
  stringNode (p8String fldName) f.name (stringNode typeInfo f.type .nil)

/-- The values of `typeDescription`. -/
def TypeEntry.stored (e : TypeEntry) : Forest Stored :=
  stringNode (p8String fldName) e.name
    (stringNode (p32String fldDescription) e.description
      (stringNode (p32String fldCompareScript) e.compareScript
        (stringNode (p32String fldValidationScript) e.validationScript
          (arrayNode (array16 fldFields) typeFieldDescription (e.fields.1.map TypeField.stored)
            .nil))))

/-- The values of `enumFieldDescription`. -/
def EnumValue.stored (v : EnumValue) : Forest Stored :=
  stringNode (p8String fldName) v.name (wordNode valueInfo 8 v.value .nil)

/-- The values of `enumDescription`. -/
def EnumEntry.stored (e : EnumEntry) : Forest Stored :=
  stringNode (p8String fldName) e.name
    (stringNode (p32String fldDescription) e.description
      (stringNode (p32String fldCompareScript) e.compareScript
        (wordNode enumTypeInfo 2 e.enumType
          (arrayNode (array16 fldValues) enumFieldDescription (e.values.1.map EnumValue.stored)
            .nil))))

namespace ComplexTypeFile

/-- The values of `fileDescription`. -/
def stored (f : ComplexTypeFile) : Forest Stored :=
  wordNode magicInfo 4 f.magic
    (wordNode structureVersionInfo 4 f.structureVersion
      (arrayNode (array16 fldTypes) typeDescription (f.types.1.map TypeEntry.stored)
        (arrayNode (array16 fldEnums) enumDescription (f.enums.1.map EnumEntry.stored) .nil)))

/-- The bytes of a file. -/
def bytes (f : ComplexTypeFile) : Bytes := Structure.encode f.stored

end ComplexTypeFile

open StructType (Shape)

theorem shape_p8String (name : List Char) : (p8String name).type.shape = .counted 1 := rfl

theorem shape_p32String (name : List Char) : (p32String name).type.shape = .counted 4 := rfl

theorem shape_array16 (name : List Char) : (array16 name).type.shape = .array 2 := rfl

theorem shape_typeInfo : typeInfo.type.shape = .counted 1 := rfl

theorem shape_enumTypeInfo : enumTypeInfo.type.shape = .fixed 2 := rfl

theorem shape_valueInfo : valueInfo.type.shape = .fixed 8 := rfl

theorem shape_magicInfo : magicInfo.type.shape = .fixed 4 := rfl

theorem shape_structureVersionInfo : structureVersionInfo.type.shape = .fixed 4 := rfl

theorem TypeField.stores_iff (t : Forest Stored) :
    Stores typeFieldDescription t ↔ ∃ f : TypeField, t = f.stored := by
  unfold typeFieldDescription
  simp only [Structure.stores_string (shape_p8String _), Structure.stores_string shape_typeInfo,
    Structure.stores_end]
  constructor
  · rintro ⟨name, _, rfl, type, _, rfl, rfl⟩
    exact ⟨⟨name, type⟩, rfl⟩
  · rintro ⟨f, rfl⟩
    exact ⟨f.name, _, rfl, f.type, _, rfl, rfl⟩

theorem TypeEntry.stores_iff (t : Forest Stored) :
    Stores typeDescription t ↔ ∃ e : TypeEntry, t = e.stored := by
  unfold typeDescription
  simp only [Structure.stores_string (shape_p8String _),
    Structure.stores_string (shape_p32String _),
    Structure.stores_array TypeField.stores_iff (shape_array16 _), Structure.stores_end]
  constructor
  · rintro ⟨name, _, rfl, description, _, rfl, compare, _, rfl, validation, _, rfl, fields, _, rfl,
      rfl⟩
    exact ⟨⟨name, description, compare, validation, fields⟩, rfl⟩
  · rintro ⟨e, rfl⟩
    exact ⟨e.name, _, rfl, e.description, _, rfl, e.compareScript, _, rfl, e.validationScript, _,
      rfl, e.fields, _, rfl, rfl⟩

theorem EnumValue.stores_iff (t : Forest Stored) :
    Stores enumFieldDescription t ↔ ∃ v : EnumValue, t = v.stored := by
  unfold enumFieldDescription
  simp only [Structure.stores_string (shape_p8String _), Structure.stores_word shape_valueInfo,
    Structure.stores_end]
  constructor
  · rintro ⟨name, _, rfl, value, _, rfl, rfl⟩
    exact ⟨⟨name, value⟩, rfl⟩
  · rintro ⟨v, rfl⟩
    exact ⟨v.name, _, rfl, v.value, _, rfl, rfl⟩

theorem EnumEntry.stores_iff (t : Forest Stored) :
    Stores enumDescription t ↔ ∃ e : EnumEntry, t = e.stored := by
  unfold enumDescription
  simp only [Structure.stores_string (shape_p8String _),
    Structure.stores_string (shape_p32String _), Structure.stores_word shape_enumTypeInfo,
    Structure.stores_array EnumValue.stores_iff (shape_array16 _), Structure.stores_end]
  constructor
  · rintro ⟨name, _, rfl, description, _, rfl, compare, _, rfl, type, _, rfl, values, _, rfl, rfl⟩
    exact ⟨⟨name, description, compare, type, values⟩, rfl⟩
  · rintro ⟨e, rfl⟩
    exact ⟨e.name, _, rfl, e.description, _, rfl, e.compareScript, _, rfl, e.enumType, _, rfl,
      e.values, _, rfl, rfl⟩

/-- **What the description of a file accepts are files.** -/
theorem ComplexTypeFile.stores_iff (t : Forest Stored) :
    Stores fileDescription t ↔ ∃ f : ComplexTypeFile, t = f.stored := by
  unfold fileDescription
  simp only [Structure.stores_word shape_magicInfo,
    Structure.stores_word shape_structureVersionInfo,
    Structure.stores_array TypeEntry.stores_iff (shape_array16 _),
    Structure.stores_array EnumEntry.stores_iff (shape_array16 _), Structure.stores_end]
  constructor
  · rintro ⟨magic, _, rfl, version, _, rfl, types, _, rfl, enums, _, rfl, rfl⟩
    exact ⟨⟨magic, version, types, enums⟩, rfl⟩
  · rintro ⟨f, rfl⟩
    exact ⟨f.magic, _, rfl, f.structureVersion, _, rfl, f.types, _, rfl, f.enums, _, rfl, rfl⟩

/-! ### The constructor on an entry -/

section Construct

variable {vb : VirtualBuffer} {s : Structure} {p : Pos}

/-- The constructor does not accept the name of a type, or reads the type of a field. -/
def TypeEntry.Refused (toUpper : Bytes → Bytes) (e : TypeEntry) : Prop :=
  (nameToStructType toUpper e.name).isSome = true ∨ e.fields.1 ≠ []

instance (toUpper : Bytes → Bytes) (e : TypeEntry) : Decidable (e.Refused toUpper) :=
  haveI : Decidable (e.fields.1 ≠ []) :=
    decidable_of_iff (e.fields.1.isEmpty = false) (by rw [← Bool.not_eq_true, List.isEmpty_iff])
  inferInstanceAs (Decidable (_ ∨ _))

/-- A type without fields. -/
def TypeEntry.complexType (e : TypeEntry) : ComplexType where
  name := e.name
  description := e.description
  compareScript := e.compareScript
  validationScript := e.validationScript

/-- **The type of a field is no integer.** -/
theorem readFields_cons (hvb : vb.WellFormed) {f : TypeField}
    (h : Holds vb s (some p) f.stored) (ps : List Pos) (fields : List ComplexField) :
    ∃ e, readFields s (p :: ps) fields = .error e := by
  obtain ⟨e, he⟩ := h.getUinteger_variable hvb (by decide : Structure.IsFieldName fldType) (i := 1)
    rfl rfl (by decide) (by decide)
  rw [readFields, he]
  cases s.getString (some p) fldName with
  | error e' => exact ⟨e', rfl⟩
  | ok name => exact ⟨e, rfl⟩

/-- What every entry starts with is read. -/
theorem getString_name (hvb : vb.WellFormed) {name description compare : Bytes}
    {rest : Forest Stored}
    (h : Holds vb s (some p) (stringNode (p8String fldName) name
      (stringNode (p32String fldDescription) description
        (stringNode (p32String fldCompareScript) compare rest))))
    (hname : name.length < 256 ^ 1) (hdescription : description.length < 256 ^ 4)
    (hcompare : compare.length < 256 ^ 4) :
    s.getString (some p) fldName = .ok name ∧
      s.getString (some p) fldDescription = .ok description ∧
      s.getString (some p) fldCompareScript = .ok compare :=
  ⟨h.getString_eq hvb (by decide) (i := 0) rfl rfl rfl ⟨rfl, hname⟩,
    h.getString_eq hvb (by decide) (i := 1) rfl rfl rfl ⟨rfl, hdescription⟩,
    h.getString_eq hvb (by decide) (i := 2) rfl rfl rfl ⟨rfl, hcompare⟩⟩

variable {toUpper : Bytes → Bytes} {e : TypeEntry}

theorem TypeEntry.construct_eq (hvb : vb.WellFormed) (h : Holds vb s (some p) e.stored)
    (he : ¬ e.Refused toUpper) : construct toUpper s p false = .ok e.complexType := by
  unfold Refused at he
  rw [not_or, Bool.not_eq_true, not_not] at he
  obtain ⟨hname, hdescription, hcompare⟩ :=
    getString_name hvb h e.name.2 e.description.2 e.compareScript.2
  have hvalidation : s.getString (some p) fldValidationScript = .ok e.validationScript.1 :=
    h.getString_eq hvb (by decide) (i := 3) rfl rfl rfl ⟨rfl, e.validationScript.2⟩
  obtain ⟨ps, harray, hps⟩ := h.getArray_eq hvb (by decide : Structure.IsFieldName fldFields)
    (i := 4) rfl rfl rfl
  rw [he.2, List.map_nil, List.forall₂_nil_right_iff] at hps
  unfold construct
  simp only [hname, ok_bind, he.1, Bool.false_eq_true, if_false, hdescription, hcompare,
    hvalidation, harray, hps, readFields]
  rfl

theorem TypeEntry.construct_refused (hvb : vb.WellFormed) (h : Holds vb s (some p) e.stored)
    (he : e.Refused toUpper) : ∃ err, construct toUpper s p false = .error err := by
  obtain ⟨hname, hdescription, hcompare⟩ :=
    getString_name hvb h e.name.2 e.description.2 e.compareScript.2
  have hvalidation : s.getString (some p) fldValidationScript = .ok e.validationScript.1 :=
    h.getString_eq hvb (by decide) (i := 3) rfl rfl rfl ⟨rfl, e.validationScript.2⟩
  unfold construct
  rw [hname, ok_bind]
  by_cases hbasic : (nameToStructType toUpper e.name).isSome = true
  · rw [if_pos hbasic]
    exact ⟨_, rfl⟩
  · have hfields : e.fields.1 ≠ [] := he.resolve_left hbasic
    obtain ⟨ps, harray, hps⟩ := h.getArray_eq hvb (by decide : Structure.IsFieldName fldFields)
      (i := 4) rfl rfl rfl
    simp only [hbasic, Bool.false_eq_true, if_false, hdescription, ok_bind, hcompare, hvalidation,
      harray]
    cases hlist : e.fields.1 with
    | nil => exact absurd hlist hfields
    | cons f fs =>
      rw [hlist, List.map_cons, List.forall₂_cons_right_iff] at hps
      obtain ⟨q, qs, hq, -, rfl⟩ := hps
      obtain ⟨err, herr⟩ := readFields_cons hvb hq qs []
      rw [herr]
      exact ⟨err, rfl⟩

/-- **The type of an enumeration is not found.** -/
theorem EnumEntry.construct_refused (toUpper : Bytes → Bytes) (hvb : vb.WellFormed) {e : EnumEntry}
    (h : Holds vb s (some p) e.stored) : ∃ err, construct toUpper s p true = .error err := by
  obtain ⟨hname, hdescription, hcompare⟩ :=
    getString_name hvb h e.name.2 e.description.2 e.compareScript.2
  obtain ⟨err, htype⟩ := h.getString_missing (by decide : Structure.IsFieldName fldType) rfl
  unfold construct
  simp only [hname, ok_bind, hdescription, hcompare, htype, if_true]
  split
  · exact ⟨_, rfl⟩
  · exact ⟨err, rfl⟩

end Construct

/-! ### Loading -/

namespace ComplexTypes

variable {toUpper : Bytes → Bytes} {vb : VirtualBuffer} {s : Structure}

/-- Put a type in the map. -/
def put (types : ComplexTypes) (e : TypeEntry) : ComplexTypes :=
  types.insert e.name e.complexType

/-- The last type of a name is the one in the map. -/
theorem getElem?_foldl_put (es : List TypeEntry) (types : ComplexTypes) (name : Bytes) :
    (es.foldl put types)[name]?
      = ((es.reverse.find? fun e => e.name.1 = name).map TypeEntry.complexType).or
        types[name]? := by
  induction es using List.reverseRecOn with
  | nil => rfl
  | append_singleton es e ih =>
    rw [List.foldl_append, List.foldl_cons, List.foldl_nil, put, Std.ExtTreeMap.getElem?_insert,
      List.reverse_append, List.reverse_singleton, List.singleton_append, List.find?_cons]
    by_cases h : e.name.1 = name
    · rw [if_pos (Std.LawfulEqCmp.compare_eq_iff_eq.2 h), decide_eq_true h]
      rfl
    · rw [if_neg (fun heq => h (Std.LawfulEqCmp.compare_eq_iff_eq.1 heq)), decide_eq_false h, ih]

/-- No type has a field and none is an enumeration: nothing is left to resolve. -/
def Plain (types : ComplexTypes) : Prop :=
  ∀ (name : Bytes) (t : ComplexType), types[name]? = some t → t.fields = [] ∧ t.isEnum = false

theorem plain_empty : Plain ∅ := by
  intro name t h
  rw [Std.ExtTreeMap.getElem?_empty] at h
  cases h

theorem Plain.put {types : ComplexTypes} (h : Plain types) (e : TypeEntry) :
    Plain (types.put e) := by
  intro name t ht
  rw [ComplexTypes.put, Std.ExtTreeMap.getElem?_insert] at ht
  split at ht
  · cases ht
    exact ⟨rfl, rfl⟩
  · exact h name t ht

theorem Plain.foldl_put (es : List TypeEntry) {types : ComplexTypes} (h : Plain types) :
    Plain (es.foldl ComplexTypes.put types) := by
  induction es generalizing types with
  | nil => exact h
  | cons e es ih => exact ih (h.put e)

theorem insert_eq_self {types : ComplexTypes} {name : Bytes} {t : ComplexType}
    (h : types[name]? = some t) : types.insert name t = types := by
  apply Std.ExtTreeMap.ext_getElem?
  intro k
  rw [Std.ExtTreeMap.getElem?_insert]
  split
  · next heq => rw [← Std.LawfulEqCmp.compare_eq_iff_eq.1 heq, h]
  · rfl

/-- Resolving the fields of types that have none changes nothing. -/
theorem Plain.resolveTypes_eq {types : ComplexTypes} (h : Plain types)
    {entries : List (Bytes × ComplexType)}
    (hentries : ∀ x ∈ entries, types[x.1]? = some x.2) :
    resolveTypes toUpper entries types = (types, .ok ()) := by
  induction entries with
  | nil => rfl
  | cons x entries ih =>
    have hx := hentries x List.mem_cons_self
    obtain ⟨hfields, henum⟩ := h x.1 x.2 hx
    have hself : { x.2 with fields := [] } = x.2 := by rw [← hfields]
    rw [resolveTypes, henum, if_neg Bool.false_ne_true, hfields, resolveFields]
    simp only [Loading.andThen, hself, insert_eq_self hx]
    exact ih fun y hy => hentries y (List.mem_cons_of_mem x hy)

/-- **The types before the first that is refused are put in the map.** -/
theorem loadEntries_types (toUpper : Bytes → Bytes) (hvb : vb.WellFormed) {ps : List Pos}
    {es : List TypeEntry}
    (h : List.Forall₂ (fun p u => Holds vb s (some p) u) ps (es.map TypeEntry.stored))
    (types : ComplexTypes) :
    ∃ r, loadEntries toUpper s false ps types
        = ((es.takeWhile fun e => ¬ e.Refused toUpper).foldl put types, r) ∧
      (r = .ok () ↔ ∀ e ∈ es, ¬ e.Refused toUpper) := by
  induction es generalizing ps types with
  | nil =>
    rw [List.map_nil, List.forall₂_nil_right_iff] at h
    subst h
    exact ⟨.ok (), rfl, fun _ e he => (nomatch he), fun _ => rfl⟩
  | cons e es ih =>
    rw [List.map_cons, List.forall₂_cons_right_iff] at h
    obtain ⟨p, ps, hp, hps, rfl⟩ := h
    by_cases he : e.Refused toUpper
    · obtain ⟨err, herr⟩ := TypeEntry.construct_refused hvb hp he
      refine ⟨.error err, ?_, fun h => (nomatch h),
        fun hall => absurd he (hall e List.mem_cons_self)⟩
      rw [loadEntries, herr, List.takeWhile_cons_of_neg (by simpa using he)]
      rfl
    · obtain ⟨r, hr, hok⟩ := ih hps (types.put e)
      refine ⟨r, ?_, ?_⟩
      · rw [loadEntries, TypeEntry.construct_eq hvb hp he,
          List.takeWhile_cons_of_pos (by simpa using he), List.foldl_cons]
        exact hr
      · rw [hok, List.forall_mem_cons]
        exact ⟨fun hall => ⟨he, hall⟩, fun hall => hall.2⟩

/-- **No enumeration is put in the map.** -/
theorem loadEntries_enums (toUpper : Bytes → Bytes) (hvb : vb.WellFormed) {ps : List Pos}
    {es : List EnumEntry}
    (h : List.Forall₂ (fun p u => Holds vb s (some p) u) ps (es.map EnumEntry.stored))
    (types : ComplexTypes) :
    ∃ r, loadEntries toUpper s true ps types = (types, r) ∧ (r = .ok () ↔ es = []) := by
  cases es with
  | nil =>
    rw [List.map_nil, List.forall₂_nil_right_iff] at h
    subst h
    exact ⟨.ok (), rfl, fun _ => rfl, fun _ => rfl⟩
  | cons e es =>
    rw [List.map_cons, List.forall₂_cons_right_iff] at h
    obtain ⟨p, ps, hp, -, rfl⟩ := h
    obtain ⟨err, herr⟩ := EnumEntry.construct_refused toUpper hvb hp
    refine ⟨.error err, ?_, fun h => (nomatch h), fun h => (nomatch h)⟩
    rw [loadEntries, herr]
    rfl

/-- The types of a file that a load puts in the map. -/
def kept (toUpper : Bytes → Bytes) (f : ComplexTypeFile) : List TypeEntry :=
  f.types.1.takeWhile fun e => ¬ e.Refused toUpper

/-- The constructor throws on no entry of a file. -/
def Accepted (toUpper : Bytes → Bytes) (f : ComplexTypeFile) : Prop :=
  f.enums.1 = [] ∧ ∀ e ∈ f.types.1, ¬ e.Refused toUpper

theorem plain_fileDescription : fileDescription.plain = true := by decide

/-- A file that can be opened holds the values of its description. -/
theorem openFile_iff (hvb : vb.WellFormed) (hne : vb.buffers ≠ []) :
    openFile vb = .ok s ↔ ∃ f : ComplexTypeFile, f.bytes <+: vb.contents ∧
      s = { description := fileDescription, buffer := some vb,
            fields := Structure.objects 0 f.stored } := by
  have hcreate : Structure.create fileDescription true
      = .ok { description := fileDescription } := rfl
  unfold openFile
  rw [hcreate, ok_bind, Structure.setVirtualBuffer_iff hvb hne plain_fileDescription]
  simp only [ComplexTypeFile.stores_iff]
  constructor
  · rintro ⟨_, ⟨f, rfl⟩, hbytes, rfl⟩
    exact ⟨f, hbytes, rfl⟩
  · rintro ⟨f, hbytes, rfl⟩
    exact ⟨_, ⟨f, rfl⟩, hbytes, rfl⟩

/-- **What a load puts in the map, and when it returns.** -/
theorem load_eq (toUpper : Bytes → Bytes) (hvb : vb.WellFormed) (hne : vb.buffers ≠ [])
    {f : ComplexTypeFile} (hbytes : f.bytes <+: vb.contents) {types : ComplexTypes}
    (htypes : Plain types) :
    ∃ r, load toUpper types vb = ((kept toUpper f).foldl put types, r) ∧
      (r = .ok () ↔ Accepted toUpper f) := by
  have hopen := (openFile_iff hvb hne).2 ⟨f, hbytes, rfl⟩
  have hroot := Structure.holds_root fileDescription hbytes
  obtain ⟨ts, hts, hholds⟩ := hroot.getArray_eq hvb (by decide : Structure.IsFieldName fldTypes)
    (i := 2) rfl rfl rfl
  obtain ⟨es, hes, hholds'⟩ := hroot.getArray_eq hvb (by decide : Structure.IsFieldName fldEnums)
    (i := 3) rfl rfl rfl
  obtain ⟨r, hr, hok⟩ := loadEntries_types toUpper hvb hholds types
  obtain ⟨r', hr', hok'⟩ := loadEntries_enums toUpper hvb hholds'
    ((kept toUpper f).foldl put types)
  unfold load
  rw [hopen, Loading.read, hts, Loading.read, hr]
  cases r with
  | error err =>
    refine ⟨.error err, rfl, fun h => (nomatch h), fun h => ?_⟩
    exact absurd (hok.2 h.2) (fun h => nomatch h)
  | ok u =>
    rw [Loading.andThen, hes, Loading.read]
    have hall := hok.1 rfl
    change ∃ r, Loading.andThen (loadEntries toUpper _ true es ((kept toUpper f).foldl put types)) _
      = _ ∧ _
    rw [hr']
    cases r' with
    | error err =>
      refine ⟨.error err, rfl, fun h => (nomatch h), fun h => ?_⟩
      exact absurd (hok'.2 h.1) (fun h => nomatch h)
    | ok u' =>
      refine ⟨.ok (), ?_, fun _ => ⟨hok'.1 rfl, hall⟩, fun _ => rfl⟩
      refine (htypes.foldl_put _).resolveTypes_eq fun x hx => ?_
      exact Std.ExtTreeMap.mem_toList_iff_getElem?_eq_some.1 hx

end ComplexTypes

/-! ### What a load should give -/

section Loads

variable (toUpper : Bytes → Bytes)

/-- A field of a complex type has the name and the type that are stored. -/
def TypeField.Is (f : TypeField) (c : ComplexField) : Prop :=
  c.name = f.name.1 ∧
    ((∃ t, nameToStructType toUpper f.type = some t ∧ c.type = t) ∨
      (nameToStructType toUpper f.type = none ∧ c.type = .structure ∧ c.typeName = f.type.1))

/-- A value of a complex type has the name and the value that are stored. -/
def EnumValue.Is (v : EnumValue) (c : ComplexField) : Prop :=
  c.name = v.name.1 ∧ c.enumValue = Structure.signedOf (toBytes 8 v.value)

/-- A complex type is the type that is stored. -/
structure TypeEntry.Is (e : TypeEntry) (t : ComplexType) : Prop where
  name : t.name = e.name
  description : t.description = e.description
  compareScript : t.compareScript = e.compareScript
  validationScript : t.validationScript = e.validationScript
  isEnum : t.isEnum = false
  fields : List.Forall₂ (TypeField.Is toUpper) e.fields t.fields

/-- A complex type is the enumeration that is stored. -/
structure EnumEntry.Is (e : EnumEntry) (t : ComplexType) : Prop where
  name : t.name = e.name
  description : t.description = e.description
  compareScript : t.compareScript = e.compareScript
  isEnum : t.isEnum = true
  fields : List.Forall₂ EnumValue.Is e.values t.fields

namespace ComplexTypeFile

/-- The names of the types and of the enumerations. -/
def names (f : ComplexTypeFile) : List Bytes :=
  f.types.1.map (fun e => e.name.1) ++ f.enums.1.map (fun e => e.name.1)

/-- The names differ and are no names of basic types, and each field has a type. -/
structure WellFormed (f : ComplexTypeFile) : Prop where
  nodup : f.names.Nodup
  notBasic : ∀ name ∈ f.names, nameToStructType toUpper name = none
  known : ∀ e ∈ f.types.1, ∀ field ∈ e.fields.1,
    (nameToStructType toUpper field.type).isSome = true ∨ field.type.1 ∈ f.names

/-- The map holds the entries of a file, and no others. -/
structure HeldBy (f : ComplexTypeFile) (m : ComplexTypes) : Prop where
  types : ∀ e ∈ f.types.1, ∃ t : ComplexType, m[e.name.1]? = some t ∧ e.Is toUpper t
  enums : ∀ e ∈ f.enums.1, ∃ t : ComplexType, m[e.name.1]? = some t ∧ e.Is t
  only : ∀ name : Bytes, m[name]?.isSome = true → name ∈ f.names

/-- Loading a buffer returns, and gives the types and enumerations of a file. -/
def Loads (f : ComplexTypeFile) (vb : VirtualBuffer) : Prop :=
  (ComplexTypes.load toUpper ∅ vb).2 = .ok () ∧
    f.HeldBy toUpper (ComplexTypes.load toUpper ∅ vb).1

variable {toUpper} {f : ComplexTypeFile} {vb : VirtualBuffer}

theorem bytes_ne_nil (f : ComplexTypeFile) : f.bytes ≠ [] := by
  intro h
  have hlen := congrArg List.length h
  rw [bytes, stored, wordNode, Structure.length_encode_node, Structure.Stored.own_field,
    List.length_append, UInt512.length_toBytes, UInt512.length_toBytes, List.length_nil] at hlen
  omega

/-- A buffer with a file in it is not empty. -/
theorem buffers_ne_nil (h : f.bytes <+: vb.contents) : vb.buffers ≠ [] := by
  intro hnil
  have hcontents : vb.contents = [] := by rw [VirtualBuffer.contents, hnil, List.flatMap_nil]
  rw [hcontents, List.prefix_nil] at h
  exact f.bytes_ne_nil h

theorem WellFormed.refused_iff (h : f.WellFormed toUpper) {e : TypeEntry} (he : e ∈ f.types.1) :
    e.Refused toUpper ↔ e.fields.1 ≠ [] := by
  have hname := h.notBasic e.name.1 (List.mem_append_left _ (List.mem_map.2 ⟨e, he, rfl⟩))
  unfold TypeEntry.Refused
  rw [hname]
  exact ⟨fun h => h.resolve_left Bool.false_ne_true, Or.inr⟩

/-- A type is found by its name when the names differ. -/
theorem find?_reverse_name {es : List TypeEntry} (h : (es.map fun e => e.name.1).Nodup)
    {e : TypeEntry} (he : e ∈ es) :
    es.reverse.find? (fun e' => e'.name.1 = e.name.1) = some e := by
  have hsome : (es.reverse.find? fun e' => e'.name.1 = e.name.1).isSome = true := by
    rw [List.find?_isSome]
    exact ⟨e, List.mem_reverse.2 he, decide_eq_true rfl⟩
  obtain ⟨e', he'⟩ := Option.isSome_iff_exists.1 hsome
  have hname : e'.name.1 = e.name.1 := by simpa using List.find?_some he'
  have hmem : e' ∈ es := List.mem_reverse.1 (List.mem_of_find?_eq_some he')
  rw [he', List.inj_on_of_nodup_map h hmem he hname]

/-- A type without fields is what its constructor makes of it. -/
theorem complexType_is {e : TypeEntry} (h : e.fields.1 = []) : e.Is toUpper e.complexType where
  name := rfl
  description := rfl
  compareScript := rfl
  validationScript := rfl
  isEnum := rfl
  fields := by rw [h]; exact .nil

/-- **A file is loaded when it has neither enumerations nor fields.** -/
theorem loads_iff (hvb : vb.WellFormed) (hf : f.WellFormed toUpper)
    (hbytes : f.bytes <+: vb.contents) :
    f.Loads toUpper vb ↔ f.enums.1 = [] ∧ ∀ e ∈ f.types.1, e.fields.1 = [] := by
  obtain ⟨r, hload, hok⟩ := ComplexTypes.load_eq toUpper hvb (buffers_ne_nil hbytes) hbytes
    ComplexTypes.plain_empty
  have haccepted : ComplexTypes.Accepted toUpper f ↔
      f.enums.1 = [] ∧ ∀ e ∈ f.types.1, e.fields.1 = [] := by
    unfold ComplexTypes.Accepted
    refine and_congr_right fun _ => forall₂_congr fun e he => ?_
    rw [hf.refused_iff he, not_not]
  unfold Loads
  rw [hload, ← haccepted, ← hok]
  refine ⟨fun h => h.1, fun hr => ⟨hr, ?_⟩⟩
  obtain ⟨henums, htypes⟩ := haccepted.1 (hok.1 hr)
  have hall : ComplexTypes.kept toUpper f = f.types.1 := by
    refine List.takeWhile_eq_self_iff.2 fun e he => ?_
    simpa using (hok.1 hr).2 e he
  have hnodup : (f.types.1.map fun e => e.name.1).Nodup := (List.nodup_append.1 hf.nodup).1
  dsimp only
  rw [hall]
  refine ⟨fun e he => ⟨e.complexType, ?_, complexType_is (htypes e he)⟩, ?_, fun name h => ?_⟩
  · rw [ComplexTypes.getElem?_foldl_put, find?_reverse_name hnodup he, Option.map_some,
      Option.some_or]
  · rw [henums]
    exact fun e he => nomatch he
  · rw [ComplexTypes.getElem?_foldl_put, Std.ExtTreeMap.getElem?_empty, Option.or_none,
      Option.isSome_map, List.find?_isSome] at h
    obtain ⟨e, he, hname⟩ := h
    rw [decide_eq_true_iff] at hname
    exact List.mem_append_left _ (List.mem_map.2 ⟨e, List.mem_reverse.1 he, hname⟩)

/-! #### Two files -/

/-- A buffer with the bytes of a file. -/
def inMemory (bytes : Bytes) : VirtualBuffer where
  blocks := fun _ => []
  buffers := [{ data := bytes, capacity := bytes.length, size := bytes.length }]
  totalSize := bytes.length

theorem wellFormed_inMemory (bytes : Bytes) : (inMemory bytes).WellFormed where
  chunks := by
    rintro b hb
    rw [inMemory, List.mem_singleton] at hb
    rw [hb]
    exact ⟨Nat.le_refl _, Nat.le_refl _⟩
  total := by simp [inMemory, VirtualBuffer.chunkSizes]

theorem contents_inMemory (bytes : Bytes) : (inMemory bytes).contents = bytes := by
  simp [inMemory, VirtualBuffer.contents, Vbuf.view]

/-- Letters in upper case. -/
def upperAscii (text : Bytes) : Bytes := text.map fun c => if 97 ≤ c ∧ c ≤ 122 then c - 32 else c

/-- A type of that name without description and scripts. -/
def typeNamed (name : Counted 1 UInt8) (fields : Counted 2 TypeField) : TypeEntry where
  name := name
  description := ⟨[], by decide⟩
  compareScript := ⟨[], by decide⟩
  validationScript := ⟨[], by decide⟩
  fields := fields

/-- A file of types without enumerations. -/
def fileOf (types : Counted 2 TypeEntry) : ComplexTypeFile where
  magic := ⟨UInt512.ofBytes magicName, UInt512.ofBytes_lt magicName⟩
  structureVersion := ⟨2 ^ 16, by decide⟩
  types := types
  enums := ⟨[], by decide⟩

/-- A type `A` without fields. -/
def typeA : TypeEntry := typeNamed ⟨[65], by decide⟩ ⟨[], by decide⟩

/-- A type `B` with a field `f` of type `UINT8`. -/
def typeB : TypeEntry :=
  typeNamed ⟨[66], by decide⟩
    ⟨[⟨⟨[102], by decide⟩, ⟨[85, 73, 78, 84, 56], by decide⟩⟩], by decide⟩

theorem wellFormed_typeA : (fileOf ⟨[typeA], by decide⟩).WellFormed upperAscii where
  nodup := by decide
  notBasic := by decide
  known e he field hfield := by
    rw [fileOf, List.mem_singleton] at he
    rw [he] at hfield
    cases hfield

theorem wellFormed_typeB : (fileOf ⟨[typeB], by decide⟩).WellFormed upperAscii where
  nodup := by decide
  notBasic := by decide
  known e he field hfield := by
    rw [fileOf, List.mem_singleton] at he
    rw [he, typeB, typeNamed, List.mem_singleton] at hfield
    rw [hfield]
    exact .inl (by decide)

/-- A file of a type without fields is loaded. -/
theorem loads_typeA :
    (fileOf ⟨[typeA], by decide⟩).Loads upperAscii
      (inMemory (fileOf ⟨[typeA], by decide⟩).bytes) := by
  refine (loads_iff (wellFormed_inMemory _) wellFormed_typeA ?_).2 ⟨rfl, fun e he => ?_⟩
  · rw [contents_inMemory]
  · rw [fileOf, List.mem_singleton] at he
    rw [he]
    rfl

/-- **A file of a type with a field is not.** -/
theorem not_loads : ¬ ∀ (toUpper : Bytes → Bytes) (f : ComplexTypeFile) (vb : VirtualBuffer),
    vb.WellFormed → f.WellFormed toUpper → f.bytes <+: vb.contents → f.Loads toUpper vb := by
  intro h
  have hbytes : (fileOf ⟨[typeB], by decide⟩).bytes
      <+: (inMemory (fileOf ⟨[typeB], by decide⟩).bytes).contents := by rw [contents_inMemory]
  obtain ⟨r, hload, hok⟩ := ComplexTypes.load_eq upperAscii (wellFormed_inMemory _)
    (buffers_ne_nil hbytes) hbytes ComplexTypes.plain_empty
  have hr := (h upperAscii _ _ (wellFormed_inMemory _) wellFormed_typeB hbytes).1
  rw [hload] at hr
  exact (hok.1 hr).2 typeB List.mem_cons_self (.inr (by decide))

end ComplexTypeFile

end Loads

end Prinbee
