import Prinbee.Data.BitFields
import Prinbee.Data.StructureSafety

/-!
# Reading and writing flags

`get_bits()` and `set_bits()` take a path: the names of fields with a period between them, then
the name of a flag.  `get_flag()` finds the field, in the structure or in one nested in it, and
the flag in it.

`get_bits()` then reads the field it found.  `set_bits()` does not write to it: it calls
`get_uinteger()` and `set_uinteger()` with the name of the field alone, which is looked up again,
in the structure itself.

## Main definitions

* `Structure.getFlag`, `Structure.getBits`, `Structure.setBits` — the functions of the source.
* `Structure.Ready` — the fields of a structure have bytes of their own in its buffer.
* `Structure.SetsFlag` — what `set_bits()` is for.

## Main results

* `Structure.setsFlag_iff` — it does that for the fields of the structure itself.
-/

namespace Prinbee

open Forest (Pos treePos)
open UInt512 (ofBytes toBytes)
open StructType (Shape)

/-! ### The bits of a word -/

namespace FlagDefinition

/-- `(value & flag->mask()) >> flag->pos()`. -/
def extract (f : FlagDefinition) (word : ℕ) : ℕ := (word &&& f.mask) >>> f.pos

/-- `v &= ~flag->mask()` and `v |= value << flag->pos()`. -/
def insert (f : FlagDefinition) (word value : ℕ) : ℕ :=
  (word &&& (2 ^ 64 - (f.mask + 1))) ||| (value <<< f.pos) % 2 ^ 64

variable {f g : FlagDefinition}

theorem WellFormed.mask_lt (h : f.WellFormed) : f.mask < 2 ^ 64 :=
  (h.mask_lt_iff 64).2 h.fits

theorem WellFormed.testBit_extract (h : f.WellFormed) (word i : ℕ) :
    (f.extract word).testBit i = (decide (i < f.size) && word.testBit (f.pos + i)) := by
  rw [extract, Nat.testBit_shiftRight, Nat.testBit_land, h.testBit_mask, Bool.and_comm]
  congr 1
  rw [decide_eq_decide]
  omega

theorem WellFormed.testBit_insert (h : f.WellFormed) {word value : ℕ} (hword : word < 2 ^ 64)
    (hvalue : value < 2 ^ f.size) (i : ℕ) :
    (f.insert word value).testBit i =
      if f.pos ≤ i ∧ i < f.pos + f.size then value.testBit (i - f.pos) else word.testBit i := by
  have hfits := h.fits
  rw [insert, Nat.testBit_lor, Nat.testBit_land, Nat.testBit_two_pow_sub_succ h.mask_lt,
    h.testBit_mask, Nat.testBit_mod_two_pow, Nat.testBit_shiftLeft]
  by_cases hin : f.pos ≤ i ∧ i < f.pos + f.size
  · have hi : i < 64 := by omega
    simp [hin, hi]
  · rw [if_neg hin, decide_eq_false hin]
    have hnone : (decide (f.pos ≤ i) && value.testBit (i - f.pos)) = false := by
      by_cases hle : f.pos ≤ i
      · have hlt : value < 2 ^ (i - f.pos) :=
          hvalue.trans_le (Nat.pow_le_pow_right (by decide) (by omega))
        rw [Nat.testBit_lt_two_pow hlt, Bool.and_false]
      · rw [decide_eq_false hle, Bool.false_and]
    simp only [ge_iff_le, hnone, Bool.and_false, Bool.or_false, Bool.not_false, Bool.and_true]
    by_cases hi : i < 64
    · rw [decide_eq_true hi, Bool.and_true]
    · have hlt : word < 2 ^ i := hword.trans_le (Nat.pow_le_pow_right (by decide) (by omega))
      rw [Nat.testBit_lt_two_pow hlt, Bool.false_and]

/-- The bits just put in a word. -/
theorem WellFormed.extract_insert (h : f.WellFormed) {word value : ℕ} (hword : word < 2 ^ 64)
    (hvalue : value < 2 ^ f.size) : f.extract (f.insert word value) = value := by
  apply Nat.eq_of_testBit_eq
  intro i
  rw [h.testBit_extract, h.testBit_insert hword hvalue, Nat.add_sub_cancel_left]
  by_cases hi : i < f.size
  · rw [if_pos (by omega), decide_eq_true hi, Bool.true_and]
  · have hlt : value < 2 ^ i := hvalue.trans_le (Nat.pow_le_pow_right (by decide) (by omega))
    rw [decide_eq_false hi, Bool.false_and, Nat.testBit_lt_two_pow hlt]

/-- Two flags have no bit in common. -/
def Apart (f g : FlagDefinition) : Prop := f.pos + f.size ≤ g.pos ∨ g.pos + g.size ≤ f.pos

instance : Std.Symm Apart where
  symm _ _ h := h.symm

/-- The bits of another flag. -/
theorem WellFormed.extract_insert_of_apart (h : f.WellFormed) (hg : g.WellFormed)
    {word value : ℕ} (hword : word < 2 ^ 64) (hvalue : value < 2 ^ f.size)
    (hapart : f.Apart g) : g.extract (f.insert word value) = g.extract word := by
  unfold Apart at hapart
  apply Nat.eq_of_testBit_eq
  intro i
  rw [hg.testBit_extract, hg.testBit_extract, h.testBit_insert hword hvalue]
  by_cases hi : i < g.size
  · rw [if_neg (by omega)]
  · rw [decide_eq_false hi, Bool.false_and, Bool.false_and]

/-- A word of some bits stays one if they hold the flag. -/
theorem WellFormed.insert_lt (h : f.WellFormed) {bits word value : ℕ} (hword : word < 2 ^ bits)
    (hbits : bits ≤ 64) (hvalue : value < 2 ^ f.size) (hin : f.pos + f.size ≤ bits) :
    f.insert word value < 2 ^ bits := by
  apply Nat.lt_pow_two_of_testBit
  intro i hi
  have hword' : word < 2 ^ 64 := hword.trans_le (Nat.pow_le_pow_right (by decide) hbits)
  rw [h.testBit_insert hword' hvalue, if_neg (by omega)]
  exact Nat.testBit_lt_two_pow (hword.trans_le (Nat.pow_le_pow_right (by decide) hi))

/-- The bits of a flag that are beyond a word are not in it. -/
theorem WellFormed.extract_mod_lt (h : f.WellFormed) (word : ℕ) {bits : ℕ}
    (hout : bits < f.pos + f.size) :
    (f.extract (word % 2 ^ bits)).testBit (f.size - 1) = false := by
  have hsize := h.size_pos
  rw [h.testBit_extract, Nat.testBit_mod_two_pow, 
    decide_eq_false (by omega : ¬ f.pos + (f.size - 1) < bits), Bool.false_and, Bool.and_false]

/-- `(value & (flag->mask() >> flag->pos())) != value`. -/
theorem WellFormed.fits_iff (h : f.WellFormed) (value : ℕ) :
    value &&& (f.mask >>> f.pos) = value ↔ value < 2 ^ f.size := by
  have hmask : f.mask >>> f.pos = 2 ^ f.size - 1 := by
    apply Nat.eq_of_testBit_eq
    intro i
    rw [Nat.testBit_shiftRight, h.testBit_mask, Nat.testBit_two_pow_sub_one, decide_eq_decide]
    omega
  rw [hmask, Nat.and_two_pow_sub_one_eq_mod]
  exact Nat.mod_eq_iff_lt (Nat.two_pow_pos _).ne'

end FlagDefinition

namespace Structure

variable (v : VectorCapacity) (convert : List Char → Option ℤ)

/-- The path of a field and the name of a flag, before and after the last period. -/
def splitFlag (flagName : List Char) : Option (List Char × List Char) :=
  match flagName.reverse.dropWhile (· ≠ '.') with
  | [] | [_] => none
  | _ :: fieldName => some (fieldName.reverse, (flagName.reverse.takeWhile (· ≠ '.')).reverse)

/-- `find_flag_definition()`. -/
def findFlagDefinition (info : FieldInfo) (name : List Char) : Except Failure FlagDefinition := do
  let (_, flags) ← parseBitField convert info.type info.fieldName
  match flags.find? (·.flagName = name) with
  | some flag => .ok flag
  | none =>
    .error (.thrown .fieldNotFound ("flag named \"" ++ String.ofList name ++ "\" not found."))

/-- `get_flag()`. -/
def getFlag (s : Structure) (this : Pointer) (flagName : List Char) :
    Except Failure (FlagDefinition × Field) :=
  match splitFlag flagName with
  | none =>
    .error (.thrown .fieldNotFound
      ("flag named \"" ++ String.ofList flagName
        ++ "\" must at least include a field name and a flag name."))
  | some (fieldName, name) => do
    let f ← s.lookup this fieldName
    if f.info.type.isBits then do
      let flag ← findFlagDefinition convert f.info name
      .ok (flag, f)
    else
      .error (.thrown .typeMismatch
        ("expected a field of type BITS<size> for flag named \"" ++ String.ofList flagName
          ++ "\". Got a " ++ f.info.type.name ++ " instead."))

/-- The width of the variable in which `get_bits()` holds a value. -/
def bitsWidth : StructType → Option ℕ
  | .bits8 => some 1
  | .bits16 => some 2
  | .bits32 => some 4
  | .bits64 => some 8
  | _ => none

/-- The error of `get_bits()` and `set_bits()` on wider fields. -/
def unexpectedFlagType (flagName : List Char) (t : StructType) : Failure :=
  .thrown .typeMismatch
    ("type of flag \"" ++ String.ofList flagName ++ "\" is \"" ++ t.name
      ++ "\" but we expected one of \""
      ++ ", ".intercalate ([.bits8, .bits16, .bits32, .bits64].map StructType.name) ++ "\".")

/-- `get_bits()`. -/
def getBits (s : Structure) (this : Pointer) (flagName : List Char) : Except Failure ℕ := do
  let (flag, f) ← s.getFlag convert this flagName
  verifySize f.info.type f.size
  match bitsWidth f.info.type with
  | some k => do
    let bytes ← s.pread k f.offset
    .ok (flag.extract (ofBytes bytes))
  | none => .error (unexpectedFlagType flagName f.info.type)

/-- `set_bits()`.  The field is looked up again, by its name alone, to be read and to be
written. -/
def setBits (s : Structure) (this : Pointer) (flagName : List Char) (value : ℕ) : Outcome := do
  let (flag, f) ← s.check (s.getFlag convert this flagName)
  s.check (verifySize f.info.type f.size)
  if bitsWidth f.info.type = none then
    .error (unexpectedFlagType flagName f.info.type, s)
  else if value &&& (flag.mask >>> flag.pos) ≠ value then
    .error (.thrown .invalidNumber
      ("value \"" ++ toString value ++ "\" does not fit in flag field \""
        ++ String.ofList flag.fieldName ++ "." ++ String.ofList flag.flagName ++ "\"."), s)
  else do
    let word ← s.check (s.getUinteger this f.info.name)
    s.setUinteger v this f.info.name (flag.insert word value)

/-! ### The flags that are found -/

variable {v convert} {s : Structure} {vb : VirtualBuffer} {this : Pointer} {path : List Char}
  {flag : FlagDefinition} {f : Field}

/-- A flag that is found is one of its field. -/
theorem findFlagDefinition_eq_ok {info : FieldInfo} {name : List Char}
    (h : findFlagDefinition convert info name = .ok flag) :
    ∃ x bitPos, parseBitField convert info.type info.fieldName = .ok x ∧ flag ∈ x.2 ∧
      FlagLayout x.2 bitPos := by
  obtain ⟨⟨name', flags⟩, hflags, h⟩ := bind_eq_ok.1 h
  obtain ⟨bitField, hparse⟩ := parseBitField_eq_ok hflags
  have hempty : FlagLayout [] 0 := ⟨by simp, by simp, .nil⟩
  refine ⟨_, _, hflags, ?_, (parseFlags_layout hempty hparse).1⟩
  dsimp only at h
  split at h
  · next flag' hfind =>
    cases h
    exact List.mem_of_find?_eq_some hfind
  · cases h

theorem fieldAt_eq_ok {p : Pos} (h : s.fieldAt p = .ok f) :
    f.pos = p ∧ s.fields.get? p = some (.field f.info f.sub f.offset f.size, f.items) := by
  unfold fieldAt at h
  split at h
  · next heq =>
    cases h
    exact ⟨rfl, heq⟩
  · cases h

/-- What a lookup finds is an object of the structure. -/
theorem lookup_eq_ok {name : List Char} (h : s.lookup this name = .ok f) :
    s.getField this name = .ok f.pos ∧ s.fieldAt f.pos = .ok f ∧
      s.fields.get? f.pos = some (.field f.info f.sub f.offset f.size, f.items) := by
  obtain ⟨p, hp, h⟩ := bind_eq_ok.1 h
  obtain ⟨rfl, hget⟩ := fieldAt_eq_ok h
  exact ⟨hp, h, hget⟩

theorem getFlag_eq_ok (h : s.getFlag convert this path = .ok (flag, f)) :
    (∃ name, s.lookup this name = .ok f) ∧ f.info.type.isBits = true ∧
      ∃ name, findFlagDefinition convert f.info name = .ok flag := by
  unfold getFlag at h
  split at h
  · cases h
  · next fieldName name heq =>
    obtain ⟨f', hf, h⟩ := bind_eq_ok.1 h
    split at h
    · next hbits =>
      obtain ⟨flag', hflag, h⟩ := bind_eq_ok.1 h
      cases h
      exact ⟨⟨_, hf⟩, hbits, _, hflag⟩
    · cases h

/-! ### Structures over a buffer -/

/-- The fields of a structure have bytes of their own in its buffer, and those of a fixed size
have that size. -/
structure Ready (s : Structure) (vb : VirtualBuffer) : Prop where
  buffer : s.buffer = some vb
  wellFormed : vb.WellFormed
  ordered : Ordered s.fields 0 vb.totalSize
  sized : ∀ p info d offset size items,
    s.fields.get? p = some (.field info d offset size, items) →
      ∀ width, info.type.shape = .fixed width → size = width
  root_named : NamedOnce s.fields
  named : ∀ p start hasBuffer fields,
    s.fields.get? p = some (.structure start hasBuffer, fields) → NamedOnce fields

/-- A structure that has parsed its fields is ready. -/
theorem ready_of_setVirtualBuffer (hvb : vb.WellFormed) (hne : vb.buffers ≠ []) {s₀ : Structure}
    (hs : s₀.description.closed = true) (h : s₀.setVirtualBuffer vb = .ok s) : s.Ready vb := by
  obtain ⟨⟨fields, stop⟩, hparse, h⟩ := bind_eq_ok.1 h
  cases h
  rcases parse_safe hvb hne hs (Nat.zero_le vb.totalSize) with hthrow | ⟨r, hr, hall⟩
  · obtain ⟨kind, message, hthrow⟩ := hthrow
    rw [hthrow] at hparse
    cases hparse
  rw [hr] at hparse
  cases hparse
  obtain ⟨all, -, hlaid, hstop, rfl⟩ := hall
  refine ⟨rfl, hvb, hlaid.ordered.keepLast.mono le_rfl hstop, ?_, namedOnce_keepLast all, ?_⟩
  · intro p info d offset size items hget width hshape
    obtain ⟨q, items', hq, -⟩ := get?_of_keepLast hget
    have hsized := hlaid.sized hq
    unfold Sized at hsized
    rwa [hshape] at hsized
  · intro p start hasBuffer fields hget
    obtain ⟨q, fields', -, rfl⟩ := get?_of_keepLast hget
    exact namedOnce_keepLast fields'

/-! ### One field -/

/-- A field of a fixed size in the buffer. -/
structure WordField (s : Structure) (vb : VirtualBuffer) (f : Field) (k : ℕ) : Prop where
  get_eq : s.fields.get? f.pos = some (.field f.info f.sub f.offset f.size, f.items)
  shape : f.info.type.shape = .fixed k
  size_eq : f.size = k
  inside : f.offset + k ≤ vb.totalSize
  verify : verifySize f.info.type f.size = .ok ()

theorem tableSize_of_shape {t : StructType} {k : ℕ} (h : t.shape = .fixed k) :
    t.tableSize = k := by
  cases t
  all_goals
    cases h
    try rfl

theorem Ready.word (hs : s.Ready vb) {k : ℕ}
    (hget : s.fields.get? f.pos = some (.field f.info f.sub f.offset f.size, f.items))
    (hshape : f.info.type.shape = .fixed k) : WordField s vb f k := by
  have hsize := hs.sized _ _ _ _ _ _ hget k hshape
  have hin := (hs.ordered.inside hget).2
  simp only [extent, ownSize, hshape, hsize] at hin
  refine ⟨hget, hshape, hsize, hin, ?_⟩
  unfold verifySize
  rw [tableSize_of_shape hshape, hsize, if_neg (not_not.2 rfl)]

theorem shape_of_bitsWidth {t : StructType} {k : ℕ} (h : bitsWidth t = some k) :
    t.shape = .fixed k ∧ getUintegerWidth t = some k ∧ setUintegerWidth t = some k ∧ k ≤ 8 := by
  cases t
  all_goals
    cases h
    try exact ⟨rfl, rfl, rfl, by decide⟩

theorem shape_of_getUintegerWidth {t : StructType} {k : ℕ} (h : getUintegerWidth t = some k) :
    t.shape = .fixed k := by
  cases t
  all_goals
    cases h
    try rfl

theorem shape_of_setUintegerWidth {t : StructType} {k : ℕ} (h : setUintegerWidth t = some k) :
    t.shape = .fixed k := by
  cases t
  all_goals
    cases h
    try rfl

theorem Ready.pread_eq (hs : s.Ready vb) {size offset : ℕ} (h : offset + size ≤ vb.totalSize) :
    s.pread size offset = .ok (vb.contents.slice offset size) := by
  unfold Structure.pread
  rw [hs.buffer]
  exact vb.pread_full_eq hs.wellFormed h

/-- What a field holds is read. -/
theorem WordField.getUinteger_eq (hs : s.Ready vb) {k : ℕ} {name : List Char}
    (hf : s.lookup this name = .ok f) (hword : WordField s vb f k)
    (hwidth : getUintegerWidth f.info.type = some k) :
    s.getUinteger this name = .ok (ofBytes (vb.contents.slice f.offset k)) := by
  unfold getUinteger getNumber
  simp only [hf, ok_bind, hword.verify, hwidth, hs.pread_eq hword.inside]

/-- A field that is read has one of the types. -/
theorem getUinteger_eq_ok {name : List Char} {n : ℕ} (h : s.getUinteger this name = .ok n) :
    ∃ g k, s.lookup this name = .ok g ∧ getUintegerWidth g.info.type = some k := by
  obtain ⟨bytes, h, -⟩ := bind_eq_ok.1 h
  obtain ⟨g, hg, h⟩ := bind_eq_ok.1 h
  obtain ⟨⟨⟩, -, h⟩ := bind_eq_ok.1 h
  split at h
  · next k hk => exact ⟨g, k, hg, hk⟩
  · cases h

/-- A field that is written has one of the types. -/
theorem setUinteger_eq_ok {name : List Char} {n : ℕ} {s' : Structure}
    (hf : s.lookup this name = .ok f) (h : s.setUinteger v this name n = .ok s') :
    ∃ k, setUintegerWidth f.info.type = some k := by
  unfold setUinteger setNumber at h
  simp only [check, hf, Except.mapError, ok_bind] at h
  obtain ⟨⟨⟩, -, h⟩ := bind_eq_ok.1 h
  split at h
  · next k hk => exact ⟨k, hk⟩
  · cases h

/-- The buffer after a write. -/
def Wrote (s : Structure) (vb : VirtualBuffer) (offset : ℕ) (bytes : Bytes) (s' : Structure) :
    Prop :=
  ∃ vb', s' = { s with buffer := some vb' } ∧ vb.Became vb' (vb.contents.overwrite offset bytes)

/-- What is given is written. -/
theorem WordField.setUinteger_eq (hs : s.Ready vb)
    (hsafe : ∀ size offset, WriteSafe [] vb.buffers size offset) {k : ℕ} {name : List Char}
    (hf : s.lookup this name = .ok f) (hword : WordField s vb f k)
    (hwidth : setUintegerWidth f.info.type = some k) (value : ℕ) :
    ∃ s', s.setUinteger v this name value = .ok s' ∧
      Wrote s vb f.offset (toBytes k value) s' := by
  have hin := hword.inside
  obtain ⟨vb', hrun, hbecame⟩ := vb.pwrite_eq v hs.wellFormed (toBytes k value) f.offset false
    (by omega) (fun _ => by rw [UInt512.length_toBytes]; exact hin) (hsafe _ _)
  refine ⟨{ s with buffer := some vb' }, ?_, vb', rfl, hbecame⟩
  unfold setUinteger setNumber
  simp only [check, hf, hword.verify, hwidth, Except.mapError, ok_bind]
  unfold Structure.pwrite
  rw [hs.buffer]
  dsimp only
  rw [hrun]
  rfl

/-! ### After a write -/

theorem getFlag_withBuffer (hs : s.Ready vb) (vb' : VirtualBuffer) (this : Pointer)
    (path : List Char) :
    ({ s with buffer := some vb' } : Structure).getFlag convert this path
      = s.getFlag convert this path := by
  have hderef (this : Pointer) :
      ({ s with buffer := some vb' } : Structure).deref this = s.deref this := by
    cases this with
    | none =>
      rw [deref, deref, hs.buffer]
      rfl
    | some q => rfl
  unfold getFlag
  split
  · rfl
  · unfold lookup getField
    rw [hderef]
    rfl

/-- A structure stays ready, with the same objects. -/
theorem Ready.wrote (hs : s.Ready vb) {offset : ℕ} {bytes : Bytes} {s' : Structure}
    (hle : offset + bytes.length ≤ vb.totalSize) (h : Wrote s vb offset bytes s') :
    ∃ vb', s' = { s with buffer := some vb' } ∧ s'.Ready vb' ∧ vb'.totalSize = vb.totalSize ∧
      vb'.contents = vb.contents.overwrite offset bytes := by
  obtain ⟨vb', rfl, hbecame⟩ := h
  have htotal : vb'.totalSize = vb.totalSize := by
    rw [← hbecame.length_eq, List.length_overwrite_of_le, hs.wellFormed.length_contents]
    rw [hs.wellFormed.length_contents]
    exact hle
  refine ⟨vb', rfl, ⟨rfl, hbecame.wellFormed, ?_, hs.sized, hs.root_named, hs.named⟩, htotal,
    hbecame.contents⟩
  rw [htotal]
  exact hs.ordered

/-- The bits of a flag are read from the bytes of its field. -/
theorem getBits_eq (hs : s.Ready vb) (hflag : s.getFlag convert this path = .ok (flag, f)) :
    s.getBits convert this path =
      match bitsWidth f.info.type with
      | some k => .ok (flag.extract (ofBytes (vb.contents.slice f.offset k)))
      | none => .error (unexpectedFlagType path f.info.type) := by
  obtain ⟨⟨name, hf⟩, hbits, -⟩ := getFlag_eq_ok hflag
  obtain ⟨-, -, hget⟩ := lookup_eq_ok hf
  obtain ⟨k, hshape⟩ : ∃ k, f.info.type.shape = .fixed k := by
    cases h : f.info.type
    all_goals
      rw [h] at hbits
      cases hbits
      try exact ⟨_, rfl⟩
  have hword := hs.word hget hshape
  unfold getBits
  simp only [hflag, ok_bind, hword.verify]
  split
  · next k' hwidth =>
    rw [hs.pread_eq, ok_bind]
    rw [(shape_of_bitsWidth hwidth).1, Shape.fixed.injEq] at hshape
    rw [hshape]
    exact hword.inside
  · rfl

/-! ### Writing a flag -/

/-- A write of a flag that succeeds has written to the field that the name of the flag's field
leads to. -/
theorem setBits_eq_ok (hs : s.Ready vb)
    (hsafe : ∀ size offset, WriteSafe [] vb.buffers size offset)
    (hflag : s.getFlag convert this path = .ok (flag, f)) {value : ℕ} {s' : Structure}
    (h : s.setBits v convert this path value = .ok s') :
    ∃ g k, bitsWidth f.info.type ≠ none ∧ s.lookup this f.info.name = .ok g ∧
      WordField s vb g k ∧
      Wrote s vb g.offset
        (toBytes k (flag.insert (ofBytes (vb.contents.slice g.offset k)) value)) s' := by
  unfold setBits at h
  simp only [check, hflag, Except.mapError, ok_bind] at h
  cases hverify : verifySize f.info.type f.size with
  | error e =>
    rw [hverify] at h
    cases h
  | ok _ =>
    simp only [hverify, ok_bind] at h
    split at h
    · cases h
    · next hwidth =>
      split at h
      · cases h
      cases hread : s.getUinteger this f.info.name with
      | error e =>
        rw [hread] at h
        cases h
      | ok word =>
        simp only [hread, ok_bind] at h
        obtain ⟨g, k, hg, hgetWidth⟩ := getUinteger_eq_ok hread
        have hword := hs.word (lookup_eq_ok hg).2.2 (shape_of_getUintegerWidth hgetWidth)
        have hsetWidth : setUintegerWidth g.info.type = some k := by
          obtain ⟨k', hk'⟩ := setUinteger_eq_ok hg h
          have heq := (shape_of_setUintegerWidth hk').symm.trans
            (shape_of_getUintegerWidth hgetWidth)
          rw [hk', Shape.fixed.inj heq]
        rw [hword.getUinteger_eq hs hg hgetWidth, Except.ok.injEq] at hread
        subst hread
        obtain ⟨s'', hrun, hwrote⟩ := hword.setUinteger_eq (v := v) hs hsafe hg hsetWidth
          (flag.insert (ofBytes (vb.contents.slice g.offset k)) value)
        rw [hrun, Except.ok.injEq] at h
        subst h
        exact ⟨g, k, hwidth, hg, hword, hwrote⟩

/-- A value that fits is written, when the name of the flag's field leads to it. -/
theorem setBits_of_lookup (hs : s.Ready vb)
    (hsafe : ∀ size offset, WriteSafe [] vb.buffers size offset)
    (hflag : s.getFlag convert this path = .ok (flag, f)) {k : ℕ}
    (hwidth : bitsWidth f.info.type = some k) (hf : s.lookup this f.info.name = .ok f) {value : ℕ}
    (hvalue : value < 2 ^ flag.size) :
    ∃ s', s.setBits v convert this path value = .ok s' ∧
      Wrote s vb f.offset
        (toBytes k (flag.insert (ofBytes (vb.contents.slice f.offset k)) value)) s' := by
  obtain ⟨-, -, name, hdef⟩ := getFlag_eq_ok hflag
  obtain ⟨x, bitPos, -, hmem, hlayout⟩ := findFlagDefinition_eq_ok hdef
  obtain ⟨hshape, hget, hset, -⟩ := shape_of_bitsWidth hwidth
  have hword := hs.word (lookup_eq_ok hf).2.2 hshape
  have hfits := ((hlayout.wellFormed flag hmem).fits_iff value).2 hvalue
  obtain ⟨s', hrun, hwrote⟩ := hword.setUinteger_eq (v := v) hs hsafe hf hset
    (flag.insert (ofBytes (vb.contents.slice f.offset k)) value)
  refine ⟨s', ?_, hwrote⟩
  unfold setBits
  simp only [check, hflag, Except.mapError, ok_bind, hword.verify, hwidth, hfits, reduceCtorEq,
    if_false, not_true, ne_eq, hword.getUinteger_eq hs hf hget, hrun]

/-! ### The field that a name leads to -/

/-- **The name of a field leads to it from the structure it is in, and from no other one.** -/
theorem Ready.getField_name_iff (hs : s.Ready vb) (hname : IsFieldName f.info.name)
    (htype : f.info.type ≠ .renamed)
    (hget : s.fields.get? f.pos = some (.field f.info f.sub f.offset f.size, f.items))
    {pos : Pos} {fields : Forest Cached} (hthis : s.deref this = .ok (true, pos, fields)) :
    s.getField this f.info.name = .ok f.pos ↔ ∃ i, f.pos = pos ++ treePos i := by
  have hleads : Leads s this pos fields ∧ NamedOnce fields := by
    cases this with
    | none =>
      have hroot := hthis
      rw [deref, Except.ok.injEq, Prod.mk.injEq, Prod.mk.injEq] at hroot
      obtain ⟨-, rfl, rfl⟩ := hroot
      exact ⟨⟨hthis, Forest.at?_nil_pos _⟩, hs.root_named⟩
    | some q =>
      have hderef := hthis
      unfold deref at hthis
      dsimp only at hthis
      split at hthis
      · next heq =>
        cases hthis
        exact ⟨⟨hderef, Forest.at?_down_of_get? heq⟩, hs.named _ _ _ _ heq⟩
      · cases hthis
  obtain ⟨hleads, hnamed⟩ := hleads
  constructor
  · intro h
    unfold getField at h
    simp only [hthis, ok_bind, Bool.not_true, Bool.false_eq_true, if_false, if_neg hname.1,
      getFieldLoop_eq hname.2] at h
    obtain ⟨i, -, h⟩ := bind_eq_ok.1 h
    exact ⟨i, (Except.ok.inj h).symm⟩
  · rintro ⟨i, hpos⟩
    rw [hpos, Forest.get?_append hleads.at_eq, Forest.get?_treePos] at hget
    have hlookup := hleads.lookup_eq hname (hnamed i _ _ _ _ _ hget) hget htype
    rw [hpos]
    exact (lookup_eq_ok hlookup).1

/-! ### What writing a flag is for -/

/-- Nothing but a flag of a field is different: the objects are the same, the bytes of the other
fields, and the other flags. -/
structure OnlyFlag (convert : List Char → Option ℤ) (s s' : Structure) (flag : FlagDefinition)
    (f : Field) : Prop where
  description : s'.description = s.description
  objects : s'.fields = s.fields
  bytes : ∀ g : Field, s.fieldAt g.pos = .ok g → g.pos ≠ f.pos →
    s'.pread (ownSize g.info g.size) g.offset = s.pread (ownSize g.info g.size) g.offset
  flags : ∀ this path flag' f', s.getFlag convert this path = .ok (flag', f') →
    ¬ (f'.pos = f.pos ∧ flag' = flag) → s'.getBits convert this path = s.getBits convert this path

/-- Every value of the size of the flag can be set, is read then, and nothing else changes. -/
def SetsFlag (v : VectorCapacity) (convert : List Char → Option ℤ) (s : Structure) (this : Pointer)
    (path : List Char) (flag : FlagDefinition) (f : Field) : Prop :=
  ∀ value, value < 2 ^ flag.size → ∃ s', s.setBits v convert this path value = .ok s' ∧
    s'.getBits convert this path = .ok value ∧ OnlyFlag convert s s' flag f

theorem wellFormed_of_getFlag (h : s.getFlag convert this path = .ok (flag, f)) :
    flag.WellFormed := by
  obtain ⟨-, -, name, hdef⟩ := getFlag_eq_ok h
  obtain ⟨x, bitPos, -, hmem, hlayout⟩ := findFlagDefinition_eq_ok hdef
  exact hlayout.wellFormed flag hmem

/-- Two flags of one field are apart. -/
theorem apart_of_getFlag {this' : Pointer} {path' : List Char} {flag' : FlagDefinition}
    (h : s.getFlag convert this path = .ok (flag, f))
    (h' : s.getFlag convert this' path' = .ok (flag', f)) (hne : flag' ≠ flag) :
    flag.Apart flag' := by
  obtain ⟨-, -, name, hdef⟩ := getFlag_eq_ok h
  obtain ⟨-, -, name', hdef'⟩ := getFlag_eq_ok h'
  obtain ⟨x, bitPos, hx, hmem, hlayout⟩ := findFlagDefinition_eq_ok hdef
  obtain ⟨x', bitPos', hx', hmem', -⟩ := findFlagDefinition_eq_ok hdef'
  rw [hx, Except.ok.injEq] at hx'
  subst hx'
  have hapart : x.2.Pairwise FlagDefinition.Apart := hlayout.ordered.imp .inl
  exact hapart.forall hmem hmem' (Ne.symm hne)

theorem eq_of_pos_eq {g : Field} (hf : s.fieldAt f.pos = .ok f) (hg : s.fieldAt g.pos = .ok g)
    (h : g.pos = f.pos) : g = f := by
  rw [h, hf, Except.ok.injEq] at hg
  exact hg.symm

/-- A write to one field leaves the bytes of the others. -/
theorem WordField.slice_eq (hs : s.Ready vb) {g : Field} {k : ℕ} (hf : WordField s vb f k)
    (hg : s.fields.get? g.pos = some (.field g.info g.sub g.offset g.size, g.items))
    (hne : g.pos ≠ f.pos) {bytes : Bytes} (hlen : bytes.length = k) :
    (vb.contents.overwrite f.offset bytes).slice g.offset (ownSize g.info g.size)
      = vb.contents.slice g.offset (ownSize g.info g.size) := by
  have hapart := hs.ordered.apart hg hf.get_eq hne
  have hown : ownSize f.info f.size = k := by rw [ownSize, hf.shape, ← hf.size_eq]
  simp only [extent, hown] at hapart
  apply List.slice_overwrite_of_disjoint
  · rw [hlen, hs.wellFormed.length_contents]
    exact hf.inside
  · rw [hlen]
    exact hapart

theorem two_pow_mul (k : ℕ) : 256 ^ k = 2 ^ (8 * k) := by rw [Nat.pow_mul]

/-- The word in a field has the bits of the field. -/
theorem word_lt (l : Bytes) (offset k : ℕ) : ofBytes (l.slice offset k) < 2 ^ (8 * k) := by
  rw [← two_pow_mul]
  apply (UInt512.ofBytes_lt _).trans_le (Nat.pow_le_pow_right (by decide) _)
  exact List.length_take_le _ _

/-- The word in a field after a write. -/
theorem WordField.word_eq (hs : s.Ready vb) {k : ℕ} (hf : WordField s vb f k) {n : ℕ}
    {s' : Structure} (h : Wrote s vb f.offset (toBytes k n) s') :
    ∃ vb', s' = { s with buffer := some vb' } ∧ s'.Ready vb' ∧
      vb'.totalSize = vb.totalSize ∧
      vb'.contents = vb.contents.overwrite f.offset (toBytes k n) ∧
      ofBytes (vb'.contents.slice f.offset k) = n % 2 ^ (8 * k) := by
  have hin := hf.inside
  obtain ⟨vb', rfl, hs', htotal, hcontents⟩ :=
    hs.wrote (by rw [UInt512.length_toBytes]; exact hin) h
  refine ⟨vb', rfl, hs', htotal, hcontents, ?_⟩
  have hlen := UInt512.length_toBytes k n
  rw [hcontents, List.slice_overwrite_start (by rw [hs.wellFormed.length_contents]; omega)
    (Nat.le_of_eq hlen.symm), List.take_of_length_le (Nat.le_of_eq hlen), ← two_pow_mul,
    UInt512.ofBytes_toBytes]

/-- A write of a flag changes nothing else. -/
theorem onlyFlag_of_wrote (hs : s.Ready vb)
    (hflag : s.getFlag convert this path = .ok (flag, f)) {k : ℕ}
    (hwidth : bitsWidth f.info.type = some k) {value : ℕ} (hvalue : value < 2 ^ flag.size)
    (hin : flag.pos + flag.size ≤ 8 * k) {s' : Structure}
    (h : Wrote s vb f.offset
      (toBytes k (flag.insert (ofBytes (vb.contents.slice f.offset k)) value)) s') :
    OnlyFlag convert s s' flag f := by
  have hwell := wellFormed_of_getFlag hflag
  obtain ⟨⟨name, hlookup⟩, -, -⟩ := getFlag_eq_ok hflag
  obtain ⟨-, hat, hget⟩ := lookup_eq_ok hlookup
  obtain ⟨hshape, -, -, hk⟩ := shape_of_bitsWidth hwidth
  have hword := hs.word hget hshape
  have hlt := word_lt vb.contents f.offset k
  have hlt' := hwell.insert_lt hlt (by omega) hvalue hin
  have hlt64 : ofBytes (vb.contents.slice f.offset k) < 2 ^ 64 :=
    hlt.trans_le (Nat.pow_le_pow_right (by decide) (by omega))
  obtain ⟨vb', rfl, hs', htotal, hcontents, hnew⟩ := hword.word_eq hs h
  rw [Nat.mod_eq_of_lt hlt'] at hnew
  have hslice {g : Field} (hg : s.fieldAt g.pos = .ok g) (hne : g.pos ≠ f.pos) :
      vb'.contents.slice g.offset (ownSize g.info g.size)
        = vb.contents.slice g.offset (ownSize g.info g.size) := by
    rw [hcontents]
    exact hword.slice_eq hs (fieldAt_eq_ok hg).2 hne (UInt512.length_toBytes k _)
  refine ⟨rfl, rfl, fun g hg hne => ?_, fun this' path' flag' g hflag' hne => ?_⟩
  · have hle := (hs.ordered.inside (fieldAt_eq_ok hg).2).2
    rw [hs'.pread_eq (by rw [htotal]; exact hle), hs.pread_eq hle, hslice hg hne]
  · rw [getBits_eq hs' (by rw [getFlag_withBuffer hs]; exact hflag'), getBits_eq hs hflag']
    obtain ⟨⟨name', hlookup'⟩, -, -⟩ := getFlag_eq_ok hflag'
    obtain ⟨-, hat', hget'⟩ := lookup_eq_ok hlookup'
    cases hwidth' : bitsWidth g.info.type with
    | none => rfl
    | some k' =>
      dsimp only
      congr 1
      by_cases hpos : g.pos = f.pos
      · -- another flag of the same field
        obtain rfl := eq_of_pos_eq hat hat' hpos
        rw [hwidth, Option.some.injEq] at hwidth'
        subst hwidth'
        have hapart := apart_of_getFlag hflag hflag' fun heq => hne ⟨rfl, heq⟩
        rw [hnew, hwell.extract_insert_of_apart (wellFormed_of_getFlag hflag') hlt64 hvalue hapart]
      · have hshape' := (shape_of_bitsWidth hwidth').1
        have hown : ownSize g.info g.size = k' := by
          rw [ownSize, hshape', ← (hs.word hget' hshape').size_eq]
        have hsame := hslice hat' hpos
        rw [hown] at hsame
        rw [hsame]

/-- The value that is read after it was set is in the field that was written, and the field of the
flag is as it was when that is another one. -/
theorem SetsFlag.read_back (h : SetsFlag v convert s this path flag f) (hs : s.Ready vb)
    (hsafe : ∀ size offset, WriteSafe [] vb.buffers size offset)
    (hflag : s.getFlag convert this path = .ok (flag, f)) {k : ℕ}
    (hwidth : bitsWidth f.info.type = some k) {value : ℕ} (hvalue : value < 2 ^ flag.size) :
    ∃ g, s.lookup this f.info.name = .ok g ∧
      (g.pos ≠ f.pos → flag.extract (ofBytes (vb.contents.slice f.offset k)) = value) ∧
      (g = f → ∃ n, flag.extract (n % 2 ^ (8 * k)) = value) := by
  obtain ⟨⟨name, hlookup⟩, -, -⟩ := getFlag_eq_ok hflag
  obtain ⟨-, -, hget⟩ := lookup_eq_ok hlookup
  have hword := hs.word hget (shape_of_bitsWidth hwidth).1
  obtain ⟨s', hrun, hread, -⟩ := h value hvalue
  obtain ⟨g, k', -, hg, hwordg, hwrote⟩ := setBits_eq_ok hs hsafe hflag hrun
  obtain ⟨vb', rfl, hs', -, hcontents, hnew⟩ := hwordg.word_eq hs hwrote
  rw [getBits_eq hs' (by rw [getFlag_withBuffer hs]; exact hflag), hwidth] at hread
  dsimp only at hread
  rw [Except.ok.injEq] at hread
  refine ⟨g, hg, fun hne => ?_, ?_⟩
  · have hown : ownSize f.info f.size = k := by rw [ownSize, hword.shape, ← hword.size_eq]
    have hsame := hwordg.slice_eq hs hget (Ne.symm hne) (UInt512.length_toBytes k'
      (flag.insert (ofBytes (vb.contents.slice g.offset k')) value))
    rw [hown, ← hcontents] at hsame
    rw [← hsame]
    exact hread
  · rintro rfl
    obtain rfl := Shape.fixed.inj (hwordg.shape.symm.trans hword.shape)
    rw [hnew] at hread
    exact ⟨_, hread⟩

/-- **A flag can be set and read, and nothing else changes, if and only if** the name of its field
leads to the field from the structure the call is made on, the field has 64 bits at most, and the
flag is among them. -/
theorem setsFlag_iff (hs : s.Ready vb)
    (hsafe : ∀ size offset, WriteSafe [] vb.buffers size offset)
    (hflag : s.getFlag convert this path = .ok (flag, f)) :
    SetsFlag v convert s this path flag f ↔
      s.getField this f.info.name = .ok f.pos ∧
        ∃ k, bitsWidth f.info.type = some k ∧ flag.pos + flag.size ≤ 8 * k := by
  have hwell := wellFormed_of_getFlag hflag
  have hsize := hwell.size_pos
  obtain ⟨⟨name, hlookup⟩, -, -⟩ := getFlag_eq_ok hflag
  obtain ⟨-, hat, hget⟩ := lookup_eq_ok hlookup
  constructor
  · intro h
    obtain ⟨k, hwidth⟩ : ∃ k, bitsWidth f.info.type = some k := by
      obtain ⟨s', hrun, -⟩ := h 0 (Nat.two_pow_pos _)
      obtain ⟨g, k, hwidth, -⟩ := setBits_eq_ok hs hsafe hflag hrun
      exact Option.ne_none_iff_exists'.1 hwidth
    have hlookup' : s.lookup this f.info.name = .ok f := by
      obtain ⟨g, hg, hother, -⟩ :=
        h.read_back hs hsafe hflag hwidth (Nat.two_pow_pos flag.size)
      obtain ⟨g', hg', hother', -⟩ :=
        h.read_back hs hsafe hflag hwidth (Nat.one_lt_two_pow hsize.ne')
      rw [hg, Except.ok.injEq] at hg'
      subst hg'
      by_cases hpos : g.pos = f.pos
      · rwa [eq_of_pos_eq hat (lookup_eq_ok hg).2.1 hpos] at hg
      · -- two values cannot both be what the field of the flag holds
        exact absurd ((hother hpos).symm.trans (hother' hpos)) (by decide)
    refine ⟨(lookup_eq_ok hlookup').1, k, hwidth, ?_⟩
    by_contra hout
    have htop : 2 ^ (flag.size - 1) < 2 ^ flag.size :=
      Nat.pow_lt_pow_right (by decide) (Nat.sub_lt hsize Nat.one_pos)
    obtain ⟨g, hg, -, hsame⟩ := h.read_back hs hsafe hflag hwidth htop
    rw [hlookup', Except.ok.injEq] at hg
    obtain ⟨n, hn⟩ := hsame hg.symm
    have hbit := hwell.extract_mod_lt n (Nat.not_le.1 hout)
    rw [hn, Nat.testBit_two_pow_self] at hbit
    cases hbit
  · rintro ⟨hfield, k, hwidth, hin⟩ value hvalue
    have hf : s.lookup this f.info.name = .ok f := by
      unfold lookup
      rw [hfield, ok_bind, hat]
    obtain ⟨hshape, -, -, hk⟩ := shape_of_bitsWidth hwidth
    have hword := hs.word hget hshape
    obtain ⟨s', hrun, hwrote⟩ := setBits_of_lookup (v := v) hs hsafe hflag hwidth hf hvalue
    refine ⟨s', hrun, ?_, onlyFlag_of_wrote hs hflag hwidth hvalue hin hwrote⟩
    have hlt := word_lt vb.contents f.offset k
    obtain ⟨vb', rfl, hs', -, -, hnew⟩ := hword.word_eq hs hwrote
    rw [Nat.mod_eq_of_lt (hwell.insert_lt hlt (by omega) hvalue hin)] at hnew
    rw [getBits_eq hs' (by rw [getFlag_withBuffer hs]; exact hflag), hwidth]
    dsimp only
    rw [hnew, hwell.extract_insert _ hvalue]
    exact hlt.trans_le (Nat.pow_le_pow_right (by decide) (by omega))

/-- A field of two flags. -/
def twoFlags : FieldInfo :=
  { fieldName := "x=a/b:2".toList, type := .bits8, flags := [['a'], ['b']] }

/-- The second flag can be set. -/
theorem setsFlag_iff_twoFlags : ∃ s flag f,
    ({ description := .field twoFlags .null .end } : Structure).setVirtualBuffer sevenBytes
        = .ok s ∧
      s.getFlag convertDigit none "x.b".toList = .ok (flag, f) ∧
      SetsFlag .libstdcxx convertDigit s none "x.b".toList flag f := by
  let s : Structure :=
    { description := .field twoFlags .null .end, buffer := some sevenBytes,
      fields := .node (.field twoFlags .null 0 1) .nil .nil }
  have hs : ({ description := .field twoFlags .null .end } : Structure).setVirtualBuffer sevenBytes
      = .ok s := rfl
  have hflags : parseBitField convertDigit twoFlags.type twoFlags.fieldName
      = .ok (['x'], [⟨['x'], ['a'], 0, 1, 1⟩, ⟨['x'], ['b'], 1, 2, 6⟩]) := by decide +kernel
  have hflag : s.getFlag convertDigit none "x.b".toList
      = .ok (⟨['x'], ['b'], 1, 2, 6⟩, ⟨[], twoFlags, .null, 0, 1, .nil⟩) := by
    have hlookup : s.lookup none ['x'] = .ok ⟨[], twoFlags, .null, 0, 1, .nil⟩ := rfl
    have hsplit : splitFlag "x.b".toList = some (['x'], ['b']) := by decide
    unfold getFlag findFlagDefinition
    rw [hsplit]
    dsimp only
    rw [hlookup, ok_bind, hflags]
    rfl
  have hready := ready_of_setVirtualBuffer wellFormed_sevenBytes (by decide) (by decide) hs
  exact ⟨s, _, _, hs, hflag,
    (setsFlag_iff hready (VirtualBuffer.writeSafe_of_owned (by decide)) hflag).2
      ⟨rfl, 1, rfl, by decide⟩⟩

/-- A field of one flag. -/
def oneFlag : FieldInfo := { fieldName := "x=a".toList, type := .bits8, flags := [['a']] }

/-- A structure that holds it. -/
def nest : FieldInfo := { fieldName := ['n'], type := .structure }

/-- The flag of a field in a structure is found, and cannot be set. -/
theorem not_setsFlag : ∃ s flag f,
    ({ description := .field nest (.field oneFlag .null .end) .end } : Structure).setVirtualBuffer
        sevenBytes = .ok s ∧
      s.getFlag convertDigit none "n.x.a".toList = .ok (flag, f) ∧
      ¬ SetsFlag .libstdcxx convertDigit s none "n.x.a".toList flag f := by
  let s : Structure :=
    { description := .field nest (.field oneFlag .null .end) .end, buffer := some sevenBytes,
      fields := .node (.field nest (.field oneFlag .null .end) 0 1)
        (.node (.structure 0 true) (.node (.field oneFlag .null 0 1) .nil .nil) .nil) .nil }
  have hflags : parseBitField convertDigit oneFlag.type oneFlag.fieldName
      = .ok (['x'], [⟨['x'], ['a'], 0, 1, 1⟩]) := by decide +kernel
  have hflag : s.getFlag convertDigit none "n.x.a".toList
      = .ok (⟨['x'], ['a'], 0, 1, 1⟩, ⟨[.down, .down], oneFlag, .null, 0, 1, .nil⟩) := by
    have hlookup : s.lookup none "n.x".toList
        = .ok ⟨[.down, .down], oneFlag, .null, 0, 1, .nil⟩ := rfl
    have hsplit : splitFlag "n.x.a".toList = some ("n.x".toList, ['a']) := by decide
    unfold getFlag findFlagDefinition
    rw [hsplit]
    dsimp only
    rw [hlookup, ok_bind, hflags]
    rfl
  refine ⟨s, _, _, rfl, hflag, fun h => ?_⟩
  obtain ⟨s', hrun, -⟩ := h 1 (by decide)
  -- the name of the field is looked up in the structure that holds the other one
  have hthrows : s.setBits .libstdcxx convertDigit none "n.x.a".toList 1
      = .error (.thrown .fieldNotFound
          "this description does not include a field named \"x\".", s) := by
    unfold setBits
    rw [hflag]
    rfl
  rw [hthrows] at hrun
  cases hrun

end Structure

end Prinbee
