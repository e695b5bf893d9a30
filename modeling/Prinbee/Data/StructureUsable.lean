import Prinbee.Data.Bits
import Prinbee.Data.ConvertRoundTrip
import Prinbee.Data.StructureFresh
import Prinbee.Lib.Run

/-!
# Using the fields of a new structure

A field can be used when its getters return the default of its description and its setters return.
This is so for all fields of a structure that was not changed, and after every run of calls that
keep it so.

Where a field is a structure it is not so: `init_buffer()` parses the description before there is
a buffer, and the pointer that the structure under the field is given stays null.

## Main definitions

* `Structure.Located` — a field of a structure that has a value.
* `Structure.FieldUsable`, `Structure.Usable` — the getters and the setters of all fields.

## Main results

* `Structure.Fresh.usable` — the fields of a structure that was not changed can be used.
* `Structure.getField_of_initBuffer` — the fields of a structure under a new one cannot.
* `Structure.usable_of_initBuffer` — the fields can be used in every run.
-/

namespace Prinbee

open Forest (Pos treePos)
open UInt512 (ofBytes toBytes)
open StructType (Shape)

namespace Structure

variable {v : VectorCapacity} {lib : Conversions} {s s' : Structure} {t u : Forest Stored}
  {this : Pointer} {pos : Pos} {info : FieldInfo} {d : Description} {size : ℕ} {data : Bytes}
  {items : Forest Stored}

/-! ### Using the fields -/

/-- A field of a structure that has a value. -/
structure Located (s : Structure) (t : Forest Stored) (this : Pointer) (p : Pos) (info : FieldInfo)
    (d : Description) (data : Bytes) (items : Forest Stored) : Prop where
  rep : Rep s t
  get_eq : t.get? p = some (.field info d data.length data, items)
  lookup_eq : s.lookup this info.name = .ok (found t p info d data.length data items)
  fit : Fit info data

variable {p : Pos} {k : ℕ}

/-- Where the bytes of a fixed size are. -/
theorem Located.split (h : Located s t this p info d data items)
    (hshape : info.type.shape = .fixed k ∨ info.type.shape = .char) :
    ∃ pre post, pre.length = start t p ∧ image t = pre ++ (data ++ post) := by
  obtain ⟨pre, post, hpre, himage, -⟩ := image_split h.get_eq
  rw [bytes_of_fit hshape] at himage
  exact ⟨pre, image items ++ post, hpre, by rw [himage]; simp only [List.append_assoc]⟩

/-- A value of a fixed size is read. -/
theorem Located.pread_eq (h : Located s t this p info d data items)
    (hshape : info.type.shape = .fixed k ∨ info.type.shape = .char) :
    s.pread data.length (start t p) = .ok data := by
  obtain ⟨pre, post, hpre, himage⟩ := h.split hshape
  rw [h.rep.contains.pread, himage, ← hpre, List.slice_append_middle]
  rw [himage, ← hpre]
  simp only [List.length_append]
  omega

/-- Some of the bytes of a value of a fixed size are written. -/
theorem Located.pwrite_eq (h : Located s t this p info d data items)
    (hshape : info.type.shape = .fixed k ∨ info.type.shape = .char) {l : Bytes}
    (hl : l.length = (image t).length) (hs : Contains s' l) (v : VectorCapacity)
    (bytes : Bytes) (n : ℕ) (hle : n + bytes.length ≤ data.length) :
    ∃ s'', s'.pwrite v bytes (start t p + n) = .ok s'' ∧
      Contains s'' (l.overwrite (start t p + n) bytes) := by
  obtain ⟨pre, post, hpre, himage⟩ := h.split hshape
  have hin : start t p + n + bytes.length ≤ l.length := by
    rw [hl, himage, ← hpre]
    simp only [List.length_append]
    omega
  obtain ⟨s'', hrun, -, -, hcontains⟩ := hs.pwrite v _ _ hin
  exact ⟨s'', hrun, hcontains⟩

theorem Located.length_eq (h : Located s t this p info d data items)
    (hshape : info.type.shape = .fixed k) : data.length = k := by
  have hfit := h.fit
  unfold Fit at hfit
  rwa [hshape] at hfit

theorem Located.verify (h : Located s t this p info d data items)
    (hshape : info.type.shape = .fixed k) : verifySize info.type data.length = .ok () := by
  rw [verifySize, if_neg (by rw [tableSize_of_shape hshape, h.length_eq hshape, not_not])]

/-- A field that holds a number is read. -/
theorem Located.getNumber_eq (h : Located s t this p info d data items)
    {width : StructType → Option ℕ} (hwidth : width info.type = some k)
    (hshape : info.type.shape = .fixed k) (expected : List StructType) :
    getNumber width expected s this info.name = .ok data := by
  unfold getNumber
  rw [h.lookup_eq, ok_bind]
  simp only [found_info, found_size, found_offset, h.verify hshape, ok_bind, hwidth]
  rw [← h.length_eq hshape]
  exact h.pread_eq (.inl hshape)

/-- A field that holds a number is written. -/
theorem Located.setNumber_ok (h : Located s t this p info d data items)
    {width : StructType → Option ℕ} (hwidth : width info.type = some k)
    (hshape : info.type.shape = .fixed k) (expected : List StructType) {bytes : ℕ → Bytes}
    (hbytes : (bytes k).length ≤ k) :
    ∃ s', setNumber v width expected bytes s this info.name = .ok s' := by
  obtain ⟨s', hrun, -⟩ := h.pwrite_eq (.inl hshape) rfl h.rep.contains v (bytes k) 0
    (by rw [h.length_eq hshape]; omega)
  refine ⟨s', ?_⟩
  unfold setNumber
  rw [h.lookup_eq]
  simp only [check, Except.mapError, ok_bind, found_info, found_size, found_offset,
    h.verify hshape, hwidth]
  exact hrun

/-- A floating point is read and written. -/
theorem Located.float (h : Located s t this p info d data items)
    (hshape : info.type.shape = .fixed k) :
    getFloat info.type s this info.name = .ok data ∧
      ∀ value, ∃ s', setFloat v info.type s this info.name value = .ok s' := by
  have hsize : info.type.tableSize.toNat = data.length := by
    rw [tableSize_of_shape hshape, h.length_eq hshape, Int.toNat_natCast]
  have htyped : s.lookupTyped this info.name info.type
      = .ok (found t p info d data.length data items) := by
    unfold lookupTyped
    rw [h.lookup_eq, ok_bind, found_info, if_neg (not_not.2 rfl)]
  constructor
  · unfold getFloat
    rw [htyped, ok_bind]
    simp only [found_size, found_offset, h.verify hshape, ok_bind, hsize]
    exact h.pread_eq (.inl hshape)
  · intro value
    obtain ⟨s', hrun, -⟩ := h.pwrite_eq (.inl hshape) rfl h.rep.contains v
      (value.take info.type.tableSize.toNat) 0
      (by rw [hsize, List.length_take]; omega)
    refine ⟨s', ?_⟩
    unfold setFloat
    rw [htyped]
    simp only [check, Except.mapError, ok_bind, found_size, found_offset, h.verify hshape]
    exact hrun

/-- Characters are read up to a null one, and written. -/
theorem Located.char (h : Located s t this p info d data items) (htype : info.type = .char) :
    s.getString this info.name = .ok (data.takeWhile (· ≠ 0)) ∧
      ∀ value : Bytes, value.length ≤ info.charSize →
        ∃ s', s.setString v this info.name value = .ok s' := by
  have hshape : info.type.shape = .char := by rw [htype]; rfl
  have hlen : data.length = info.charSize := by
    have hfit := h.fit
    unfold Fit at hfit
    rwa [hshape] at hfit
  have hsize : info.typeFieldSize = data.length := by rw [FieldInfo.typeFieldSize, hshape, hlen]
  constructor
  · unfold getString
    rw [h.lookup_eq, ok_bind]
    simp only [found_info, found_offset, htype, hsize, h.pread_eq (k := 0) (.inr hshape), ok_bind]
  · intro value hle
    rw [← hlen] at hle
    obtain ⟨s₁, hrun₁, hcontains⟩ := h.pwrite_eq (k := 0) (.inr hshape) rfl h.rep.contains v
      value 0 (by omega)
    have hlen₁ : ((image t).overwrite (start t p + 0) value).length = (image t).length := by
      obtain ⟨pre, post, hpre, himage⟩ := h.split (k := 0) (.inr hshape)
      apply List.length_overwrite_of_le
      rw [himage, ← hpre]
      simp only [List.length_append]
      omega
    obtain ⟨s₂, hrun₂, -⟩ := h.pwrite_eq (k := 0) (.inr hshape) hlen₁ hcontains v
      (List.replicate (data.length - value.length) 0) value.length
      (by rw [List.length_replicate]; omega)
    rw [Nat.add_zero] at hrun₁
    unfold setString
    rw [h.lookup_eq]
    simp only [check, Except.mapError, ok_bind, found_info, found_offset, htype, hsize,
      if_neg (Nat.not_lt.2 hle), hrun₁]
    split
    · exact ⟨s₂, hrun₂⟩
    · exact ⟨s₁, rfl⟩

/-- A string is read and written. -/
theorem Located.string (h : Located s t this p info d data .nil)
    (hshape : info.type.shape = .counted k) (htype : isPString info.type = true) :
    s.getString this info.name = .ok data ∧
      ∀ value : Bytes, value.length < 2 ^ 32 → value.length < 2 ^ (k * 8) →
        ∃ s', s.setString v this info.name value = .ok s' := by
  have hlt : data.length < 256 ^ k := by
    have hfit := h.fit
    unfold Fit at hfit
    rwa [hshape] at hfit
  have hcounted := h.rep.countedField h.get_eq hshape hlt
  constructor
  · have hread := hcounted.pread_size
    have hdata := hcounted.pread_data
    have hsize := hcounted.typeFieldSize
    simp only [found_info, found_offset] at hread hdata hsize
    unfold isPString at htype
    rw [decide_eq_true_iff] at htype
    unfold getString
    rw [h.lookup_eq, ok_bind]
    simp only [found_info, found_offset, found_size, hsize, hread, ok_bind, hcounted.ofBytes_size]
    rcases htype with htype | htype | htype
    all_goals
      rw [htype]
      simpa only [ne_eq, not_true_eq_false, if_false] using hdata
  · intro value h32 hvalue
    have hset := hcounted.setString_eq (v := v) h.lookup_eq htype h32
    rw [if_pos hvalue] at hset
    obtain ⟨s₁, -, hrun⟩ := hset
    exact ⟨_, hrun⟩

/-- A buffer is read and written. -/
theorem Located.buffer (h : Located s t this p info d data .nil) (hk : 0 < k)
    (hshape : info.type.shape = .counted k) (htype : isPBuffer info.type = true) :
    s.getBuffer this info.name = .ok data ∧
      ∀ value : Bytes, value.length < 2 ^ (k * 8) →
        ∃ s', s.setBuffer v this info.name value = .ok s' := by
  have hlt : data.length < 256 ^ k := by
    have hfit := h.fit
    unfold Fit at hfit
    rwa [hshape] at hfit
  have hcounted := h.rep.countedField h.get_eq hshape hlt
  unfold isPBuffer at htype
  rw [decide_eq_true_iff] at htype
  constructor
  · have hread := hcounted.pread_size
    have hdata := hcounted.pread_data
    have hsize := hcounted.typeFieldSize
    simp only [found_info, found_offset] at hread hdata hsize
    unfold getBuffer
    rw [h.lookup_eq, ok_bind]
    simp only [found_info, found_offset, found_size, hsize, hread, ok_bind, hcounted.ofBytes_size]
    rcases htype with htype | htype | htype
    all_goals
      rw [htype]
      simpa only [ne_eq, not_true_eq_false, if_false] using hdata
  · intro value hvalue
    obtain ⟨s', hrun, -⟩ := hcounted.setBuffer_eq (v := v) h.lookup_eq htype hk hvalue
    exact ⟨s', hrun⟩

/-- The items of an array have the buffer. -/
theorem Located.array (h : Located s t this p info d data items)
    (htype : isArray info.type = true) (hitems : items.Every fun a _ => a = .item) :
    ∃ ps, s.getArray this info.name = .ok ps ∧ ps.length = items.roots ∧
      ∀ q ∈ ps, ∃ pos fields, s.deref (some q) = .ok (true, pos, fields) := by
  unfold isArray at htype
  rw [decide_eq_true_iff] at htype
  refine ⟨(List.range items.roots).map fun i => p ++ .down :: treePos i, ?_, by simp, ?_⟩
  · unfold getArray
    rw [h.lookup_eq, ok_bind]
    simp only [found_info, found_pos, found_roots]
    rcases htype with htype | htype | htype
    all_goals rw [htype]
  · intro q hq
    obtain ⟨i, hi, rfl⟩ := List.mem_map.1 hq
    obtain ⟨a, fields, htree, rfl⟩ := hitems.tree? (List.mem_range.1 hi)
    have hget : t.get? (p ++ .down :: treePos i) = some (.item, fields) := by
      rw [show p ++ .down :: treePos i = p ++ [.down] ++ treePos i by simp,
        Forest.get?_append (Forest.at?_down_of_get? h.get_eq), Forest.get?_treePos, htree]
    have hpoints : Points t (some (p ++ .down :: treePos i)) _ fields := ⟨rfl, hget⟩
    exact ⟨_, _, (h.rep.leads hpoints).deref⟩

/-! ### Every field -/

/-- The types of floating points. -/
def isFloat (t : StructType) : Bool := t = .float32 ∨ t = .float64 ∨ t = .float128

/-- The getters of a field return its value, and its setters return.  The version of a structure
and a magic word have no setter, a field without bytes has no getter either. -/
structure FieldUsable (v : VectorCapacity) (s : Structure) (this : Pointer) (info : FieldInfo)
    (data : Bytes) : Prop where
  integer : (integerWidth info.type).isSome = true →
    s.getInteger this info.name = .ok (signedOf data) ∧
      ∀ value, ∃ s', s.setInteger v this info.name value = .ok s'
  get_uinteger : (getUintegerWidth info.type).isSome = true →
    s.getUinteger this info.name = .ok (ofBytes data)
  set_uinteger : (setUintegerWidth info.type).isSome = true →
    ∀ value, ∃ s', s.setUinteger v this info.name value = .ok s'
  large_integer : isLargeInteger info.type = true →
    s.getLargeInteger this info.name = .ok ⟨UInt512.ofMemory (signExtend data)⟩ ∧
      ∀ value, ∃ s', s.setLargeInteger v this info.name value = .ok s'
  get_large_uinteger : isGetLargeUinteger info.type = true →
    s.getLargeUinteger this info.name = .ok (UInt512.ofMemory data)
  set_large_uinteger : isSetLargeUinteger info.type = true →
    ∀ value, ∃ s', s.setLargeUinteger v this info.name value = .ok s'
  float : isFloat info.type = true →
    getFloat info.type s this info.name = .ok data ∧
      ∀ value, ∃ s', setFloat v info.type s this info.name value = .ok s'
  char : info.type = .char →
    s.getString this info.name = .ok (data.takeWhile (· ≠ 0)) ∧
      ∀ value : Bytes, value.length ≤ info.charSize →
        ∃ s', s.setString v this info.name value = .ok s'
  string : isPString info.type = true →
    s.getString this info.name = .ok data ∧
      ∀ value : Bytes, value.length < 2 ^ (info.typeFieldSize * 8) →
        ∃ s', s.setString v this info.name value = .ok s'
  buffer : isPBuffer info.type = true →
    s.getBuffer this info.name = .ok data ∧
      ∀ value : Bytes, value.length < 2 ^ (info.typeFieldSize * 8) →
        ∃ s', s.setBuffer v this info.name value = .ok s'
  array : isArray info.type = true →
    ∃ ps, s.getArray this info.name = .ok ps ∧
      ∀ q ∈ ps, ∃ pos fields, s.deref (some q) = .ok (true, pos, fields)
  «structure» : info.type = .structure →
    ∃ q, s.getStructure this info.name = .ok q ∧
      ∃ pos fields, s.deref (some q) = .ok (true, pos, fields)

/-- Every field of every structure can be used, and has the default of its description. -/
def Usable (v : VectorCapacity) (lib : Conversions) (s : Structure) : Prop :=
  ∀ this hasBuffer pos fields, s.deref this = .ok (hasBuffer, pos, fields) →
    ∀ i info d offset size items,
      fields.tree? i = some (.field info d offset size, items) →
        ∃ data, defaultData lib info = .ok data ∧ FieldUsable v s this info data

/-- The bytes of the types of integers. -/
theorem shape_of_integerWidth {type : StructType} (h : integerWidth type = some k) :
    type.shape = .fixed k := by
  cases type
  all_goals
    cases h
    try rfl

theorem shape_of_large {type : StructType}
    (h : isLargeInteger type = true ∨ isGetLargeUinteger type = true ∨
      isSetLargeUinteger type = true) :
    type.shape = .fixed type.tableSize.toNat ∧ type.tableSize.toNat ≤ 64 := by
  revert h
  cases type <;> simp [isLargeInteger, isGetLargeUinteger, isSetLargeUinteger, StructType.shape,
    StructType.tableSize]

theorem shape_of_isFloat {type : StructType} (h : isFloat type = true) :
    ∃ k, type.shape = .fixed k := by
  revert h
  cases type <;> simp [isFloat, StructType.shape]

/-- **The fields of a structure that was not changed can be used.** -/
theorem Fresh.usable (hs : Fresh lib s) : Usable v lib s := by
  obtain ⟨t, hs⟩ := hs
  intro this hasBuffer pos fields hderef i info d offset size items' htree
  obtain ⟨-, u, hthis, rfl⟩ := hs.rep.points hderef
  obtain ⟨desc, hdesc, hover⟩ := hs.fields hthis
  rw [← Forest.get?_treePos, arrange, Forest.get?_layout, Forest.get?_treePos] at htree
  cases hu : u.tree? i with
  | none => rw [hu] at htree; cases htree
  | some x =>
    obtain ⟨a, items⟩ := x
    obtain ⟨info', d', size', data, rfl, hmem⟩ := hover.tree hu
    rw [hu] at htree
    cases htree
    have hget : t.get? (pos ++ treePos i) = some (.field info d size data, items) := by
      rw [hthis.get?_append, Forest.get?_treePos, hu]
    obtain ⟨hnode, -⟩ := hs.nodes.get? hget
    obtain rfl := hnode.size_eq
    obtain ⟨hname, hstructure, -⟩ := hdesc.1 info hmem
    have hlocated (htype : info.type ≠ .renamed) :
        Located s t this (pos ++ treePos i) info d data items :=
      ⟨hs.rep, hget, hs.rep.lookup hthis hname (hover.index_eq hdesc.2 hu) hu htype, hnode.fit⟩
    have hfixed {k : ℕ} (hshape : info.type.shape = .fixed k) :
        Located s t this (pos ++ treePos i) info d data items :=
      hlocated fun heq => by rw [heq] at hshape; cases hshape
    have hcounted {k : ℕ} (hshape : info.type.shape = .counted k) :
        Located s t this (pos ++ treePos i) info d data .nil := by
      have hnil := hnode.no_items fun k' hk' => by rw [hshape] at hk'; cases hk'
      rw [← hnil]
      exact hlocated fun heq => by rw [heq] at hshape; cases hshape
    refine ⟨data, hnode.default_eq, ?_⟩
    constructor
    case integer =>
      intro h
      obtain ⟨k, hk⟩ := Option.isSome_iff_exists.1 h
      have hshape := shape_of_integerWidth hk
      refine ⟨?_, fun value => ?_⟩
      · rw [getInteger, (hfixed hshape).getNumber_eq hk hshape, ok_bind]
      · exact (hfixed hshape).setNumber_ok hk hshape _ (UInt512.length_toBytes _ _).le
    case get_uinteger =>
      intro h
      obtain ⟨k, hk⟩ := Option.isSome_iff_exists.1 h
      have hshape := shape_of_getUintegerWidth hk
      rw [getUinteger, (hfixed hshape).getNumber_eq hk hshape, ok_bind]
    case set_uinteger =>
      intro h value
      obtain ⟨k, hk⟩ := Option.isSome_iff_exists.1 h
      have hshape := shape_of_setUintegerWidth hk
      exact (hfixed hshape).setNumber_ok hk hshape _ (UInt512.length_toBytes _ _).le
    case large_integer =>
      intro h
      obtain ⟨hshape, hle⟩ := shape_of_large (.inl h)
      refine ⟨?_, fun value => ?_⟩
      · rw [getLargeInteger, (hfixed hshape).getNumber_eq (if_pos h) hshape, ok_bind]
      · exact (hfixed hshape).setNumber_ok (if_pos h) hshape _ (length_memory_take _ hle).le
    case get_large_uinteger =>
      intro h
      obtain ⟨hshape, -⟩ := shape_of_large (.inr (.inl h))
      rw [getLargeUinteger, (hfixed hshape).getNumber_eq (if_pos h) hshape, ok_bind]
    case set_large_uinteger =>
      intro h value
      obtain ⟨hshape, hle⟩ := shape_of_large (.inr (.inr h))
      exact (hfixed hshape).setNumber_ok (if_pos h) hshape _ (length_memory_take _ hle).le
    case float =>
      intro h
      obtain ⟨k, hshape⟩ := shape_of_isFloat h
      exact (hfixed hshape).float hshape
    case char =>
      intro h
      exact (hlocated (by rw [h]; decide)).char h
    case string =>
      intro h
      obtain ⟨k, -, hshape⟩ := shape_of_counted (.inl h)
      have hsize : info.typeFieldSize = k := by rw [FieldInfo.typeFieldSize, hshape]
      obtain ⟨hget, hset⟩ := (hcounted hshape).string (v := v) hshape h
      refine ⟨hget, fun value hvalue => hset value ?_ (hsize ▸ hvalue)⟩
      have hle : k * 8 ≤ 32 := by
        revert hshape h
        cases info.type <;> simp [StructType.shape, isPString] <;> omega
      exact (hsize ▸ hvalue).trans_le (Nat.pow_le_pow_right (by decide) hle)
    case buffer =>
      intro h
      obtain ⟨k, hk, hshape⟩ := shape_of_counted (.inr h)
      have hsize : info.typeFieldSize = k := by rw [FieldInfo.typeFieldSize, hshape]
      rw [hsize]
      exact (hcounted hshape).buffer hk hshape h
    case array =>
      intro h
      obtain ⟨ps, hps, -, hall⟩ :=
        (hlocated fun heq => by rw [heq] at h; cases h).array h hnode.items_eq
      exact ⟨ps, hps, hall⟩
    case «structure» => exact fun h => absurd h hstructure

/-! ### The structures under a new one -/

/-- No structure under the root was given a buffer. -/
def Detached (t : Forest Cached) : Prop :=
  t.All fun a _ => ∀ offset hasBuffer, a = .structure offset hasBuffer → hasBuffer = false

theorem Detached.map_adjustOffset {t : Forest Cached} (h : Detached t) (c : ℕ) (diff : ℤ) :
    Detached (t.map (adjustOffset c diff)) := by
  induction t with
  | nil => exact trivial
  | node a sub next ihs ihn =>
    refine ⟨fun offset hasBuffer heq => ?_, ihs h.2.1, ihn h.2.2⟩
    cases a with
    | field info d o size => cases heq
    | «structure» o b =>
      cases heq
      exact h.1 o _ rfl

theorem Detached.modify_setSizeOf {t : Forest Cached} (h : Detached t) (size : ℕ) (p : Pos) :
    Detached (t.modify (setSizeOf size) p) := by
  induction t generalizing p with
  | nil => rw [Forest.modify_nil]; exact trivial
  | node a sub next ihs ihn =>
    cases p with
    | nil =>
      cases a with
      | field info d o n => exact ⟨fun _ _ heq => (nomatch heq), h.2.1, h.2.2⟩
      | «structure» o b => exact h
    | cons step p =>
      cases step with
      | down => exact ⟨h.1, ihs h.2.1 p, h.2.2⟩
      | next => exact ⟨h.1, h.2.1, ihn h.2.2 p⟩

/-- The structures of a field that is parsed without a buffer. -/
theorem parseItems_detached {parseOne : ℕ → Except Failure (Forest Cached × ℕ)}
    (hone : ∀ offset fields last, parseOne offset = .ok (fields, last) → Detached fields)
    {n offset last : ℕ} {t : Forest Cached} (h : parseItems false parseOne n offset = .ok (t, last)) :
    Detached t := by
  induction n generalizing offset t last with
  | zero =>
    cases h
    exact trivial
  | succ n ih =>
    simp only [parseItems, bind_eq_ok, Prod.exists, Except.ok.injEq, Prod.mk.injEq] at h
    obtain ⟨fields, after, hfields, rest, last', hrest, rfl, -⟩ := h
    refine ⟨fun _ _ heq => ?_, hone _ _ _ hfields, ih hrest⟩
    cases heq
    rfl

/-- A parse without a buffer gives none to the structures it makes. -/
theorem parse_detached {offset last : ℕ} {t : Forest Cached}
    (h : parse none d offset = .ok (t, last)) : Detached t := by
  induction d generalizing offset t last with
  | null => cases h
  | «end» =>
    cases h
    exact trivial
  | field info sub next ihs ihn =>
    rw [parse, bind_eq_ok] at h
    obtain ⟨⟨size, after⟩, -, h⟩ := h
    rw [bind_eq_ok] at h
    obtain ⟨⟨⟩, -, h⟩ := h
    have hnil : Detached .nil := trivial
    have hend {items : Forest Cached} {after : ℕ} (hitems : Detached items)
        {rest : Forest Cached} (hrest : parse none next after = .ok (rest, last))
        (ht : t = if hasName info.name rest then rest
          else .node (.field info sub offset size) items rest) : Detached t := by
      split at ht
      · rw [ht]
        exact ihn hrest
      · rw [ht]
        refine ⟨fun _ _ heq => ?_, hitems, ihn hrest⟩
        cases heq
    split at h
    · split at h
      · cases h
      · obtain ⟨rest, hrest, ht⟩ := exists_rest_of_parse h
        exact hend hnil hrest ht
    · split at h
      · cases h
      · split at h
        · obtain ⟨rest, hrest, ht⟩ := exists_rest_of_parse h
          exact hend hnil hrest ht
        · rw [bind_eq_ok] at h
          obtain ⟨⟨items, after'⟩, hitems, h⟩ := h
          obtain ⟨rest, hrest, ht⟩ := exists_rest_of_parse h
          exact hend (parseItems_detached (fun _ _ _ hone => ihs hone) hitems) hrest ht

/-- What the calls on the buffer leave alone. -/
theorem fields_withBuffer {x : Except Failure (VirtualBuffer × ℤ)} {n : ℤ}
    (h : s.withBuffer x = .ok (s', n)) : s'.fields = s.fields := by
  cases x with
  | ok y =>
    cases h
    rfl
  | error e => cases h

theorem fields_map_withBuffer {x : Except Failure (VirtualBuffer × ℤ)}
    (h : (s.withBuffer x).map Prod.fst = .ok s') : s'.fields = s.fields := by
  cases x with
  | ok y =>
    cases h
    rfl
  | error e => cases h

theorem fields_pwrite {bytes : Bytes} {offset : ℕ} (h : s.pwrite v bytes offset = .ok s') :
    s'.fields = s.fields := by
  unfold Structure.pwrite at h
  split at h
  · cases h
  · exact fields_map_withBuffer h

theorem fields_pinsert {bytes : Bytes} {offset : ℕ} (h : s.pinsert v bytes offset = .ok s') :
    s'.fields = s.fields := by
  unfold Structure.pinsert at h
  split at h
  · cases h
  · exact fields_map_withBuffer h

theorem fields_perase {size offset : ℕ} {n : ℤ} (h : s.perase size offset = .ok (s', n)) :
    s'.fields = s.fields := by
  unfold Structure.perase at h
  split at h
  · cases h
  · exact fields_withBuffer h

/-- A string gives no buffer to a structure. -/
theorem setString_detached (hs : Detached s.fields) {name : List Char} {value : Bytes}
    (h : s.setString v this name value = .ok s') : Detached s'.fields := by
  have hresize {s₁ : Structure} (hs₁ : s₁.fields = s.fields) (p : Pos) (n c : ℕ) (diff : ℤ) :
      Detached ((s₁.setSize p n).adjustOffsets c diff).fields := by
    rw [adjustOffsets_fields]
    exact (Detached.modify_setSizeOf (hs₁ ▸ hs) n p).map_adjustOffset c diff
  rw [setString, bind_eq_ok] at h
  obtain ⟨f, -, h⟩ := h
  split at h
  case h_1 =>
    dsimp only at h
    split at h
    · cases h
    · rw [bind_eq_ok] at h
      obtain ⟨s₁, h₁, h⟩ := h
      split at h
      · rw [fields_pwrite h, fields_pwrite h₁]
        exact hs
      · cases h
        rw [fields_pwrite h₁]
        exact hs
  case h_5 => cases h
  all_goals
    rw [bind_eq_ok] at h
    obtain ⟨bytes, -, h⟩ := h
    dsimp only at h
    split at h
    · cases h
    · split at h
      · cases h
      · split at h
        · simp only [bind_eq_ok, Except.ok.injEq] at h
          obtain ⟨s₁, h₁, rfl⟩ := h
          exact hresize (fields_pwrite h₁) _ _ _ _
        · split at h
          · simp only [bind_eq_ok, Except.ok.injEq] at h
            obtain ⟨s₁, h₁, s₂, h₂, s₃, h₃, rfl⟩ := h
            exact hresize (((fields_pinsert h₃).trans (fields_pwrite h₂)).trans
              (fields_pwrite h₁)) _ _ _ _
          · simp only [bind_eq_ok, Prod.exists, Except.ok.injEq] at h
            obtain ⟨s₁, h₁, s₂, h₂, s₃, n, h₃, s₄, rfl, rfl⟩ := h
            exact hresize (((fields_perase h₃).trans (fields_pwrite h₂)).trans
              (fields_pwrite h₁)) _ _ _ _

/-- A default gives no buffer to a structure. -/
theorem setDefault_detached (hs : Detached s.fields)
    (h : s.setDefault v lib this info = .ok s') : Detached s'.fields := by
  have hwrite {bytes : Bytes} {offset : ℕ} (h : s.pwrite v bytes offset = .ok s') :
      Detached s'.fields := by
    rw [fields_pwrite h]
    exact hs
  unfold setDefault at h
  split at h
  · split at h
    · simp only [bind_eq_ok, check_eq_ok] at h
      obtain ⟨f, -, value, -, h⟩ := h
      exact hwrite h
    · cases h
      exact hs
  · rw [bind_eq_ok] at h
    obtain ⟨f, -, h⟩ := h
    split at h
    case h_2 | h_3 | h_4 => exact setString_detached hs h
    case h_1 | h_5 =>
      simp only [bind_eq_ok, check_eq_ok] at h
      obtain ⟨value, -, h⟩ := h
      exact hwrite h

theorem setDefaults_detached (hs : Detached s.fields)
    (h : s.setDefaults v lib this d = .ok s') : Detached s'.fields := by
  induction d generalizing s with
  | null | «end» =>
    cases h
    exact hs
  | field info sub next _ ih =>
    rw [setDefaults, bind_eq_ok] at h
    obtain ⟨s₁, hone, hrest⟩ := h
    exact ih (setDefault_detached hs hone) hrest

/-- **After `init_buffer()` no field of a structure under the root can be used.** -/
theorem getField_of_initBuffer (h : s.initBuffer v lib = .ok s') {q : Pos} {hasBuffer : Bool}
    {fields : Forest Cached} (hq : s'.deref (some q) = .ok (hasBuffer, pos, fields))
    (name : List Char) :
    s'.getField (some q) name = .error (.thrown .logicError
      "trying to access a structure field when the f_buffer pointer is still null.") := by
  unfold initBuffer at h
  simp only [bind_eq_ok, check_eq_ok, Prod.exists] at h
  obtain ⟨fields', size, hparse, s₁, n, hbuffer, hdefaults⟩ := h
  have hdetached : Detached s'.fields := by
    refine setDefaults_detached ?_ hdefaults
    rw [fields_withBuffer hbuffer]
    exact parse_detached hparse
  have hnone : hasBuffer = false := by
    unfold deref at hq
    dsimp only at hq
    split at hq
    · next hget =>
      cases hq
      exact (hdetached.get? hget).1 _ _ rfl
    · cases hq
  unfold getField
  rw [hq, ok_bind, hnone]
  rfl

/-! ### Runs -/

/-- A call of `new_array_item()` on a structure. -/
def addItemStep (v : VectorCapacity) (lib : Conversions) (s : Structure)
    (call : Pointer × List Char) : Outcome :=
  (s.newArrayItem v lib call.1 call.2).map Prod.fst

/-- What a call returns is still so. -/
theorem Fresh.addItemStep (hlib : SizedConversions lib) {call : Pointer × List Char}
    (h : Fresh lib s) (hadd : Addable lib s call) (hstep : addItemStep v lib s call = .ok s') :
    Fresh lib s' := by
  unfold Structure.addItemStep at hstep
  cases hrun : s.newArrayItem v lib call.1 call.2 with
  | error e => rw [hrun] at hstep; cases hstep
  | ok x =>
    rw [hrun] at hstep
    cases hstep
    exact newArrayItem_fresh hlib h hadd hrun

/-- **Every run of calls of `new_array_item()` leaves fields that can be used**, where the
descriptions of the root and of the items are such that `init_buffer()` and the calls return. -/
theorem usable_of_initBuffer (hlib : SizedConversions lib) {verifyStart : Bool} {s₀ : Structure}
    (hnew : create d verifyStart = .ok s₀) (hd : AllSettable lib d)
    (hinit : s₀.initBuffer v lib = .ok s) {calls : List (Pointer × List Char)}
    (hcalls : Run.Along (Addable lib) (addItemStep v lib) s calls)
    (hrun : calls.foldlM (addItemStep v lib) s = .ok s') : Usable v lib s' := by
  have hdesc : s₀.description = d := by
    unfold create at hnew
    split at hnew
    · cases hnew
    · split at hnew
      · cases hnew
      · cases hnew
        rfl
  have hfresh : Fresh lib s := by
    have hfirst := (initBuffer_fresh hlib (hdesc ▸ hd) hinit).1
    exact ⟨_, hfirst⟩
  exact (Run.Along.invariant (fun _ _ _ => Fresh.addItemStep hlib) hfresh hcalls hrun).usable

/-- A string with a default. -/
def label : Description :=
  .field { fieldName := ['s'], type := .p8string, defaultValue := some [97, 98] } .null .end

/-- A number, an array of strings, and a version after it. -/
def shelf : Description :=
  .field { fieldName := ['a'], type := .uint8, defaultValue := some [55] } .null <|
  .field { fieldName := ['l'], type := .array8 } label <|
  .field { fieldName := ['e'], type := .structureVersion, minVersion := (1, 2) } .null .end

theorem allSettable_label : AllSettable hexConversions label := by
  refine ⟨List.forall_mem_cons.2 ⟨⟨by decide, by decide, fun value hvalue => ?_⟩,
    List.forall_mem_nil _⟩, by decide⟩
  cases hvalue
  exact ⟨fun _ => by decide, fun h => nomatch h⟩

theorem allSettable_shelf : AllSettable hexConversions shelf := by
  have hplain {info : FieldInfo} (hname : IsFieldName info.name) (htype : info.type ≠ .structure)
      (hstring : isPString info.type = false) (hbuffer : isPBuffer info.type = false) :
      Settable hexConversions info := by
    refine ⟨hname, htype, fun _ _ => ⟨fun h => ?_, fun h => ?_⟩⟩
    · rw [hstring] at h
      cases h
    · rw [hbuffer] at h
      cases h
  exact ⟨List.forall_mem_cons.2 ⟨hplain (by decide) (by decide) rfl rfl,
    List.forall_mem_cons.2 ⟨hplain (by decide) (by decide) rfl rfl,
      List.forall_mem_cons.2 ⟨hplain (by decide) (by decide) rfl rfl, List.forall_mem_nil _⟩⟩⟩,
    by decide⟩

theorem eq_ok_after {x : Outcome} (h : x.isOk = true) : x = .ok (after x) := by
  cases x with
  | ok s => rfl
  | error e => cases h

/-- The defaults are there, also in an item that was added. -/
theorem usable_of_initBuffer_shelf : ∃ s₀ s s', create shelf false = .ok s₀ ∧
    s₀.initBuffer .libstdcxx hexConversions = .ok s ∧
    [(none, ['l'])].foldlM (addItemStep .libstdcxx hexConversions) s = .ok s' ∧
    Usable .libstdcxx hexConversions s' := by
  let s₀ : Structure := { description := shelf }
  let s := after (s₀.initBuffer .libstdcxx hexConversions)
  let s' := after (addItemStep .libstdcxx hexConversions s (none, ['l']))
  have hnew : create shelf false = .ok s₀ := rfl
  have hinit : s₀.initBuffer .libstdcxx hexConversions = .ok s := rfl
  have hstep : addItemStep .libstdcxx hexConversions s (none, ['l']) = .ok s' :=
    eq_ok_after (by decide)
  have hrun : [(none, ['l'])].foldlM (addItemStep .libstdcxx hexConversions) s = .ok s' := by
    rw [List.foldlM_cons, hstep]
    rfl
  have hlib : SizedConversions hexConversions := fun _ _ _ h => nomatch h
  have hfirst := (initBuffer_fresh hlib allSettable_shelf hinit).1
  have hindex : index ['l'] (flat (declared hexConversions) shelf) = some 1 := rfl
  have hlookup := hfirst.rep.lookup (context_root.points _) (by decide) hindex rfl (by decide)
  have hadd : Addable hexConversions s (none, ['l']) := by
    intro f hf
    rw [hlookup] at hf
    cases hf
    exact ⟨.inl rfl, allSettable_label, .inl rfl⟩
  exact ⟨s₀, s, s', hnew, hinit, hrun, usable_of_initBuffer hlib hnew allSettable_shelf hinit
    (.cons hadd hstep (Run.along_nil _ _ _)) hrun⟩

/-- A structure in a structure. -/
def box : Description :=
  .field { fieldName := ['n'], type := .structure }
    (.field { fieldName := ['x'], type := .uint8 } .null .end) .end

/-- The structure is found, and its field can neither be read nor written. -/
theorem not_usable_box : ∃ s₀ s q, create box false = .ok s₀ ∧
    s₀.initBuffer .libstdcxx hexConversions = .ok s ∧ s.getStructure none ['n'] = .ok q ∧
    s.getUinteger (some q) ['x'] = .error (.thrown .logicError
      "trying to access a structure field when the f_buffer pointer is still null.") ∧
    ¬ Usable .libstdcxx hexConversions s := by
  let s₀ : Structure := { description := box }
  let s := after (s₀.initBuffer .libstdcxx hexConversions)
  have hthrows : s.getUinteger (some [.down]) ['x'] = .error (.thrown .logicError
      "trying to access a structure field when the f_buffer pointer is still null.") := rfl
  refine ⟨s₀, s, [.down], rfl, rfl, rfl, hthrows, fun h => ?_⟩
  obtain ⟨data, -, husable⟩ := h (some [.down]) false [.down, .down] _ rfl 0 _ _ _ _ _ rfl
  have hread := husable.get_uinteger rfl
  rw [show FieldInfo.name { fieldName := ['x'], type := .uint8 } = ['x'] from rfl, hthrows] at hread
  cases hread

end Structure

end Prinbee
