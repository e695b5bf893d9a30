import Mathlib.Data.List.TakeWhile
import Prinbee.Data.StructureValues

/-!
# The first values of a structure

A description gives a field the text of its default, or nothing, and then the field is zero or
empty.  `init_buffer()` and `new_array_item()` parse the description where there is no buffer, so
with all sizes null, write as many zeros, and then `set_defaults()` writes the defaults over these,
one field after the other.

What follows is about the descriptions where this goes well: `Structure.AllSettable` says which.

## Main definitions

* `Structure.defaultData` — the bytes of the default of a field, without their count.
* `Structure.Fit` — the size of the bytes of a field.
* `Structure.Settable`, `Structure.AllSettable` — names that a lookup finds, no structure, no
  buffer with bytes.
* `Structure.flat` — the fields of a description, without items.
* `Structure.Context` — the place of the fields of one structure among all values.

## Main results

* `Structure.parse_none` — a parse without a buffer finds the objects over zeros.
* `Structure.setDefaults_ok` — the loop over the fields gives all of them their default.
-/

namespace Prinbee

open Forest (Pos treePos)
open UInt512 (ofBytes toBytes)
open StructType (Shape)

namespace Description

/-- The fields. -/
def infos : Description → List FieldInfo
  | .field info _ next => info :: infos next
  | _ => []

theorem names_eq (d : Description) : d.names = d.infos.map FieldInfo.name := by
  induction d with
  | null => rfl
  | «end» => rfl
  | field info sub next _ ih => rw [names, infos, List.map_cons, ih]

end Description

namespace Structure

/-- The bytes of a field without a default: zeros of a fixed size, or none. -/
def zeros (info : FieldInfo) : Bytes :=
  match info.type.shape with
  | .fixed width => List.replicate width 0
  | .char => List.replicate info.charSize 0
  | _ => []

/-- The types of buffers that are preceded by their size. -/
def isPBuffer (t : StructType) : Bool := t = .buffer8 ∨ t = .buffer16 ∨ t = .buffer32

/-- The bytes of the default of a field, without the count of a string or of a buffer. -/
def defaultData (lib : Conversions) (info : FieldInfo) : Except Failure Bytes :=
  match info.defaultValue with
  | none =>
    if info.type = .structureVersion then
      stringToTypedBuffer lib .structureVersion (versionText info.minVersion) 0
    else .ok (zeros info)
  | some value =>
    if isPString info.type then .ok value
    else if isPBuffer info.type then lib.hexToBin value
    else stringToTypedBuffer lib info.type value info.typeFieldSize

/-- The default, where there is one. -/
def declared (lib : Conversions) (info : FieldInfo) : Bytes :=
  match defaultData lib info with
  | .ok data => data
  | .error _ => []

/-- The bytes that a field can have. -/
def Fit (info : FieldInfo) (data : Bytes) : Prop :=
  match info.type.shape with
  | .fixed width => data.length = width
  | .char => data.length = info.charSize
  | .counted k => data.length < 256 ^ k
  | .array _ | .renamed => data = []
  | _ => False

/-- A field that gets its default wherever it is: its name is no path, it is no structure, it is no
buffer with bytes, and the size of a string is a number of 32 bits with a sign. -/
def Settable (lib : Conversions) (info : FieldInfo) : Prop :=
  IsFieldName info.name ∧ info.type ≠ .structure ∧
    ∀ value, info.defaultValue = some value →
      (isPString info.type = true → value.length < 2 ^ 31) ∧
      (isPBuffer info.type = true → lib.hexToBin value = .ok [])

/-- The fields of a description get their defaults: each one, under a name of its own. -/
def AllSettable (lib : Conversions) (d : Description) : Prop :=
  (∀ info ∈ d.infos, Settable lib info) ∧ d.names.Nodup


/-- The conversions of the other libraries give as many bytes as the type has. -/
def SizedConversions (lib : Conversions) : Prop :=
  ∀ type value data, lib.stringToOther type value = .ok data → (data.length : ℤ) = type.tableSize

variable {v : VectorCapacity} {lib : Conversions}

/-! ### The sizes of the defaults -/

theorem length_memory_take (u : UInt512) {n : ℕ} (h : n ≤ 64) : (u.memory.take n).length = n := by
  rw [UInt512.memory_eq, List.length_take, UInt512.length_toBytes, min_eq_left h]

theorem length_stringToUinteger {value data : Bytes} {bits : ℕ} (hbits : bits ≤ 512)
    (h : stringToUinteger value bits = .ok data) : data.length = bits / 8 := by
  rw [stringToUinteger, bind_eq_ok] at h
  obtain ⟨n, -, h⟩ := h
  split at h
  · cases h
  · rw [← Except.ok.inj h, length_memory_take n (by omega)]

theorem length_stringToInteger {value data : Bytes} {bits : ℕ} (hbits : bits ≤ 512)
    (h : stringToInteger value bits = .ok data) : data.length = bits / 8 := by
  rw [stringToInteger, bind_eq_ok] at h
  obtain ⟨n, -, h⟩ := h
  have htake : (n.memory.take (bits / 8)).length = bits / 8 := length_memory_take n (by omega)
  have hguard (isZero : Bool) (e : Failure)
      (h : (if (!isZero) = true then Except.error e else Except.ok (n.memory.take (bits / 8)))
        = Except.ok data) : data.length = bits / 8 := by
    split at h
    · cases h
    · rw [← Except.ok.inj h, htake]
  dsimp only at h
  split at h
  · split at h
    · rw [bind_eq_ok] at h
      obtain ⟨isZero, -, h⟩ := h
      exact hguard isZero _ h
    · exact hguard false _ h
  · rw [← Except.ok.inj h, htake]

theorem length_stringToVersion {value data : Bytes} (h : stringToVersion value = .ok data) :
    data.length = 4 := by
  unfold stringToVersion at h
  split at h
  · cases h
  · simp only [bind_eq_ok] at h
    obtain ⟨a, -, b, -, h⟩ := h
    split at h
    · cases h
    · rw [← Except.ok.inj h, UInt512.length_toBytes]

theorem length_charToBuffer {value data : Bytes} {size : ℕ} (h : charToBuffer value size = .ok data) :
    data.length = size := by
  unfold charToBuffer at h
  split at h
  · cases h
  · split at h
    · cases h
    · rw [← Except.ok.inj h, List.length_append, List.length_replicate]
      omega

/-- A value of a type of a fixed size has the bytes of that size. -/
theorem length_stringToTypedBuffer (hlib : SizedConversions lib) {type : StructType} {width : ℕ}
    (hshape : type.shape = .fixed width) {value data : Bytes} {size : ℕ}
    (h : stringToTypedBuffer lib type value size = .ok data) : data.length = width := by
  have hother (hsize : type.tableSize = width) (h : lib.stringToOther type value = .ok data) :
      data.length = width := by
    have hlen := hlib _ _ _ h
    omega
  cases type <;> cases hshape
  case bits8 | bits16 | bits32 | bits64 | bits128 | bits256 | bits512 | uint8 | uint16 | uint32
      | uint64 | uint128 | uint256 | uint512 | oid | reference =>
    exact length_stringToUinteger (by omega) h
  case int8 | int16 | int32 | int64 | int128 | int256 | int512 =>
    exact length_stringToInteger (by omega) h
  case version | structureVersion => exact length_stringToVersion h
  case float32 | float64 | float128 | magic | time | mstime | ustime | nstime => exact hother rfl h
  case void => cases h

/-- A default that is no string and no buffer is that of a field of a fixed size, or of characters,
and has the bytes of the field. -/
theorem fit_of_stringToTypedBuffer (hlib : SizedConversions lib) {info : FieldInfo}
    {value data : Bytes} (hp : isPString info.type = false) (hb : isPBuffer info.type = false)
    (h : stringToTypedBuffer lib info.type value info.typeFieldSize = .ok data) :
    (∃ width, info.type.shape = .fixed width ∨ info.type.shape = .char) ∧ Fit info data := by
  unfold Fit
  unfold FieldInfo.typeFieldSize at h
  cases hshape : info.type.shape with
  | fixed width => exact ⟨⟨width, .inl rfl⟩, length_stringToTypedBuffer hlib hshape h⟩
  | char =>
    have htype : info.type = .char := by
      revert hshape
      cases info.type <;> simp [StructType.shape]
    rw [hshape, htype] at h
    exact ⟨⟨0, .inr rfl⟩, length_charToBuffer h⟩
  | counted k =>
    exfalso
    revert hshape hp hb
    cases info.type <;> simp [StructType.shape, isPString, isPBuffer]
  | «structure» | array k | renamed | other =>
    exfalso
    revert hshape h
    cases info.type <;> simp [StructType.shape, stringToTypedBuffer]

/-- The types whose values follow their count. -/
theorem shape_of_counted {type : StructType} (h : isPString type = true ∨ isPBuffer type = true) :
    ∃ k, 0 < k ∧ type.shape = .counted k := by
  revert h
  cases type <;> simp [isPString, isPBuffer, StructType.shape]

/-! ### The fields of a description -/

/-- The fields of a description with the values of a function, without items. -/
def flat (value : FieldInfo → Bytes) : Description → Forest Stored
  | .field info sub next =>
    .node (.field info sub (value info).length (value info)) .nil (flat value next)
  | _ => .nil

/-- The values of the fields of a description, whatever they are. -/
def Over : Description → Forest Stored → Prop
  | .field info sub next, .node (.field info' sub' _ _) _ rest =>
    info' = info ∧ sub' = sub ∧ Over next rest
  | .field _ _ _, _ => False
  | _, t => t = .nil

theorem over_flat (value : FieldInfo → Bytes) (d : Description) : Over d (flat value d) := by
  induction d with
  | null => rfl
  | «end» => rfl
  | field info sub next _ ih => exact ⟨rfl, rfl, ih⟩

variable {d : Description} {t u : Forest Stored} {info : FieldInfo} {sub : Description}
  {size : ℕ} {data : Bytes} {items : Forest Stored}

/-- One of the fields of a description. -/
theorem Over.tree (h : Over d u) {i : ℕ} {a : Stored} (ht : u.tree? i = some (a, items)) :
    ∃ info sub size data, a = .field info sub size data ∧ info ∈ d.infos := by
  induction d generalizing u i with
  | null => rw [show u = .nil from h] at ht; cases ht
  | «end» => rw [show u = .nil from h] at ht; cases ht
  | field info sub next _ ih =>
    cases u with
    | nil => cases h
    | node b items' rest =>
      cases b with
      | item => cases h
      | field info' sub' size data =>
        obtain ⟨rfl, rfl, hrest⟩ := h
        cases i with
        | zero =>
          cases ht
          exact ⟨_, _, _, _, rfl, List.mem_cons_self⟩
        | succ i =>
          obtain ⟨info, sub, size, data, ha, hmem⟩ := ih hrest ht
          exact ⟨info, sub, size, data, ha, List.mem_cons_of_mem _ hmem⟩

/-- The number of a field is found by its name. -/
theorem Over.index_eq (h : Over d u) (hd : d.names.Nodup) {i : ℕ}
    (ht : u.tree? i = some (.field info sub size data, items)) : index info.name u = some i := by
  induction d generalizing u i with
  | null => rw [show u = .nil from h] at ht; cases ht
  | «end» => rw [show u = .nil from h] at ht; cases ht
  | field info' sub' next _ ih =>
    cases u with
    | nil => cases h
    | node b items' rest =>
      cases b with
      | item => cases h
      | field info'' sub'' size' data' =>
        obtain ⟨rfl, rfl, hrest⟩ := h
        rw [Description.names, List.nodup_cons] at hd
        cases i with
        | zero =>
          cases ht
          rw [index, if_pos rfl]
        | succ i =>
          obtain ⟨info₁, sub₁, size₁, data₁, heq, hmem⟩ := hrest.tree ht
          cases heq
          have hne : info''.name ≠ info.name := by
            rintro heq
            rw [heq, Description.names_eq] at hd
            exact hd.1 (List.mem_map_of_mem hmem)
          rw [index, if_neg hne, ih hrest hd.2 ht, Option.map_some]

/-- A change that leaves the description of a field. -/
theorem Over.modify (h : Over d u) {p : Pos} (hp : u.get? p = some (.field info sub size data, items))
    (size' : ℕ) (data' : Bytes) (items' : Forest Stored) :
    Over d (u.modify (fun _ _ => (.field info sub size' data', items')) p) := by
  induction d generalizing u p with
  | null => rw [show u = .nil from h] at hp ⊢; rw [Forest.get?_nil] at hp; cases hp
  | «end» => rw [show u = .nil from h] at hp ⊢; rw [Forest.get?_nil] at hp; cases hp
  | field info' sub' next _ ih =>
    cases u with
    | nil => cases h
    | node b items' rest =>
      cases b with
      | item => cases h
      | field info'' sub'' size'' data'' =>
        obtain ⟨rfl, rfl, hrest⟩ := h
        cases p with
        | nil =>
          cases hp
          exact ⟨rfl, rfl, hrest⟩
        | cons s p =>
          cases s with
          | down => exact ⟨rfl, rfl, hrest⟩
          | next => exact ⟨rfl, rfl, ih hrest hp⟩

theorem index_append (name : List Char) (t u : Forest Stored) :
    index name (t.append u) = (index name t).or ((index name u).map (· + t.roots)) := by
  induction t with
  | nil =>
    rw [Forest.nil_append, Forest.roots_nil]
    cases index name u <;> rfl
  | node a sub next _ ih =>
    have hmap (x : Option ℕ) :
        (x.or ((index name u).map (· + next.roots))).map (· + 1)
          = (x.map (· + 1)).or ((index name u).map (· + (next.roots + 1))) := by
      cases x <;> cases index name u <;> rfl
    rw [Forest.node_append, Forest.roots_node]
    cases a with
    | item => rw [index, index, ih, hmap] <;> simp
    | field info d size data =>
      rw [index, index]
      split
      · rfl
      · rw [ih, hmap]

/-! ### A parse without a buffer -/

theorem bytes_of_zeros (info : FieldInfo) (sub : Description) :
    ∃ n, Stored.bytes (.field info sub (zeros info).length (zeros info)) 0
      = List.replicate n 0 := by
  have hcount (k : ℕ) : toBytes k 0 = List.replicate k 0 := by
    have hzero := UInt512.toBytes_ofBytes (List.replicate k 0)
    rwa [List.length_replicate, UInt512.ofBytes_replicate_zero] at hzero
  unfold Stored.bytes zeros
  dsimp only
  cases h : info.type.shape with
  | fixed width => exact ⟨width, rfl⟩
  | char => exact ⟨info.charSize, rfl⟩
  | counted k =>
    refine ⟨k, ?_⟩
    dsimp only
    rw [List.length_nil, List.append_nil, hcount]
  | array k => exact ⟨k, hcount k⟩
  | «structure» | renamed | other => exact ⟨0, rfl⟩

theorem image_zeros (d : Description) : ∃ n, image (flat zeros d) = List.replicate n 0 := by
  induction d with
  | null => exact ⟨0, rfl⟩
  | «end» => exact ⟨0, rfl⟩
  | field info sub next _ ih =>
    obtain ⟨n, hn⟩ := ih
    obtain ⟨m, hm⟩ := bytes_of_zeros info sub
    refine ⟨m + n, ?_⟩
    rw [flat, image_node, Forest.roots_nil, hm, hn, image_nil, List.nil_append,
      List.replicate_append_replicate]

/-- The size and the end of a field that is parsed without a buffer. -/
theorem parseExtent_none (sub : Description) {offset size after : ℕ} (htype : info.type ≠ .structure)
    (h : parseExtent none info offset = .ok (size, after)) :
    Fit info (zeros info) ∧ size = (zeros info).length ∧
      after = offset
        + (Stored.bytes (.field info sub (zeros info).length (zeros info)) 0).length := by
  unfold parseExtent at h
  unfold Fit Stored.bytes zeros
  dsimp only
  cases hshape : info.type.shape with
  | fixed width =>
    rw [hshape] at h
    cases h
    simp
  | char =>
    rw [hshape] at h
    dsimp only at h
    split at h
    · cases h
    · cases h
      simp
  | counted k =>
    rw [hshape] at h
    cases h
    simp
  | array k =>
    rw [hshape] at h
    cases h
    simp
  | renamed =>
    rw [hshape] at h
    cases h
    simp
  | «structure» =>
    exfalso
    revert hshape htype
    cases info.type <;> simp [StructType.shape]
  | other =>
    rw [hshape] at h
    cases h

/-- A field is put before those after it unless one of these has its name. -/
theorem exists_rest_of_parse {x : Except Failure (Forest Cached × ℕ)} {name : List Char}
    {a : Cached} {items fields : Forest Cached} {last : ℕ}
    (h : (do
      let rest ← x
      if hasName name rest.1 then .ok (rest.1, rest.2)
      else .ok (.node a items rest.1, rest.2)) = .ok (fields, last)) :
    ∃ rest, x = .ok (rest, last) ∧
      fields = if hasName name rest then rest else .node a items rest := by
  rw [bind_eq_ok] at h
  obtain ⟨⟨rest, last'⟩, hrest, h⟩ := h
  dsimp only at h
  split at h
  · next hname =>
    cases h
    exact ⟨_, hrest, (if_pos hname).symm⟩
  · next hname =>
    cases h
    exact ⟨_, hrest, (if_neg hname).symm⟩

/-- One step of a parse without a buffer: there are no items yet. -/
theorem parse_none_field {next : Description} {offset last : ℕ} {fields : Forest Cached}
    (htype : info.type ≠ .structure)
    (h : parse none (.field info sub next) offset = .ok (fields, last)) :
    Fit info (zeros info) ∧ ∃ rest,
      parse none next (offset
        + (Stored.bytes (.field info sub (zeros info).length (zeros info)) 0).length)
          = .ok (rest, last) ∧
      fields = if hasName info.name rest then rest
        else .node (.field info sub offset (zeros info).length) .nil rest := by
  rw [parse, bind_eq_ok] at h
  obtain ⟨⟨size, after⟩, hextent, h⟩ := h
  obtain ⟨hfit, rfl, rfl⟩ := parseExtent_none sub htype hextent
  refine ⟨hfit, ?_⟩
  dsimp only at h
  rw [bind_eq_ok] at h
  obtain ⟨⟨⟩, -, h⟩ := h
  split at h
  · split at h
    · cases h
    · exact exists_rest_of_parse h
  · split at h
    · cases h
    · next hhas =>
      split at h
      · exact exists_rest_of_parse h
      · next hrenamed =>
        -- an array, and its size is null
        have hzeros : zeros info = [] := by
          revert hhas hrenamed htype
          unfold zeros
          cases info.type <;> simp [hasSubDefs, StructType.shape]
        rw [hzeros] at h ⊢
        exact exists_rest_of_parse h

theorem hasName_arrange {d : Description} {t : Forest Stored} (h : Over d t) (offset : ℕ)
    (name : List Char) : hasName name (arrange offset t) = decide (name ∈ d.names) := by
  induction d generalizing t offset with
  | null => rw [show t = .nil from h]; rfl
  | «end» => rw [show t = .nil from h]; rfl
  | field info sub next _ ih =>
    cases t with
    | nil => cases h
    | node a items rest =>
      cases a with
      | item => cases h
      | field info' sub' size data =>
        obtain ⟨rfl, rfl, hrest⟩ := h
        rw [arrange_node, Stored.place_field, hasName, ih hrest, Description.names]
        simp only [List.mem_cons, Bool.decide_or, eq_comm]

/-- **A parse without a buffer finds the objects over zeros.** -/
theorem parse_none (hd : AllSettable lib d) {offset last : ℕ} {fields : Forest Cached}
    (h : parse none d offset = .ok (fields, last)) :
    fields = arrange offset (flat zeros d) ∧ last = offset + (image (flat zeros d)).length ∧
      ∀ info ∈ d.infos, Fit info (zeros info) := by
  induction d generalizing offset fields last with
  | null => cases h
  | «end» =>
    cases h
    exact ⟨rfl, rfl, fun info hinfo => nomatch hinfo⟩
  | field info sub next _ ih =>
    obtain ⟨hinfos, hnames⟩ := hd
    rw [Description.infos, List.forall_mem_cons] at hinfos
    rw [Description.names, List.nodup_cons] at hnames
    obtain ⟨hfit, rest, hrest, rfl⟩ := parse_none_field hinfos.1.2.1 h
    obtain ⟨rfl, rfl, hfits⟩ := ih ⟨hinfos.2, hnames.2⟩ hrest
    rw [hasName_arrange (over_flat zeros next), decide_eq_false hnames.1,
      if_neg Bool.false_ne_true]
    refine ⟨?_, ?_, ?_⟩
    · rw [flat, arrange_node, Forest.roots_nil, image_nil, List.length_nil, Nat.add_zero]
      rfl
    · rw [flat, image_node, Forest.roots_nil, image_nil, List.nil_append, List.length_append,
        Nat.add_assoc]
    · rw [Description.infos, List.forall_mem_cons]
      exact ⟨hfit, hfits⟩

/-! ### The place of a structure -/

/-- The place of the fields of one structure among all values, and a pointer to it. -/
structure Context (put : Forest Stored → Forest Stored) (this : Pointer) (pos : Pos) : Prop where
  points : ∀ u, Points (put u) this pos u
  modify : ∀ g u q, (put u).modify g (pos ++ q) = put (u.modify g q)

theorem context_root : Context id none [] where
  points _ := ⟨rfl, rfl⟩
  modify _ _ _ := rfl

/-- A new item of the field at a position. -/
theorem context_item {p : Pos} {a : Stored} (hp : t.get? p = some (a, items)) :
    Context (fun u => t.modify (fun _ _ => (a, items.append (.node .item u .nil))) p)
      (some (p ++ .down :: treePos items.roots)) (p ++ .down :: treePos items.roots ++ [.down])
    where
  points u := by
    have hnew := Forest.get?_modify
      (g := fun _ _ => (a, items.append (.node .item u .nil))) hp
    refine ⟨rfl, ?_⟩
    rw [show p ++ .down :: treePos items.roots = p ++ [.down] ++ treePos items.roots by simp,
      Forest.get?_append (Forest.at?_down_of_get? hnew), Forest.get?_treePos,
      Forest.tree?_append_roots]
  modify g u q := by
    rw [show p ++ .down :: treePos items.roots ++ [.down] ++ q
        = p ++ .down :: (treePos items.roots ++ .down :: q) by simp,
      Forest.modify_modify_down]
    dsimp only
    rw [Forest.modify_append_roots_down]

variable {s s' : Structure} {this : Pointer} {pos : Pos} {put : Forest Stored → Forest Stored}
  {pre rest : Forest Stored}

theorem Context.get?_field (h : Context put this pos) (pre rest : Forest Stored) (a : Stored)
    (items : Forest Stored) :
    (put (pre.append (.node a items rest))).get? (pos ++ treePos pre.roots) = some (a, items) := by
  rw [(h.points _).get?_append, Forest.get?_treePos, Forest.tree?_append_roots]

theorem Context.modify_field (h : Context put this pos) (a a' : Stored)
    (items items' : Forest Stored) :
    (put (pre.append (.node a items rest))).modify (fun _ _ => (a', items'))
        (pos ++ treePos pre.roots)
      = put (pre.append (.node a' items' rest)) := by
  rw [h.modify, Forest.modify_append_roots]

/-- A field that has no items is written over. -/
theorem Context.overwrite (h : Context put this pos) {a : Stored} (a' : Stored)
    (hrep : Rep s (put (pre.append (.node a .nil rest)))) (hplace : ∀ o, a'.place o = a.place o)
    (hlen : (a'.bytes 0).length = (a.bytes 0).length)
    (hrun : s.pwrite v (a'.bytes 0)
        (start (put (pre.append (.node a .nil rest))) (pos ++ treePos pre.roots)) = .ok s') :
    s'.description = s.description ∧ Rep s' (put (pre.append (.node a' .nil rest))) := by
  have hover : (a.bytes 0).overwrite 0 (a'.bytes 0) = a'.bytes 0 := by
    have hmiddle := List.overwrite_append_middle (a := []) [] hlen
    simpa using hmiddle
  obtain ⟨s'', hrun', hdesc, hrep'⟩ := hrep.write (v := v) (h.get?_field pre rest a .nil) hplace hover
    (by rw [hlen, Nat.zero_add, Forest.roots_nil])
  rw [Nat.add_zero, hrun] at hrun'
  cases hrun'
  exact ⟨hdesc, h.modify_field a a' .nil .nil ▸ hrep'⟩

/-! ### The loop over the fields -/

@[simp] theorem check_eq_ok {α : Type} {x : Except Failure α} {a : α} :
    s.check x = .ok a ↔ x = .ok a := by
  cases x with
  | ok b => simp [check, Except.mapError]
  | error e => simp [check, Except.mapError]

/-- `find_field()` finds what `get_field()` does under the name of a field. -/
theorem Leads.findIn_eq {fields : Forest Cached} (h : Leads s this pos fields) {name : List Char}
    (hname : IsFieldName name) : s.findIn this name = s.lookup this name := by
  unfold findIn lookup getField
  simp only [h.deref, ok_bind, Bool.not_true, Bool.false_eq_true, if_false, if_neg hname.1,
    getFieldLoop_eq hname.2, List.reverse_nil, List.nil_append]
  cases findField fields name <;> rfl

theorem Settable.fieldName_eq (h : Settable lib info) :
    info.fieldName.takeWhile (· ≠ '=') = info.name := by
  by_cases htype : info.type.isBits ∨ info.type = .char
  · rw [FieldInfo.name, if_pos htype]
  · obtain ⟨⟨-, -, hequal⟩, -⟩ := h
    rw [FieldInfo.name, if_neg htype] at hequal ⊢
    apply List.takeWhile_eq_self_iff.2
    intro c hc
    rw [decide_eq_true_iff]
    rintro rfl
    exact hequal hc

theorem stringToTypedBuffer_size {type : StructType} (h : type ≠ .char) (value : Bytes)
    (m n : ℕ) : stringToTypedBuffer lib type value m = stringToTypedBuffer lib type value n := by
  cases type <;> first | rfl | exact absurd rfl h

/-- A buffer without bytes. -/
theorem stringToTypedBuffer_empty {type : StructType} {k : ℕ} (hb : isPBuffer type = true)
    (hshape : type.shape = .counted k) {value : Bytes} (h : lib.hexToBin value = .ok []) (n : ℕ) :
    stringToTypedBuffer lib type value n = .ok (toBytes k 0) := by
  have hempty (k : ℕ) : stringToPbuffer lib value k = .ok (toBytes k 0) := by
    rw [stringToPbuffer, h, ok_bind, if_neg (by simp), List.length_nil, List.append_nil]
  cases type <;> cases hb <;> cases hshape
  all_goals exact hempty _

/-- A field has its default, and the rest is as it was. -/
structure Defaulted (lib : Conversions) (info : FieldInfo) (s s' : Structure)
    (t : Forest Stored) : Prop where
  default_eq : defaultData lib info = .ok (declared lib info)
  fit : Fit info (declared lib info)
  description_eq : s'.description = s.description
  rep : Rep s' t

/-- The values with a field that has its default. -/
def withDefault (lib : Conversions) (info : FieldInfo) (sub : Description)
    (pre rest : Forest Stored) : Forest Stored :=
  pre.append (.node (.field info sub (declared lib info).length (declared lib info)) .nil rest)

/-- The values before that. -/
def withZeros (info : FieldInfo) (sub : Description) (pre rest : Forest Stored) : Forest Stored :=
  pre.append (.node (.field info sub (zeros info).length (zeros info)) .nil rest)

theorem declared_eq (h : defaultData lib info = .ok data) : declared lib info = data := by
  rw [declared, h]

/-- The bytes of a fixed size are the value. -/
theorem bytes_of_fit {k : ℕ} (hshape : info.type.shape = .fixed k ∨ info.type.shape = .char)
    (size : ℕ) (data : Bytes) (n : ℕ) : Stored.bytes (.field info sub size data) n = data := by
  unfold Stored.bytes
  dsimp only
  rcases hshape with h | h
  all_goals rw [h]

/-- A field of a fixed size gets its default. -/
theorem Context.fixed (hput : Context put this pos) {k : ℕ}
    (hshape : info.type.shape = .fixed k ∨ info.type.shape = .char)
    (hfit : Fit info (zeros info)) (hrep : Rep s (put (withZeros info sub pre rest)))
    (hdata : defaultData lib info = .ok data) (hdatafit : Fit info data)
    (hrun : s.pwrite v data
      (start (put (withZeros info sub pre rest)) (pos ++ treePos pre.roots)) = .ok s') :
    Defaulted lib info s s' (put (withDefault lib info sub pre rest)) := by
  have hlen : data.length = (zeros info).length := by
    unfold Fit at hfit hdatafit
    rcases hshape with h | h
    all_goals
      rw [h] at hfit hdatafit
      exact hdatafit.trans hfit.symm
  have hdeclared := declared_eq hdata
  have hbytes (n : ℕ) (data : Bytes) : Stored.bytes (.field info sub data.length data) n = data :=
    bytes_of_fit hshape data.length data n
  obtain ⟨hdesc, hrep'⟩ := hput.overwrite (.field info sub data.length data) hrep
    (fun o => by rw [Stored.place_field, Stored.place_field, hlen])
    (by rw [hbytes, hbytes, hlen]) (by rw [hbytes]; exact hrun)
  exact ⟨hdeclared.symm ▸ hdata, hdeclared.symm ▸ hdatafit, hdesc,
    by rw [withDefault, hdeclared]; exact hrep'⟩

/-- A string gets its default. -/
theorem Context.string (hput : Context put this pos) {k : ℕ} (hk : 0 < k)
    (hshape : info.type.shape = .counted k) (htype : isPString info.type = true)
    (hrep : Rep s (put (withZeros info sub pre rest))) {name : List Char}
    (hlookup : s.lookup this name = .ok (found (put (withZeros info sub pre rest))
      (pos ++ treePos pre.roots) info sub (zeros info).length (zeros info) .nil))
    (hdata : defaultData lib info = .ok data) (hlen : data.length < 2 ^ 31)
    (hrun : s.setString v this name data = .ok s') :
    Defaulted lib info s s' (put (withDefault lib info sub pre rest)) := by
  have hzeros : zeros info = [] := by rw [zeros, hshape]
  have hdeclared := declared_eq hdata
  have hget := hput.get?_field pre rest (.field info sub (zeros info).length (zeros info))
    .nil
  have hcounted := hrep.countedField hget hshape (by rw [hzeros]; exact Nat.pow_pos (by decide))
  have hset := hcounted.setString_eq (v := v) hlookup htype
    (show data.length < 2 ^ 32 by omega)
  rw [hrun] at hset
  split at hset
  · next hlt =>
    obtain ⟨s₁, hedit, hs'⟩ := hset
    obtain ⟨hdesc, hrep'⟩ := hcounted.resize hk hedit
      (diff32_eq hlen (by rw [hzeros]; decide))
    rw [← Except.ok.inj hs'] at hdesc hrep'
    refine ⟨hdeclared.symm ▸ hdata, ?_, hdesc, ?_⟩
    · have hpow : 2 ^ (k * 8) = 256 ^ k := by rw [Nat.mul_comm, Nat.pow_mul]
      unfold Fit
      rw [hdeclared, hshape]
      dsimp only
      rw [← hpow]
      exact hlt
    · rw [withDefault, hdeclared, ← hput.modify_field
        (.field info sub (zeros info).length (zeros info)) _ .nil]
      exact hrep'
  · obtain ⟨e, he⟩ := hset
    cases he

/-- A buffer without bytes is written over the same. -/
theorem Context.buffer (hput : Context put this pos) {k : ℕ}
    (hshape : info.type.shape = .counted k) (hdata : defaultData lib info = .ok [])
    (hrep : Rep s (put (withZeros info sub pre rest)))
    (hrun : s.pwrite v (toBytes k 0)
      (start (put (withZeros info sub pre rest)) (pos ++ treePos pre.roots)) = .ok s') :
    Defaulted lib info s s' (put (withDefault lib info sub pre rest)) := by
  have hzeros : zeros info = [] := by rw [zeros, hshape]
  have hdeclared := declared_eq hdata
  have hbytes : Stored.bytes (.field info sub (zeros info).length (zeros info)) 0 = toBytes k 0 := by
    rw [bytes_counted hshape, hzeros, List.length_nil, List.append_nil]
  obtain ⟨hdesc, hrep'⟩ := hput.overwrite
    (.field info sub (zeros info).length (zeros info)) hrep (fun _ => rfl) rfl
    (by rw [hbytes]; exact hrun)
  refine ⟨hdeclared.symm ▸ hdata, ?_, hdesc, ?_⟩
  · unfold Fit
    rw [hdeclared, hshape]
    exact Nat.pow_pos (by decide)
  · rw [withDefault, hdeclared, ← hzeros]
    exact hrep'

/-- One step of the loop. -/
theorem setDefault_ok (hlib : SizedConversions lib) (hput : Context put this pos)
    (hset : Settable lib info) (hfit : Fit info (zeros info)) (hpre : index info.name pre = none)
    (hrep : Rep s (put (withZeros info sub pre rest)))
    (h : s.setDefault v lib this info = .ok s') :
    Defaulted lib info s s' (put (withDefault lib info sub pre rest)) := by
  have hpoints := hput.points (withZeros info sub pre rest)
  have hindex : index info.name (withZeros info sub pre rest) = some pre.roots := by
    rw [withZeros, index_append, hpre, index, if_pos rfl, Option.map_some, Nat.zero_add]
    rfl
  have hlookup (htype : info.type ≠ .renamed) := hrep.lookup hpoints hset.1 hindex
    (Forest.tree?_append_roots _ _ _ _) htype
  have hfind := (hrep.leads hpoints).findIn_eq hset.1
  unfold setDefault at h
  cases hvalue : info.defaultValue with
  | none =>
    rw [hvalue] at h
    dsimp only at h
    split at h
    · next htype =>
      -- the version of the structure is that of the description
      have hname : info.name = info.fieldName := by
        rw [FieldInfo.name, htype]
        rfl
      rw [← hname, hfind, hlookup (by rw [htype]; decide)] at h
      simp only [bind_eq_ok, check_eq_ok, Except.ok.injEq] at h
      obtain ⟨f, rfl, data, hdata, hrun⟩ := h
      apply hput.fixed (k := 4) (.inl (by rw [htype]; rfl)) hfit hrep _ _ hrun
      · rw [defaultData, hvalue]
        dsimp only
        rw [if_pos htype, hdata]
      · unfold Fit
        rw [htype]
        exact length_stringToTypedBuffer hlib (by rfl) hdata
    · next htype =>
      cases h
      have hdata : defaultData lib info = .ok (zeros info) := by
        rw [defaultData, hvalue]
        dsimp only
        rw [if_neg htype]
      have hdeclared := declared_eq hdata
      exact ⟨hdeclared.symm ▸ hdata, hdeclared.symm ▸ hfit, rfl,
        by rw [withDefault, hdeclared]; exact hrep⟩
  | some value =>
    rw [hvalue, hset.fieldName_eq, hfind] at h
    simp only [bind_eq_ok, check_eq_ok] at h
    obtain ⟨f, hf, h⟩ := h
    obtain ⟨hstring, hbuffer⟩ := hset.2.2 value hvalue
    cases hp : isPString info.type with
    | true =>
      obtain ⟨k, hk, hshape⟩ := shape_of_counted (.inl hp)
      have hname : info.name = info.fieldName := by
        rw [FieldInfo.name, if_neg]
        revert hp
        cases info.type <;> simp [isPString, StructType.isBits]
      have hrun : s.setString v this info.name value = .ok s' := by
        rw [hname]
        revert h hp
        cases info.type <;> simp [isPString]
      apply hput.string hk hshape hp hrep (hlookup _) _ (hstring hp) hrun
      · rintro heq
        rw [heq] at hp
        cases hp
      · rw [defaultData, hvalue]
        dsimp only
        rw [if_pos hp]
    | false =>
      have hwrite : ∃ data,
          stringToTypedBuffer lib info.type value f.info.typeFieldSize = .ok data ∧
            s.pwrite v data f.offset = .ok s' := by
        split at h
        · simpa only [bind_eq_ok, check_eq_ok] using h
        · next htype => rw [htype] at hp; cases hp
        · next htype => rw [htype] at hp; cases hp
        · next htype => rw [htype] at hp; cases hp
        · next htype _ _ _ =>
          rw [stringToTypedBuffer_size htype value 0 f.info.typeFieldSize] at h
          simpa only [bind_eq_ok, check_eq_ok] using h
      obtain ⟨data, hdata, hrun⟩ := hwrite
      have hrenamed : info.type ≠ .renamed := by
        rintro heq
        rw [heq] at hdata
        cases hdata
      rw [hlookup hrenamed] at hf
      obtain rfl := Except.ok.inj hf
      cases hb : isPBuffer info.type with
      | true =>
        have hempty := hbuffer hb
        obtain ⟨k, hk, hshape⟩ := shape_of_counted (.inr hb)
        rw [stringToTypedBuffer_empty hb hshape hempty] at hdata
        cases hdata
        apply hput.buffer hshape _ hrep hrun
        rw [defaultData, hvalue]
        dsimp only
        rw [hp, hb]
        exact hempty
      | false =>
        obtain ⟨⟨k, hshape⟩, hdatafit⟩ := fit_of_stringToTypedBuffer hlib hp hb hdata
        apply hput.fixed hshape hfit hrep _ hdatafit hrun
        rw [defaultData, hvalue]
        dsimp only
        rw [hp, hb]
        exact hdata

/-- **The loop gives every field its default**, one after the other. -/
theorem setDefaults_ok (hlib : SizedConversions lib) (hput : Context put this pos)
    (hd : AllSettable lib d) (hfits : ∀ info ∈ d.infos, Fit info (zeros info))
    (hpre : ∀ name ∈ d.names, index name pre = none)
    (hrep : Rep s (put (pre.append (flat zeros d)))) (h : s.setDefaults v lib this d = .ok s') :
    (∀ info ∈ d.infos, defaultData lib info = .ok (declared lib info) ∧
      Fit info (declared lib info)) ∧
    s'.description = s.description ∧ Rep s' (put (pre.append (flat (declared lib) d))) := by
  induction d generalizing pre s with
  | null | «end» =>
    cases h
    exact ⟨fun info hinfo => (nomatch hinfo), rfl, hrep⟩
  | field info sub next _ ih =>
    obtain ⟨hinfos, hnames⟩ := hd
    rw [Description.infos, List.forall_mem_cons] at hinfos hfits
    rw [Description.names, List.nodup_cons] at hnames
    rw [Description.names, List.forall_mem_cons] at hpre
    rw [setDefaults, bind_eq_ok] at h
    obtain ⟨s₁, hone, hrest⟩ := h
    have hfirst := setDefault_ok hlib hput hinfos.1 hfits.1 hpre.1 hrep hone
    -- the fields so far are those before, and the one that was given its default
    have hshift (rest : Forest Stored) : withDefault lib info sub pre rest
        = (withDefault lib info sub pre .nil).append rest := by
      rw [withDefault, withDefault, Forest.append_assoc, Forest.node_append, Forest.nil_append]
    have hnext := hfirst.rep
    rw [hshift] at hnext
    obtain ⟨hall, hdesc, hrep'⟩ := ih ⟨hinfos.2, hnames.2⟩ hfits.2
      (fun name hname => by
        have hne : info.name ≠ name := by
          rintro rfl
          exact hnames.1 hname
        rw [withDefault, index_append, hpre.2 name hname, index, if_neg hne]
        rfl) hnext hrest
    refine ⟨?_, hdesc.trans hfirst.description_eq, ?_⟩
    · rw [Description.infos, List.forall_mem_cons]
      exact ⟨⟨hfirst.default_eq, hfirst.fit⟩, hall⟩
    · rw [← hshift] at hrep'
      exact hrep'

/-! ### The size -/

/-- What is added for a field is the number of its bytes. -/
theorem ownSize_eq (h : Fit info data) (sub : Description) (n : ℕ) :
    ownSize info data.length = (Stored.bytes (.field info sub data.length data) n).length := by
  unfold Fit at h
  unfold ownSize Stored.bytes
  dsimp only
  cases hshape : info.type.shape with
  | fixed width | char | renamed | other => rfl
  | counted k =>
    dsimp only
    rw [List.length_append, UInt512.length_toBytes]
  | array k => exact (UInt512.length_toBytes k n).symm
  | «structure» =>
    rw [hshape] at h
    cases h

/-- A field caches the number of the bytes of its value. -/
def Measured : Stored → Forest Stored → Prop
  | .field info _ size data, items =>
    size = data.length ∧ Fit info data ∧ (info.type = .renamed → items = .nil)
  | .item, _ => True

theorem measured_flat {value : FieldInfo → Bytes} (h : ∀ info ∈ d.infos, Fit info (value info)) :
    (flat value d).All Measured := by
  induction d with
  | null | «end» => exact trivial
  | field info sub next _ ih =>
    rw [Description.infos, List.forall_mem_cons] at h
    exact ⟨⟨rfl, h.1, fun _ => rfl⟩, trivial, ih h.2⟩

/-- What the sizes of the objects add up to is the number of the bytes. -/
theorem getCurrentSize_arrange {t : Forest Stored} (ht : t.All Measured) (offset size : ℕ) :
    getCurrentSize (arrange offset t) size = size + (image t).length := by
  induction t generalizing offset size with
  | nil => rfl
  | node a items next ihs ihn =>
    obtain ⟨hnode, hitems, hnext⟩ := ht
    rw [arrange_node, image_node, List.length_append, List.length_append]
    cases a with
    | item =>
      rw [Stored.place_item, getCurrentSize, ihs hitems, ihn hnext, bytes_item, List.length_nil]
      omega
    | field info d size data =>
      obtain ⟨rfl, hfit, hrenamed⟩ := hnode
      rw [← ownSize_eq hfit, Stored.place_field, getCurrentSize]
      split
      · next htype =>
        -- a field of an old name has no size
        have hnone : ownSize info data.length = 0 := by
          unfold Fit at hfit
          unfold ownSize
          rw [htype] at hfit ⊢
          exact List.length_eq_zero_iff.2 hfit
        rw [hrenamed htype, ihn hnext, hnone, image_nil, List.length_nil]
        omega
      · rw [ihs hitems, ihn hnext]
        omega

end Structure

end Prinbee
