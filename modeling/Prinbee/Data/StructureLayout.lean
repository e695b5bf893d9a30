import Prinbee.Data.Structure
import Prinbee.Data.VirtualBufferRefinement
import Prinbee.Lib.Splice

/-!
# What a description accepts

`parse_descriptions()` finds the fields of a structure in bytes.  `Structure.Stores` says which
values a description has, as a forest of the same shape as the objects, and `Forest.items` is
their encoding: the count of a string or of an array before what it counts.  A parse succeeds
exactly on an encoding, and caches where each piece of it starts.

What the getters read is then stated on the values: `Structure.Holds` says that a pointer leads to
a structure that holds them.

## Main definitions

* `Description.plain` — fields of different names, of fixed size, strings, buffers and arrays.
* `Structure.Stored` — a node of the objects with the bytes it stands for.
* `Structure.Stores`, `Structure.encode` — the values of a description, and their bytes.
* `Structure.Holds` — a pointer leads to a structure that holds values.
* `Structure.stringNode`, `Structure.wordNode`, `Structure.arrayNode` — values field by field.

## Main results

* `Structure.parse_iff` — a parse accepts the encodings of the values, and nothing else.
* `Structure.Holds.getString_eq`, `Structure.Holds.getArray_eq` — what is stored is read.
-/

namespace Prinbee

open Forest (Pos treePos)
open UInt512 (ofBytes toBytes)
open StructType (Shape)

namespace Description

/-- The names of the fields. -/
def names : Description → List (List Char)
  | .field info _ next => info.name :: names next
  | _ => []

/-- A field of a fixed size, a string, a buffer, an array or a structure. -/
def plainShape : Shape → Bool
  | .fixed _ | .counted _ | .structure | .array _ => true
  | _ => false

/-- The fields have different names, and have a sub-description exactly when they hold
structures. -/
def plain : Description → Bool
  | .field info sub next =>
    plainShape info.type.shape && (if hasSubDefs info.type then plain sub else decide (sub = .null))
      && !next.names.contains info.name && plain next
  | .end => true
  | .null => false

/-- What `plain` says of the first field. -/
theorem plain_field {info : FieldInfo} {sub next : Description} :
    (field info sub next).plain = true ↔
      plainShape info.type.shape = true ∧
        (if hasSubDefs info.type then sub.plain = true else sub = .null) ∧
        info.name ∉ next.names ∧ next.plain = true := by
  rw [plain, Bool.and_eq_true, Bool.and_eq_true, Bool.and_eq_true, Bool.not_eq_true',
    ← Bool.not_eq_true, List.contains_iff_mem, and_assoc, and_assoc]
  split
  · rfl
  · rw [decide_eq_true_iff]

end Description

namespace Structure

/-- A field with its size and what follows the size, or a structure of a field. -/
inductive Stored
  | field (info : FieldInfo) (sub : Description) (size : ℕ) (data : Bytes)
  | item
  deriving DecidableEq, Repr

namespace Stored

/-- The bytes of a node, without those of its children. -/
def own : Stored → ℕ → Bytes
  | .field info _ size data, _ => toBytes info.typeFieldSize size ++ data
  | .item, _ => []

/-- The object of a node whose bytes start at an offset. -/
def place : ℕ → Stored → Cached
  | offset, .field info sub size _ => .field info sub offset size
  | offset, .item => .structure offset true

@[simp] theorem own_field (info : FieldInfo) (sub : Description) (size : ℕ) (data : Bytes)
    (n : ℕ) : own (.field info sub size data) n = toBytes info.typeFieldSize size ++ data := rfl

@[simp] theorem own_item (n : ℕ) : own .item n = [] := rfl

@[simp] theorem place_field (offset : ℕ) (info : FieldInfo) (sub : Description) (size : ℕ)
    (data : Bytes) : place offset (.field info sub size data) = .field info sub offset size := rfl

@[simp] theorem place_item (offset : ℕ) : place offset .item = .structure offset true := rfl

end Stored

/-- The bytes of values. -/
def encode (t : Forest Stored) : Bytes := t.items Stored.own

/-- The objects over values that start at an offset. -/
def objects (offset : ℕ) (t : Forest Stored) : Forest Cached :=
  t.layout Stored.own Stored.place offset

@[simp] theorem encode_nil : encode .nil = [] := rfl

@[simp] theorem encode_node (a : Stored) (sub next : Forest Stored) :
    encode (.node a sub next) = a.own sub.roots ++ (encode sub ++ encode next) := rfl

theorem encode_node_iff {a : Stored} {sub next : Forest Stored} {l : Bytes} {offset : ℕ} :
    encode (.node a sub next) <+: l.drop offset ↔
      a.own sub.roots <+: l.drop offset ∧
      encode sub <+: l.drop (offset + (a.own sub.roots).length) ∧
      encode next <+: l.drop (offset + (a.own sub.roots).length + (encode sub).length) := by
  rw [encode_node, List.append_prefix_drop, List.append_prefix_drop]

theorem length_encode_node (a : Stored) (sub next : Forest Stored) :
    (encode (.node a sub next)).length
      = (a.own sub.roots).length + (encode sub).length + (encode next).length := by
  rw [encode_node, List.length_append, List.length_append, Nat.add_assoc]

@[simp] theorem objects_nil (offset : ℕ) : objects offset .nil = .nil := rfl

theorem objects_node (offset : ℕ) (a : Stored) (sub next : Forest Stored) :
    objects offset (.node a sub next)
      = .node (a.place offset) (objects (offset + (a.own sub.roots).length) sub)
          (objects (offset + (a.own sub.roots).length + (encode sub).length) next) := rfl

/-- The size and the data a field can have. -/
def Fits (info : FieldInfo) (size : ℕ) (data : Bytes) : Prop :=
  match info.type.shape with
  | .fixed width => size = width ∧ data.length = width
  | .counted k => size = data.length ∧ size < 256 ^ k
  | .structure => size = 1 ∧ data = []
  | .array k => size < 256 ^ k ∧ data = []
  | _ => False

/-- The number of structures in a field. -/
def itemCount (info : FieldInfo) (size : ℕ) : ℕ := if hasSubDefs info.type then size else 0

/-- The values of a description. -/
def Stores : Description → Forest Stored → Prop
  | .end, .nil => True
  | .field info sub next, .node (.field info' sub' size data) items rest =>
    info' = info ∧ sub' = sub ∧ Fits info size data ∧ items.roots = itemCount info size ∧
      items.Every (fun a fields => a = .item ∧ Stores sub fields) ∧ Stores next rest
  | _, _ => False

/-! ### One field -/

variable {vb : VirtualBuffer}

theorem hasData_some (hne : vb.buffers ≠ []) : hasData (some vb) = true := by
  unfold hasData
  rw [decide_eq_true_iff]
  exact fun h => hne (List.length_eq_zero_iff.1 h)

theorem parseBounds_eq_ok (hne : vb.buffers ≠ []) {info : FieldInfo} {offset : ℕ} :
    parseBounds (some vb) info offset = .ok () ↔ offset ≤ vb.totalSize := by
  unfold parseBounds
  rw [hasData_some hne, Option.elim_some]
  split
  · next h => exact ⟨fun h' => (nomatch h'), fun h' => absurd h.2 (Nat.not_lt.2 h')⟩
  · next h => exact ⟨fun _ => Nat.not_lt.1 fun h' => h ⟨rfl, h'⟩, fun _ => rfl⟩

/-- The size is read from the contents. -/
theorem parseSize_eq (hvb : vb.WellFormed) (hne : vb.buffers ≠ []) {k offset : ℕ}
    (hle : offset + k ≤ vb.totalSize) :
    parseSize (some vb) k offset = .ok (ofBytes (vb.contents.slice offset k)) := by
  unfold parseSize
  dsimp only
  rw [if_neg fun h => hne (List.length_eq_zero_iff.1 h), vb.pread_full_eq hvb hle, ok_bind]

/-- A number is the `k` bytes at an offset when these are its bytes. -/
theorem ofBytes_slice {l : Bytes} {k offset : ℕ} (hle : offset + k ≤ l.length) (n : ℕ) :
    ofBytes (l.slice offset k) = n ↔ n < 256 ^ k ∧ toBytes k n <+: l.drop offset := by
  have hlen : (l.slice offset k).length = k := List.length_slice_of_le hle
  constructor
  · rintro rfl
    have hlt := UInt512.ofBytes_lt (l.slice offset k)
    have hbytes := UInt512.toBytes_ofBytes (l.slice offset k)
    rw [hlen] at hlt hbytes
    rw [hbytes]
    exact ⟨hlt, List.slice_isPrefix l offset k⟩
  · rintro ⟨hlt, hpre⟩
    have hslice := List.slice_of_isPrefix hpre
    rw [UInt512.length_toBytes] at hslice
    rw [hslice, UInt512.ofBytes_toBytes, Nat.mod_eq_of_lt hlt]

/-- The length of what is there. -/
theorem end_le (hvb : vb.WellFormed) {bs : Bytes} {offset : ℕ}
    (hle : offset ≤ vb.totalSize) (h : bs <+: vb.contents.drop offset) :
    offset + bs.length ≤ vb.totalSize := by
  have hlen := h.length_le
  rw [List.length_drop, hvb.length_contents] at hlen
  omega

/-- The bytes of one field, without those of its structures. -/
theorem parseField_iff (hvb : vb.WellFormed) (hne : vb.buffers ≠ []) {info : FieldInfo}
    (hinfo : Description.plainShape info.type.shape = true) {offset size after : ℕ}
    (hle : offset ≤ vb.totalSize) :
    parseExtent (some vb) info offset = .ok (size, after) ∧ after ≤ vb.totalSize ↔
      ∃ data, Fits info size data ∧
        toBytes info.typeFieldSize size ++ data <+: vb.contents.drop offset ∧
        after = offset + (toBytes info.typeFieldSize size ++ data).length := by
  have htotal := hvb.length_contents
  unfold parseExtent Fits FieldInfo.typeFieldSize
  simp only [List.length_append, UInt512.length_toBytes]
  cases h : info.type.shape with
  | fixed width =>
    simp only [Except.ok.injEq, Prod.mk.injEq]
    constructor
    · rintro ⟨⟨rfl, rfl⟩, hafter⟩
      refine ⟨vb.contents.slice offset width, ⟨rfl, ?_⟩, ?_, ?_⟩
      · rw [List.length_slice_of_le (by omega)]
      · exact List.slice_isPrefix _ _ _
      · rw [List.length_slice_of_le (by omega)]; omega
    · rintro ⟨data, ⟨rfl, hlen⟩, hpre, rfl⟩
      have hend := end_le hvb hle hpre
      rw [List.length_append, UInt512.length_toBytes] at hend
      exact ⟨⟨rfl, by omega⟩, hend⟩
  | counted k =>
    simp only [bind_eq_ok, Except.ok.injEq, Prod.mk.injEq]
    constructor
    · rintro ⟨⟨n, hread, rfl, rfl⟩, hafter⟩
      rw [parseSize_eq hvb hne (by omega), Except.ok.injEq, ofBytes_slice (by omega)] at hread
      obtain ⟨hlt, hpre⟩ := hread
      have hlen : (vb.contents.slice (offset + k) n).length = n :=
        List.length_slice_of_le (by omega)
      refine ⟨vb.contents.slice (offset + k) n, ⟨hlen.symm, hlt⟩, ?_, by omega⟩
      rw [List.append_prefix_drop, UInt512.length_toBytes]
      exact ⟨hpre, List.slice_isPrefix _ _ _⟩
    · rintro ⟨data, ⟨rfl, hlt⟩, hpre, rfl⟩
      have hend := end_le hvb hle hpre
      rw [List.length_append, UInt512.length_toBytes] at hend
      rw [List.append_prefix_drop] at hpre
      refine ⟨⟨data.length, ?_, rfl, by omega⟩, hend⟩
      rw [parseSize_eq hvb hne (by omega), Except.ok.injEq, ofBytes_slice (by omega)]
      exact ⟨hlt, hpre.1⟩
  | «structure» =>
    simp only [Except.ok.injEq, Prod.mk.injEq]
    constructor
    · rintro ⟨⟨rfl, rfl⟩, hafter⟩
      exact ⟨[], ⟨rfl, rfl⟩, ⟨_, rfl⟩, rfl⟩
    · rintro ⟨data, ⟨rfl, rfl⟩, -, rfl⟩
      exact ⟨⟨rfl, rfl⟩, hle⟩
  | array k =>
    simp only [bind_eq_ok, Except.ok.injEq, Prod.mk.injEq]
    constructor
    · rintro ⟨⟨n, hread, rfl, rfl⟩, hafter⟩
      rw [parseSize_eq hvb hne hafter, Except.ok.injEq, ofBytes_slice (by omega)] at hread
      exact ⟨[], ⟨hread.1, rfl⟩, by rw [List.append_nil]; exact hread.2, rfl⟩
    · rintro ⟨data, ⟨hlt, rfl⟩, hpre, rfl⟩
      have hend := end_le hvb hle hpre
      rw [List.append_nil, UInt512.length_toBytes] at hend
      rw [List.append_nil] at hpre
      refine ⟨⟨size, ?_, rfl, rfl⟩, hend⟩
      rw [parseSize_eq hvb hne hend, Except.ok.injEq, ofBytes_slice (by omega)]
      exact ⟨hlt, hpre⟩
  | char | renamed | other => rw [h] at hinfo; cases hinfo

/-! ### The fields of a structure -/

/-- A parse from an offset finds the objects over some values, all of them of a kind. -/
def Parses (vb : VirtualBuffer) (P : Forest Stored → Prop)
    (parsed : ℕ → Except Failure (Forest Cached × ℕ)) : Prop :=
  ∀ offset, offset ≤ vb.totalSize → ∀ fields last, parsed offset = .ok (fields, last) ↔
    ∃ t, P t ∧ encode t <+: vb.contents.drop offset ∧ fields = objects offset t ∧
      last = offset + (encode t).length

/-- The structures of a field, given what one of them is. -/
theorem parseItems_parses (hvb : vb.WellFormed) {P : Forest Stored → Prop}
    {parseOne : ℕ → Except Failure (Forest Cached × ℕ)} (h : Parses vb P parseOne) (n : ℕ) :
    Parses vb (fun t => t.roots = n ∧ t.Every fun a fields => a = .item ∧ P fields)
      (parseItems true parseOne n) := by
  induction n with
  | zero =>
    intro offset hle items last
    rw [parseItems, Except.ok.injEq, Prod.mk.injEq]
    constructor
    · rintro ⟨rfl, rfl⟩
      exact ⟨.nil, ⟨rfl, trivial⟩, ⟨_, rfl⟩, rfl, rfl⟩
    · rintro ⟨t, ⟨hroots, -⟩, -, rfl, rfl⟩
      cases t with
      | nil => exact ⟨rfl, rfl⟩
      | node a sub next => cases hroots
  | succ n ih =>
    intro offset hle items last
    simp only [parseItems, bind_eq_ok, Prod.exists, Except.ok.injEq, Prod.mk.injEq]
    constructor
    · rintro ⟨fields, after, hone, rest, last', hrest, rfl, rfl⟩
      obtain ⟨t, ht, hpre, rfl, rfl⟩ := (h offset hle _ _).1 hone
      obtain ⟨u, ⟨hroots, hu⟩, hpre', rfl, rfl⟩ :=
        (ih _ (end_le hvb hle hpre) _ _).1 hrest
      refine ⟨.node .item t u, ⟨by rw [Forest.roots_node, hroots], ⟨rfl, ht⟩, hu⟩, ?_, rfl, ?_⟩
      · exact encode_node_iff.2 ⟨⟨_, rfl⟩, hpre, hpre'⟩
      · rw [length_encode_node, Stored.own_item, List.length_nil, Nat.zero_add, Nat.add_assoc]
    · rintro ⟨v, ⟨hroots, hv⟩, hpre, rfl, rfl⟩
      cases v with
      | nil => cases hroots
      | node a t u =>
        obtain ⟨⟨rfl, ht⟩, hu⟩ := hv
        rw [Forest.roots_node, Nat.add_right_cancel_iff] at hroots
        obtain ⟨-, hpre, hpre'⟩ := encode_node_iff.1 hpre
        refine ⟨_, _, (h offset hle _ _).2 ⟨t, ht, hpre, rfl, rfl⟩, _, _,
          (ih _ (end_le hvb hle hpre) _ _).2 ⟨u, ⟨hroots, hu⟩, hpre', rfl, rfl⟩, rfl, ?_⟩
        rw [length_encode_node, Stored.own_item, List.length_nil, Nat.zero_add, Nat.add_assoc]

/-- One step of a parse, for a field that `plain` accepts. -/
theorem parse_field {info : FieldInfo} {sub next : Description}
    (h : (Description.field info sub next).plain = true) (buffer : VirtualBuffer) (offset : ℕ) :
    parse (some buffer) (.field info sub next) offset = (do
      let (size, after) ← parseExtent (some buffer) info offset
      parseBounds (some buffer) info after
      let (items, after) ← parseItems true (parse (some buffer) sub) (itemCount info size) after
      let (rest, last) ← parse (some buffer) next after
      if hasName info.name rest then .ok (rest, last)
      else .ok (.node (.field info sub offset size) items rest, last)) := by
  obtain ⟨hinfo, hshape, -, -⟩ := Description.plain_field.1 h
  cases hhas : hasSubDefs info.type with
  | false =>
    rw [hhas, if_neg Bool.false_ne_true] at hshape
    subst hshape
    simp only [parse, itemCount, hhas, Bool.false_eq_true, if_false, parseItems, ok_bind]
  | true =>
    have hrenamed : info.type ≠ .renamed := by
      rintro heq
      rw [heq] at hinfo
      cases hinfo
    rw [hhas, if_pos rfl] at hshape
    cases sub with
    | null => cases hshape
    | «end» | field i s n =>
      rw [parse]
      simp only [itemCount, hhas, Bool.not_true, Bool.false_eq_true, if_false, if_true,
        if_neg hrenamed, Option.isSome_some]

theorem hasName_objects {d : Description} {t : Forest Stored} (h : Stores d t) (offset : ℕ)
    (name : List Char) : hasName name (objects offset t) = decide (name ∈ d.names) := by
  induction d generalizing t offset with
  | null => cases h
  | «end» =>
    cases t with
    | nil => rfl
    | node a sub next => cases h
  | field info sub next _ ih =>
    cases t with
    | nil => cases h
    | node a items rest =>
      cases a with
      | item => cases h
      | field info' sub' size data =>
        obtain ⟨rfl, rfl, -, -, -, hrest⟩ := h
        rw [objects_node, Stored.place_field, hasName, ih hrest, Description.names]
        simp only [List.mem_cons, Bool.decide_or, eq_comm]

/-- **A parse accepts the encodings of the values of a description, and nothing else.** -/
theorem parse_iff (hvb : vb.WellFormed) (hne : vb.buffers ≠ []) {d : Description}
    (hd : d.plain = true) : Parses vb (Stores d) (parse (some vb) d) := by
  induction d with
  | null => cases hd
  | «end» =>
    intro offset hle fields last
    rw [parse, Except.ok.injEq, Prod.mk.injEq]
    constructor
    · rintro ⟨rfl, rfl⟩
      exact ⟨.nil, trivial, ⟨_, rfl⟩, rfl, rfl⟩
    · rintro ⟨t, ht, -, rfl, rfl⟩
      cases t with
      | nil => exact ⟨rfl, rfl⟩
      | node a sub next => cases ht
  | field info sub next ihs ihn =>
    intro offset hle fields last
    obtain ⟨hinfo, hshape, hname, hnext⟩ := Description.plain_field.1 hd
    -- a field without sub-description has no structure to parse
    have hsub : Parses vb (Stores sub) (parse (some vb) sub) := by
      split at hshape
      · exact ihs hshape
      · subst hshape
        intro offset hle fields last
        simp [parse, Stores]
    have hitems (n : ℕ) := parseItems_parses hvb hsub n
    rw [parse_field hd]
    simp only [bind_eq_ok, Prod.exists, parseBounds_eq_ok hne]
    constructor
    · rintro ⟨size, after, hextent, ⟨⟩, hafter, items, after', hrun, rest, last', hrest, hend⟩
      obtain ⟨data, hfit, hpre, rfl⟩ :=
        (parseField_iff hvb hne hinfo hle).1 ⟨hextent, hafter⟩
      obtain ⟨t, ⟨hroots, ht⟩, hpre', rfl, rfl⟩ := (hitems _ _ hafter _ _).1 hrun
      have hafter' := end_le hvb hafter hpre'
      obtain ⟨u, hu, hpre'', rfl, rfl⟩ := (ihn hnext _ hafter' _ _).1 hrest
      rw [hasName_objects hu, decide_eq_false hname, if_neg Bool.false_ne_true, Except.ok.injEq,
        Prod.mk.injEq] at hend
      obtain ⟨rfl, rfl⟩ := hend
      refine ⟨.node (.field info sub size data) t u, ⟨rfl, rfl, hfit, hroots, ht, hu⟩, ?_, rfl, ?_⟩
      · exact encode_node_iff.2 ⟨hpre, hpre', hpre''⟩
      · rw [length_encode_node, Stored.own_field]
        omega
    · rintro ⟨v, hv, hpre, rfl, rfl⟩
      cases v with
      | nil => cases hv
      | node a t u =>
        cases a with
        | item => cases hv
        | field info' sub' size data =>
          obtain ⟨rfl, rfl, hfit, hroots, ht, hu⟩ := hv
          obtain ⟨hown, hitem, hrest⟩ := encode_node_iff.1 hpre
          have hafter := end_le hvb hle hown
          have hafter' := end_le hvb hafter hitem
          refine ⟨size, _, ((parseField_iff hvb hne hinfo hle).2 ⟨data, hfit, hown, rfl⟩).1, (),
            hafter, _, _, (hitems _ _ hafter _ _).2 ⟨t, ⟨hroots, ht⟩, hitem, rfl, rfl⟩, _, _,
            (ihn hnext _ hafter' _ _).2 ⟨u, hu, hrest, rfl, rfl⟩, ?_⟩
          rw [hasName_objects hu, decide_eq_false hname, if_neg Bool.false_ne_true, objects_node,
            length_encode_node, Stored.own_field, Nat.add_assoc, Nat.add_assoc]
          rfl

/-! ### Reading what was parsed -/

section Reading

variable {s : Structure} {this : Pointer} {pos : Pos} {fields : Forest Cached} {name : List Char}

/-- A name that is no path, and is not cut at an equal sign. -/
def IsFieldName (name : List Char) : Prop := name ≠ [] ∧ '.' ∉ name ∧ '=' ∉ name

instance (name : List Char) : Decidable (IsFieldName name) :=
  inferInstanceAs (Decidable (_ ∧ _ ∧ _))

/-- A name without a period or an equal sign is that of a field of the structure itself. -/
theorem getFieldLoop_eq (hname : '.' ∉ name ∧ '=' ∉ name) (sub : List Char) :
    getFieldLoop fields pos sub name = (do
      let i ← findField fields (sub.reverse ++ name)
      .ok (pos ++ treePos i)) := by
  induction name generalizing sub with
  | nil => rw [getFieldLoop, List.append_nil]
  | cons c name ih =>
    simp only [List.mem_cons, not_or] at hname
    rw [getFieldLoop, if_neg (Ne.symm hname.2.1), if_neg (Ne.symm hname.1.1),
      ih ⟨hname.1.2, hname.2.2⟩, List.reverse_cons, List.append_assoc, List.singleton_append]

/-- The structure that a pointer leads to, and where its fields are. -/
structure Leads (s : Structure) (this : Pointer) (pos : Pos) (fields : Forest Cached) : Prop where
  deref : s.deref this = .ok (true, pos, fields)
  at_eq : s.fields.at? pos = some fields

/-- The structure itself. -/
theorem leads_root (h : s.buffer.isSome = true) : Leads s none [] s.fields where
  deref := by rw [Structure.deref, h]
  at_eq := Forest.at?_nil_pos s.fields

/-- The structure at a position. -/
theorem leads_item {q : Pos} {start : ℕ}
    (h : s.fields.get? q = some (.structure start true, fields)) :
    Leads s (some q) (q ++ [.down]) fields where
  deref := by
    unfold Structure.deref
    dsimp only
    rw [h]
  at_eq := Forest.at?_down_of_get? h

/-- A field is found by its name. -/
theorem Leads.lookup_eq (h : Leads s this pos fields) (hname : IsFieldName name)
    {i : ℕ} (hi : fieldIndex name fields = some i)
    {info : FieldInfo} {sub : Description} {offset size : ℕ} {items : Forest Cached}
    (htree : fields.tree? i = some (.field info sub offset size, items))
    (htype : info.type ≠ .renamed) :
    s.lookup this name = .ok ⟨pos ++ treePos i, info, sub, offset, size, items⟩ := by
  have hfind : findField fields name = .ok i := by
    unfold findField
    rw [hi]
    dsimp only
    rw [htree]
    dsimp only
    rw [if_neg htype]
  have hget : s.fields.get? (pos ++ treePos i) = some (.field info sub offset size, items) := by
    rw [Forest.get?_append h.at_eq, Forest.get?_treePos, htree]
  unfold lookup getField
  simp only [h.deref, ok_bind, Bool.not_true, Bool.false_eq_true, if_false, if_neg hname.1,
    getFieldLoop_eq hname.2, List.reverse_nil, List.nil_append, hfind]
  unfold fieldAt
  rw [hget]

/-- A structure has no field of another name. -/
theorem Leads.lookup_missing (h : Leads s this pos fields) (hname : IsFieldName name)
    (hi : fieldIndex name fields = none) :
    s.lookup this name = .error (.thrown .fieldNotFound
      ("this description does not include a field named \"" ++ String.ofList name ++ "\".")) := by
  have hfind : findField fields name = .error (.thrown .fieldNotFound
      ("this description does not include a field named \"" ++ String.ofList name ++ "\".")) := by
    unfold findField
    rw [hi]
  unfold lookup getField
  simp only [h.deref, ok_bind, Bool.not_true, Bool.false_eq_true, if_false, if_neg hname.1,
    getFieldLoop_eq hname.2, List.reverse_nil, List.nil_append, hfind, error_bind]

/-- The number of the field of that name among values. -/
def index (name : List Char) : Forest Stored → Option ℕ
  | .node (.field info _ _ _) _ next =>
    if info.name = name then some 0 else (index name next).map (· + 1)
  | .node _ _ next => (index name next).map (· + 1)
  | .nil => none

theorem fieldIndex_objects (offset : ℕ) (t : Forest Stored) :
    fieldIndex name (objects offset t) = index name t := by
  induction t generalizing offset with
  | nil => rfl
  | node a sub next _ ih =>
    rw [objects_node]
    cases a with
    | item =>
      rw [Stored.place_item]
      simp only [fieldIndex, index, ih]
    | field info sub size data => rw [Stored.place_field, fieldIndex, index, ih]

/-- Values are stored at an offset. -/
structure At (vb : VirtualBuffer) (offset : ℕ) (t : Forest Stored) : Prop where
  le : offset ≤ vb.totalSize
  bytes : encode t <+: vb.contents.drop offset

/-- One node of the values, and the object over it. -/
theorem At.tree {offset : ℕ} {t : Forest Stored} (hvb : vb.WellFormed) (h : At vb offset t) {i : ℕ}
    {a : Stored} {sub : Forest Stored} (ht : t.tree? i = some (a, sub)) :
    ∃ o, (objects offset t).tree? i
        = some (a.place o, objects (o + (a.own sub.roots).length) sub) ∧
      o ≤ vb.totalSize ∧ a.own sub.roots <+: vb.contents.drop o ∧
      At vb (o + (a.own sub.roots).length) sub := by
  induction t generalizing offset i with
  | nil => cases ht
  | node b sub' next _ ih =>
    obtain ⟨hown, hsub, hnext⟩ := encode_node_iff.1 h.bytes
    have hle := end_le hvb h.le hown
    cases i with
    | zero =>
      cases ht
      exact ⟨offset, rfl, h.le, hown, hle, hsub⟩
    | succ i => exact ih ⟨end_le hvb hle hsub, hnext⟩ ht

/-- A pointer leads to a structure that holds values. -/
structure Holds (vb : VirtualBuffer) (s : Structure) (this : Pointer) (t : Forest Stored) :
    Prop where
  buffer : s.buffer = some vb
  leads : ∃ pos offset, Leads s this pos (objects offset t) ∧ At vb offset t

variable {t items : Forest Stored} {i size : ℕ} {info : FieldInfo} {sub : Description}
  {data : Bytes}

/-- What a lookup finds of a value. -/
structure Field.Over (vb : VirtualBuffer) (s : Structure) (f : Field) (info : FieldInfo)
    (sub : Description) (size : ℕ) (data : Bytes) (items : Forest Stored) : Prop where
  info_eq : f.info = info
  size_eq : f.size = size
  offset_le : f.offset ≤ vb.totalSize
  bytes : toBytes info.typeFieldSize size ++ data <+: vb.contents.drop f.offset
  over_items : ∃ offset, f.items = objects offset items ∧ At vb offset items
  get_eq : s.fields.get? f.pos = some (.field info sub f.offset size, f.items)

theorem Holds.lookup (hvb : vb.WellFormed) (h : Holds vb s this t) (hname : IsFieldName name)
    (hi : index name t = some i)
    (ht : t.tree? i = some (.field info sub size data, items)) (htype : info.type ≠ .renamed) :
    ∃ f, s.lookup this name = .ok f ∧ f.Over vb s info sub size data items := by
  obtain ⟨pos, offset, hleads, hat⟩ := h.leads
  obtain ⟨o, htree, hle, hown, hitems⟩ := hat.tree hvb ht
  refine ⟨_, hleads.lookup_eq hname ((fieldIndex_objects offset t).trans hi) htree htype,
    rfl, rfl, hle, hown, ⟨_, rfl, hitems⟩, ?_⟩
  dsimp only
  rw [Forest.get?_append hleads.at_eq, Forest.get?_treePos, htree, Stored.place_field]

/-- The types of strings that are preceded by their length. -/
def isPString (t : StructType) : Bool := t = .p8string ∨ t = .p16string ∨ t = .p32string

/-- **A string is read as it is stored.** -/
theorem Holds.getString_eq (hvb : vb.WellFormed) (h : Holds vb s this t) (hname : IsFieldName name)
    (hi : index name t = some i)
    (ht : t.tree? i = some (.field info sub size data, items))
    (htype : isPString info.type = true) (hfit : Fits info size data) :
    s.getString this name = .ok data := by
  unfold isPString at htype
  rw [decide_eq_true_iff] at htype
  obtain ⟨f, hf, hover⟩ := h.lookup hvb hname hi ht
    (by rintro heq; rw [heq] at htype; simp at htype)
  obtain ⟨k, hshape⟩ : ∃ k, info.type.shape = .counted k := by
    rcases htype with h | h | h
    all_goals rw [h]; exact ⟨_, rfl⟩
  have hk : info.typeFieldSize = k := by
    unfold FieldInfo.typeFieldSize
    rw [hshape]
  have hbytes := hover.bytes
  have hend := end_le hvb hover.offset_le hbytes
  rw [List.length_append, UInt512.length_toBytes, hk] at hend
  rw [List.append_prefix_drop, UInt512.length_toBytes, hk] at hbytes
  unfold Fits at hfit
  rw [hshape] at hfit
  obtain ⟨hsize, hlt⟩ := hfit
  -- the length is read again, and is the size that the parse has kept
  have hlength : s.pread k f.offset = .ok (vb.contents.slice f.offset k) := by
    unfold pread
    rw [h.buffer]
    exact vb.pread_full_eq hvb (by omega)
  have hsame : ofBytes (vb.contents.slice f.offset k) = size := by
    rw [ofBytes_slice (by rw [hvb.length_contents]; omega)]
    exact ⟨hlt, hbytes.1⟩
  have hdata : s.pread size (f.offset + k) = .ok data := by
    unfold pread
    rw [h.buffer]
    dsimp only
    rw [vb.pread_full_eq hvb (by omega), hsize, List.slice_of_isPrefix hbytes.2]
  unfold getString
  rw [hf, ok_bind, hover.info_eq, hk]
  rcases htype with h | h | h
  all_goals
    simp only [h, hlength, ok_bind, hsame, hover.size_eq, ne_eq, not_true_eq_false, if_false]
    exact hdata

/-- **A field without a fixed size is no integer.** -/
theorem Holds.getUinteger_variable (hvb : vb.WellFormed) (h : Holds vb s this t)
    (hname : IsFieldName name) (hi : index name t = some i)
    (ht : t.tree? i = some (.field info sub size data, items)) (htype : info.type ≠ .renamed)
    (hsize : info.type.tableSize < 0) :
    ∃ e, s.getUinteger this name = .error e := by
  obtain ⟨f, hf, hover⟩ := h.lookup hvb hname hi ht htype
  unfold getUinteger getNumber verifySize
  rw [hf, ok_bind, hover.info_eq, if_pos (by omega)]
  exact ⟨_, rfl⟩

/-- **A name that no field has is refused.** -/
theorem Holds.getString_missing (h : Holds vb s this t) (hname : IsFieldName name)
    (hi : index name t = none) :
    ∃ e, s.getString this name = .error e := by
  obtain ⟨pos, offset, hleads, -⟩ := h.leads
  have hlookup := hleads.lookup_missing hname ((fieldIndex_objects offset t).trans hi)
  unfold getString
  rw [hlookup]
  exact ⟨_, rfl⟩

/-! ### Arrays -/

/-- The structures of an array. -/
def ofItems : List (Forest Stored) → Forest Stored
  | [] => .nil
  | t :: ts => .node .item t (ofItems ts)

@[simp] theorem roots_ofItems (ts : List (Forest Stored)) : (ofItems ts).roots = ts.length := by
  induction ts with
  | nil => rfl
  | cons t ts ih => rw [ofItems, Forest.roots_node, ih, List.length_cons]

theorem tree?_ofItems (ts : List (Forest Stored)) (i : ℕ) :
    (ofItems ts).tree? i = ts[i]?.map fun t => (.item, t) := by
  induction ts generalizing i with
  | nil => rfl
  | cons t ts ih =>
    cases i with
    | zero => rfl
    | succ i => exact ih i

/-- The types of arrays. -/
def isArray (t : StructType) : Bool := t = .array8 ∨ t = .array16 ∨ t = .array32

/-- **An array leads to the structures it stores, in order.** -/
theorem Holds.getArray_eq (hvb : vb.WellFormed) (h : Holds vb s this t) (hname : IsFieldName name)
    (hi : index name t = some i) {ts : List (Forest Stored)}
    (ht : t.tree? i = some (.field info sub size data, ofItems ts))
    (htype : isArray info.type = true) :
    ∃ ps, s.getArray this name = .ok ps ∧
      List.Forall₂ (fun p u => Holds vb s (some p) u) ps ts := by
  unfold isArray at htype
  rw [decide_eq_true_iff] at htype
  obtain ⟨f, hf, hover⟩ := h.lookup hvb hname hi ht
    (by rintro heq; rw [heq] at htype; simp at htype)
  obtain ⟨offset, hitems, hat⟩ := hover.over_items
  have hroots : f.items.roots = ts.length := by
    rw [hitems, objects, Forest.roots_layout, roots_ofItems]
  refine ⟨(List.range ts.length).map fun i => f.pos ++ .down :: treePos i, ?_, ?_⟩
  · unfold getArray
    rw [hf, ok_bind, hover.info_eq, hroots]
    rcases htype with h | h | h
    all_goals rw [h]
  · rw [List.forall₂_iff_get]
    refine ⟨by rw [List.length_map, List.length_range], fun i hi hi' => ?_⟩
    rw [List.get_eq_getElem, List.get_eq_getElem, List.getElem_map, List.getElem_range]
    have htree : (ofItems ts).tree? i = some (.item, ts[i]) := by
      rw [tree?_ofItems, List.getElem?_eq_getElem hi', Option.map_some]
    obtain ⟨o, hobject, -, -, hvalues⟩ := hat.tree hvb htree
    have hget : s.fields.get? (f.pos ++ .down :: treePos i)
        = some (.structure o true, objects (o + (Stored.own .item ts[i].roots).length) ts[i]) := by
      rw [show f.pos ++ .down :: treePos i = (f.pos ++ [.down]) ++ treePos i by
        rw [List.append_assoc, List.singleton_append],
        Forest.get?_append (Forest.at?_down_of_get? hover.get_eq), Forest.get?_treePos, hitems,
        hobject, Stored.place_item]
    exact ⟨h.buffer, _, _, leads_item hget, hvalues⟩

/-- **Giving a structure a buffer finds values there**, or throws when there are none. -/
theorem setVirtualBuffer_iff (hvb : vb.WellFormed) (hne : vb.buffers ≠ [])
    (hd : s.description.plain = true) (s' : Structure) :
    s.setVirtualBuffer vb = .ok s' ↔
      ∃ t, Stores s.description t ∧ encode t <+: vb.contents ∧
        s' = { s with buffer := some vb, fields := objects 0 t } := by
  unfold setVirtualBuffer
  simp only [bind_eq_ok, Prod.exists, Except.ok.injEq]
  constructor
  · rintro ⟨fields, last, hparse, rfl⟩
    obtain ⟨t, ht, hpre, rfl, -⟩ := (parse_iff hvb hne hd 0 (Nat.zero_le _) _ _).1 hparse
    exact ⟨t, ht, hpre, rfl⟩
  · rintro ⟨t, ht, hpre, rfl⟩
    exact ⟨_, _, (parse_iff hvb hne hd 0 (Nat.zero_le _) _ _).2 ⟨t, ht, hpre, rfl, rfl⟩, rfl⟩

theorem holds_root (d : Description) (h : encode t <+: vb.contents) :
    Holds vb { description := d, buffer := some vb, fields := objects 0 t } none t where
  buffer := rfl
  leads := ⟨[], 0, leads_root rfl, Nat.zero_le _, h⟩

end Reading

/-! ### Values of a type -/

/-- A list whose length is written with `k` bytes. -/
abbrev Counted (k : ℕ) (α : Type) := { l : List α // l.length < 256 ^ k }

/-- A number written with `k` bytes. -/
abbrev Word (k : ℕ) := { n : ℕ // n < 256 ^ k }

/-- A string, with the fields after it. -/
def stringNode (info : FieldInfo) (data : Bytes) (rest : Forest Stored) : Forest Stored :=
  .node (.field info .null data.length data) .nil rest

/-- A number, with the fields after it. -/
def wordNode (info : FieldInfo) (k n : ℕ) (rest : Forest Stored) : Forest Stored :=
  .node (.field info .null k (toBytes k n)) .nil rest

/-- An array, with the fields after it. -/
def arrayNode (info : FieldInfo) (sub : Description) (ts : List (Forest Stored))
    (rest : Forest Stored) : Forest Stored :=
  .node (.field info sub ts.length []) (ofItems ts) rest

section Values

variable {info : FieldInfo} {sub next : Description} {t : Forest Stored} {k : ℕ}

theorem stores_end : Stores .end t ↔ t = .nil := by
  cases t with
  | nil => exact ⟨fun _ => rfl, fun _ => trivial⟩
  | node a items rest => exact ⟨fun h => h.elim, fun h => nomatch h⟩

/-- The values of a field, and of those after it. -/
theorem stores_field : Stores (.field info sub next) t ↔
    ∃ size data items rest, t = .node (.field info sub size data) items rest ∧
      Fits info size data ∧ items.roots = itemCount info size ∧
      items.Every (fun a fields => a = .item ∧ Stores sub fields) ∧ Stores next rest := by
  constructor
  · intro h
    cases t with
    | nil => cases h
    | node a items rest =>
      cases a with
      | item => cases h
      | field info' sub' size data =>
        obtain ⟨rfl, rfl, h⟩ := h
        exact ⟨size, data, items, rest, rfl, h⟩
  · rintro ⟨size, data, items, rest, rfl, h⟩
    exact ⟨rfl, rfl, h⟩

theorem eq_nil_of_roots {α : Type} {u : Forest α} (h : u.roots = 0) : u = .nil := by
  cases u with
  | nil => rfl
  | node a sub next => cases h

theorem stores_string (hshape : info.type.shape = .counted k) :
    Stores (.field info .null next) t ↔
      ∃ data : Counted k UInt8, ∃ rest, t = stringNode info data.1 rest ∧ Stores next rest := by
  have hcount (size : ℕ) : itemCount info size = 0 := by
    unfold itemCount hasSubDefs
    rw [hshape]
    rfl
  simp only [stores_field, Fits, hshape, hcount]
  constructor
  · rintro ⟨size, data, items, rest, rfl, ⟨rfl, hlt⟩, hroots, -, hrest⟩
    rw [eq_nil_of_roots hroots]
    exact ⟨⟨data, hlt⟩, rest, rfl, hrest⟩
  · rintro ⟨data, rest, rfl, hrest⟩
    exact ⟨_, _, .nil, rest, rfl, ⟨rfl, data.2⟩, rfl, trivial, hrest⟩

theorem stores_word (hshape : info.type.shape = .fixed k) :
    Stores (.field info .null next) t ↔
      ∃ n : Word k, ∃ rest, t = wordNode info k n.1 rest ∧ Stores next rest := by
  have hcount (size : ℕ) : itemCount info size = 0 := by
    unfold itemCount hasSubDefs
    rw [hshape]
    rfl
  simp only [stores_field, Fits, hshape, hcount]
  constructor
  · rintro ⟨size, data, items, rest, rfl, ⟨rfl, rfl⟩, hroots, -, hrest⟩
    rw [eq_nil_of_roots hroots]
    refine ⟨⟨ofBytes data, UInt512.ofBytes_lt data⟩, rest, ?_, hrest⟩
    rw [wordNode, UInt512.toBytes_ofBytes]
  · rintro ⟨n, rest, rfl, hrest⟩
    exact ⟨_, _, .nil, rest, rfl, ⟨rfl, UInt512.length_toBytes k n.1⟩, rfl, trivial, hrest⟩

/-- The structures of an array, each of a value of a type. -/
theorem every_item_iff {α : Type} {values : α → Forest Stored}
    (hsub : ∀ u, Stores sub u ↔ ∃ a, u = values a) {items : Forest Stored} :
    items.Every (fun a fields => a = .item ∧ Stores sub fields) ↔
      ∃ l : List α, items = ofItems (l.map values) := by
  induction items with
  | nil => exact ⟨fun _ => ⟨[], rfl⟩, fun _ => trivial⟩
  | node a fields rest _ ih =>
    rw [Forest.every_node, ih, hsub]
    constructor
    · rintro ⟨⟨rfl, x, rfl⟩, l, rfl⟩
      exact ⟨x :: l, rfl⟩
    · rintro ⟨l, hl⟩
      cases l with
      | nil => cases hl
      | cons x l =>
        rw [List.map_cons, ofItems, Forest.node.injEq] at hl
        exact ⟨⟨hl.1, x, hl.2.1⟩, l, hl.2.2⟩

theorem stores_array {α : Type} {values : α → Forest Stored}
    (hsub : ∀ u, Stores sub u ↔ ∃ a, u = values a) (hshape : info.type.shape = .array k) :
    Stores (.field info sub next) t ↔
      ∃ l : Counted k α, ∃ rest, t = arrayNode info sub (l.1.map values) rest ∧
        Stores next rest := by
  have hcount (size : ℕ) : itemCount info size = size := by
    unfold itemCount hasSubDefs
    rw [hshape]
    rfl
  simp only [stores_field, Fits, hshape, hcount, every_item_iff hsub]
  constructor
  · rintro ⟨size, data, items, rest, rfl, ⟨hlt, rfl⟩, hroots, ⟨l, rfl⟩, hrest⟩
    rw [roots_ofItems] at hroots
    subst hroots
    rw [List.length_map] at hlt
    exact ⟨⟨l, hlt⟩, rest, rfl, hrest⟩
  · rintro ⟨l, rest, rfl, hrest⟩
    exact ⟨_, _, _, rest, rfl, ⟨(List.length_map values).symm ▸ l.2, rfl⟩, roots_ofItems _,
      ⟨l.1, rfl⟩, hrest⟩

end Values

end Structure

end Prinbee
