import Prinbee.Data.StructureEdit

/-!
# The values in a structure

The objects under a structure and the bytes of its buffer say the same, twice: a forest of values
stands for both.  `Structure.image` is the bytes of such a forest and `Structure.arrange` the
objects over these, and a structure represents it when its buffer holds the one and its fields are
the other.  A call that changes a structure is then a change of one node of the forest.

The size that an array caches is not the number of its items: only the bytes have that.

## Main definitions

* `Structure.Stored.bytes`, `Structure.image`, `Structure.arrange` — the bytes and the objects.
* `Structure.Contains`, `Structure.Edits` — what the buffer holds, and a call that changes it.
* `Structure.Rep` — a structure represents a forest of values.
* `Structure.Points` — a pointer leads to the values of a structure.
* `Structure.CountedField`, `Structure.withData` — a string or a buffer, and another one there.

## Main results

* `Structure.Rep.lookup` — a field is found by its name.
* `Structure.Rep.write`, `Structure.Rep.resize` — a change of one value.
* `Structure.CountedField.setString_eq`, `Structure.CountedField.setBuffer_eq` — what is stored.
-/

namespace Prinbee

open Forest (Pos treePos)
open UInt512 (ofBytes toBytes)
open StructType (Shape)

namespace Structure

variable {v : VectorCapacity}

/-! ### Bytes -/

/-- The bytes of a node that has a number of children. -/
def Stored.bytes : Stored → ℕ → Bytes
  | .field info _ size data, n =>
    match info.type.shape with
    | .counted k => toBytes k size ++ data
    | .array k => toBytes k n
    | _ => data
  | .item, _ => []

/-- The bytes of values. -/
def image (t : Forest Stored) : Bytes := t.items Stored.bytes

/-- The objects over values that start at an offset. -/
def arrange (offset : ℕ) (t : Forest Stored) : Forest Cached :=
  t.layout Stored.bytes Stored.place offset

/-- The offset of a node. -/
def start (t : Forest Stored) (p : Pos) : ℕ := Forest.offset Stored.bytes 0 t p

@[simp] theorem bytes_item (n : ℕ) : Stored.bytes .item n = [] := rfl

@[simp] theorem image_nil : image .nil = [] := rfl

theorem image_node (a : Stored) (sub next : Forest Stored) :
    image (.node a sub next) = a.bytes sub.roots ++ (image sub ++ image next) := rfl

theorem image_append (t u : Forest Stored) : image (t.append u) = image t ++ image u :=
  Forest.items_append _ t u

theorem arrange_node (offset : ℕ) (a : Stored) (sub next : Forest Stored) :
    arrange offset (.node a sub next)
      = .node (a.place offset) (arrange (offset + (a.bytes sub.roots).length) sub)
          (arrange (offset + (a.bytes sub.roots).length + (image sub).length) next) := rfl

/-- The bytes around those of one node. -/
theorem image_split {t : Forest Stored} {p : Pos} {a : Stored} {sub : Forest Stored}
    (h : t.get? p = some (a, sub)) :
    ∃ pre post, pre.length = start t p ∧
      image t = pre ++ (a.bytes sub.roots ++ image sub) ++ post ∧
      ∀ a' sub', image (t.modify (fun _ _ => (a', sub')) p)
        = pre ++ (a'.bytes sub'.roots ++ image sub') ++ post := by
  obtain ⟨pre, post, hpre, hitems, hmod⟩ := Forest.items_split Stored.bytes h 0
  exact ⟨pre, post, by rw [start, ← hpre, Nat.zero_add], hitems, hmod⟩

/-- The object of a node. -/
theorem get?_arrange {t : Forest Stored} {p : Pos} {a : Stored} {sub : Forest Stored}
    (h : t.get? p = some (a, sub)) :
    (arrange 0 t).get? p
      = some (a.place (start t p), arrange (start t p + (a.bytes sub.roots).length) sub) := by
  rw [arrange, Forest.get?_layout, h]
  rfl

theorem fieldIndex_arrange (name : List Char) (offset : ℕ) (t : Forest Stored) :
    fieldIndex name (arrange offset t) = index name t := by
  induction t generalizing offset with
  | nil => rfl
  | node a sub next _ ih =>
    rw [arrange_node]
    cases a with
    | item =>
      rw [Stored.place_item]
      simp only [fieldIndex, index, ih]
    | field info sub size data => rw [Stored.place_field, fieldIndex, index, ih]

/-- `adjust_offsets()` moves what is placed. -/
theorem shifts_adjustOffset (c : ℕ) (d : ℤ) :
    Forest.Shifts Stored.place c d (adjustOffset c d) where
  keep o a h := by
    cases a with
    | field info sub size data =>
      rw [Stored.place_field, adjustOffset, if_neg (Nat.not_lt.2 h)]
    | item => rw [Stored.place_item, adjustOffset, if_neg (Nat.not_lt.2 h)]
  move o o' a h heq := by
    have ho : (o + d).toNat = o' := by omega
    cases a with
    | field info sub size data =>
      rw [Stored.place_field, adjustOffset, if_pos h, ho, Stored.place_field]
    | item => rw [Stored.place_item, adjustOffset, if_pos h, ho, Stored.place_item]

theorem map_adjustOffset_zero (c : ℕ) (t : Forest Cached) : t.map (adjustOffset c 0) = t := by
  induction t with
  | nil => rfl
  | node a sub next ihs ihn =>
    rw [Forest.map_node, ihs, ihn]
    cases a with
    | field info d offset size => simp [adjustOffset]
    | «structure» offset hasBuffer => simp [adjustOffset]

theorem adjustOffsets_fields (s : Structure) (c : ℕ) (d : ℤ) :
    (s.adjustOffsets c d).fields = s.fields.map (adjustOffset c d) := by
  unfold adjustOffsets
  split
  · next h => rw [h, map_adjustOffset_zero]
  · rfl

/-- What `set_size()` does to an object. -/
def setSizeOf (size : ℕ) (a : Cached) (items : Forest Cached) : Cached × Forest Cached :=
  match a with
  | .field info sub offset _ => (.field info sub offset size, items)
  | a => (a, items)

theorem modify_id {α : Type} (t : Forest α) (p : Pos) :
    t.modify (fun a sub => (a, sub)) p = t := by
  induction t generalizing p with
  | nil => rw [Forest.modify_nil]
  | node a sub next ihs ihn =>
    cases p with
    | nil => rfl
    | cons s p =>
      cases s with
      | down => rw [Forest.modify_down, ihs]
      | next => rw [Forest.modify_next, ihn]

/-! ### The buffer -/

/-- The buffer of a structure has bytes of its own. -/
def Contains (s : Structure) (l : Bytes) : Prop :=
  ∃ vb, s.buffer = some vb ∧ vb.WellFormed ∧ vb.Owned ∧ vb.contents = l

/-- A call leaves other bytes in the buffer, and the rest of the structure as it was. -/
def Edits (s s' : Structure) (l : Bytes) : Prop :=
  s'.description = s.description ∧ s'.fields = s.fields ∧ Contains s' l

variable {s s' s'' : Structure} {l l' : Bytes}

theorem Edits.trans (h : Edits s s' l) (h' : Edits s' s'' l') : Edits s s'' l' :=
  ⟨h'.1.trans h.1, h'.2.1.trans h.2.1, h'.2.2⟩

theorem Contains.pread (h : Contains s l) {size offset : ℕ} (hle : offset + size ≤ l.length) :
    s.pread size offset = .ok (l.slice offset size) := by
  obtain ⟨vb, hvb, hwf, -, rfl⟩ := h
  rw [hwf.length_contents] at hle
  unfold Structure.pread
  rw [hvb]
  exact vb.pread_full_eq hwf hle

theorem Contains.pwrite (h : Contains s l) (v : VectorCapacity) (bytes : Bytes) (offset : ℕ)
    (hle : offset + bytes.length ≤ l.length) :
    ∃ s', s.pwrite v bytes offset = .ok s' ∧ Edits s s' (l.overwrite offset bytes) := by
  obtain ⟨vb, hvb, hwf, ho, rfl⟩ := h
  rw [hwf.length_contents] at hle
  obtain ⟨vb', hrun, hbecame⟩ := vb.pwrite_eq v hwf bytes offset false (by omega) (fun _ => hle)
    (VirtualBuffer.writeSafe_of_owned (fun b hb => ho.block_eq hb) _ _)
  refine ⟨{ s with buffer := some vb' }, ?_, rfl, rfl, vb', rfl, hbecame.wellFormed,
    hbecame.owned ho, hbecame.contents⟩
  unfold Structure.pwrite
  rw [hvb]
  dsimp only
  rw [hrun]
  rfl

theorem Contains.pinsert (h : Contains s l) (v : VectorCapacity) (bytes : Bytes) (offset : ℕ)
    (hle : offset ≤ l.length) :
    ∃ s', s.pinsert v bytes offset = .ok s' ∧ Edits s s' (l.insertRange offset bytes) := by
  obtain ⟨vb, hvb, hwf, ho, rfl⟩ := h
  rw [hwf.length_contents] at hle
  obtain ⟨vb', hrun, hbecame⟩ := vb.pinsert_eq v hwf bytes offset hle
    (VirtualBuffer.insertSafe_of_owned (fun b hb => ho.block_eq hb) _)
  refine ⟨{ s with buffer := some vb' }, ?_, rfl, rfl, vb', rfl, hbecame.wellFormed,
    hbecame.owned ho, hbecame.contents⟩
  unfold Structure.pinsert
  rw [hvb]
  dsimp only
  rw [hrun]
  rfl

theorem Contains.perase (h : Contains s l) (size offset : ℕ) :
    ∃ s' n, s.perase size offset = .ok (s', n) ∧ Edits s s' (l.eraseRange offset size) := by
  obtain ⟨vb, hvb, hwf, ho, rfl⟩ := h
  obtain ⟨vb', hrun, hbecame⟩ := vb.perase_eq hwf size offset
    (VirtualBuffer.eraseSafe_of_owned (fun b hb => ho.block_eq hb) _ _)
  refine ⟨{ s with buffer := some vb' }, toInt (min size (vb.totalSize - offset)), ?_, rfl, rfl,
    vb', rfl, hbecame.wellFormed, hbecame.owned ho, hbecame.contents⟩
  unfold Structure.perase
  rw [hvb]
  dsimp only
  rw [hrun]
  rfl

/-! ### Representation -/

/-- A structure holds the bytes of values, and has the objects over them. -/
structure Rep (s : Structure) (t : Forest Stored) : Prop where
  contains : Contains s (image t)
  objects : s.fields = arrange 0 t

/-- A pointer leads to the values of a structure. -/
def Points (t : Forest Stored) : Pointer → Pos → Forest Stored → Prop
  | none, pos, u => pos = [] ∧ u = t
  | some q, pos, u => pos = q ++ [.down] ∧ t.get? q = some (.item, u)

variable {t u : Forest Stored} {this : Pointer} {pos : Pos}

theorem Points.at_eq (h : Points t this pos u) : t.at? pos = some u := by
  cases this with
  | none =>
    obtain ⟨rfl, rfl⟩ := h
    exact Forest.at?_nil_pos u
  | some q =>
    obtain ⟨rfl, hq⟩ := h
    exact Forest.at?_down_of_get? hq

theorem Points.get?_append (h : Points t this pos u) (q : Pos) :
    t.get? (pos ++ q) = u.get? q := Forest.get?_append h.at_eq q

theorem Rep.leads (h : Rep s t) (hthis : Points t this pos u) :
    Leads s this pos (arrange (start t pos) u) := by
  obtain ⟨vb, hvb, -⟩ := h.contains
  cases this with
  | none =>
    obtain ⟨rfl, rfl⟩ := hthis
    have hstart : start u [] = 0 := Forest.offset_nil_pos _ _ _
    rw [hstart, ← h.objects]
    exact leads_root (by rw [hvb]; rfl)
  | some q =>
    obtain ⟨rfl, hq⟩ := hthis
    have hget := get?_arrange hq
    rw [← h.objects, Stored.place_item] at hget
    have hstart : start t (q ++ [.down]) = start t q + (Stored.bytes .item u.roots).length :=
      Forest.offset_down_of_get? _ hq 0
    rw [hstart]
    exact leads_item hget

/-- The field at a position of the objects over values. -/
def found (t : Forest Stored) (p : Pos) (info : FieldInfo) (sub : Description) (size : ℕ)
    (data : Bytes) (items : Forest Stored) : Field :=
  ⟨p, info, sub, start t p, size,
    arrange (start t p + (Stored.bytes (.field info sub size data) items.roots).length) items⟩

section Found

variable (t : Forest Stored) (p : Pos) (info : FieldInfo) (sub : Description) (size : ℕ)
  (data : Bytes) (items : Forest Stored)

@[simp] theorem found_pos : (found t p info sub size data items).pos = p := rfl

@[simp] theorem found_info : (found t p info sub size data items).info = info := rfl

@[simp] theorem found_sub : (found t p info sub size data items).sub = sub := rfl

@[simp] theorem found_size : (found t p info sub size data items).size = size := rfl

@[simp] theorem found_offset : (found t p info sub size data items).offset = start t p := rfl

@[simp] theorem found_roots : (found t p info sub size data items).items.roots = items.roots :=
  Forest.roots_layout _ _ _ _

end Found

/-- **A field is found by its name**, with what it caches. -/
theorem Rep.lookup (h : Rep s t) (hthis : Points t this pos u) {name : List Char}
    (hname : IsFieldName name) {i : ℕ} (hi : index name u = some i) {info : FieldInfo}
    {sub : Description} {size : ℕ} {data : Bytes} {items : Forest Stored}
    (htree : u.tree? i = some (.field info sub size data, items)) (htype : info.type ≠ .renamed) :
    s.lookup this name = .ok (found t (pos ++ treePos i) info sub size data items) := by
  have hat : (arrange (start t pos) u).tree? i
      = some (.field info sub (start t (pos ++ treePos i)) size,
          arrange (start t (pos ++ treePos i)
            + (Stored.bytes (.field info sub size data) items.roots).length) items) := by
    have hstart : start t (pos ++ treePos i)
        = Forest.offset Stored.bytes (start t pos) u (treePos i) :=
      Forest.offset_append _ hthis.at_eq 0 _
    rw [← Forest.get?_treePos, arrange, Forest.get?_layout, Forest.get?_treePos, htree, hstart]
    rfl
  exact (h.leads hthis).lookup_eq hname ((fieldIndex_arrange name _ u).trans hi) hat htype

/-! ### A change of one value -/

variable {p : Pos} {a a' : Stored} {items : Forest Stored}

/-- Some of the bytes of a node are written over. -/
theorem Rep.write (h : Rep s t) (hp : t.get? p = some (a, items))
    (hplace : ∀ o, a'.place o = a.place o) {offset : ℕ} {bytes : Bytes}
    (hbytes : (a.bytes items.roots).overwrite offset bytes = a'.bytes items.roots)
    (hle : offset + bytes.length ≤ (a.bytes items.roots).length) :
    ∃ s', s.pwrite v bytes (start t p + offset) = .ok s' ∧ s'.description = s.description ∧
      Rep s' (t.modify (fun _ _ => (a', items)) p) := by
  obtain ⟨pre, post, hpre, himage, hmod⟩ := image_split hp
  have hin : start t p + offset + bytes.length ≤ (image t).length := by
    rw [himage]
    simp only [List.length_append]
    omega
  obtain ⟨s', hrun, hdesc, hfields, hcontains⟩ := h.contains.pwrite v _ _ hin
  have hlen : (a'.bytes items.roots).length = (a.bytes items.roots).length := by
    rw [← hbytes, List.length_overwrite_of_le hle]
  have hover : (image t).overwrite (start t p + offset) bytes
      = image (t.modify (fun _ _ => (a', items)) p) := by
    rw [himage, hmod, ← hbytes, List.append_assoc,
      List.overwrite_append_right _ _ (by omega), hpre.symm, Nat.add_sub_cancel_left,
      List.append_assoc, List.overwrite_append_left _ hle, List.append_assoc, List.append_assoc]
  refine ⟨s', hrun, hdesc, hover ▸ hcontains, ?_⟩
  rw [hfields, h.objects]
  exact (Forest.layout_modify_same _ _ hp hlen hplace 0).symm

/-- The change of the size that is cached, and of the offsets after it, that follows a change of
the bytes. -/
theorem Rep.resize (h : Rep s t) {info : FieldInfo} {d : Description} {size size' : ℕ}
    {data data' : Bytes} (hp : t.get? p = some (.field info d size data, items)) {diff : ℤ}
    (hdiff : ((Stored.bytes (.field info d size' data') items.roots).length : ℤ)
      = (Stored.bytes (.field info d size data) items.roots).length + diff)
    (hpos : 0 < (Stored.bytes (.field info d size data) items.roots).length)
    (hedit : Edits s s'
      (image (t.modify (fun _ _ => (.field info d size' data', items)) p))) :
    Rep ((s'.setSize p size').adjustOffsets (start t p) diff)
      (t.modify (fun _ _ => (.field info d size' data', items)) p) := by
  obtain ⟨hdesc, hfields, hcontains⟩ := hedit
  constructor
  · have hbuffer : ((s'.setSize p size').adjustOffsets (start t p) diff).buffer = s'.buffer := by
      unfold adjustOffsets setSize
      split <;> rfl
    obtain ⟨vb, hvb, hrest⟩ := hcontains
    exact ⟨vb, hbuffer.trans hvb, hrest⟩
  · rw [adjustOffsets_fields]
    have hlayout : (((arrange 0 t).modify (setSizeOf size') p).map
          (adjustOffset (start t p) diff)).modify (fun a items => (a, items)) p
        = arrange 0 (t.modify (fun _ _ => (.field info d size' data', items)) p) := by
      apply Forest.layout_modify (shifts_adjustOffset (start t p) diff) hp le_rfl
      · change start t p < start t p + _ + _
        omega
      · rw [hdiff]
        ring
      · rintro o rfl x rfl
        refine Prod.ext ((shifts_adjustOffset _ _).keep _ (.field info d size' data') le_rfl) ?_
        apply Forest.map_layout_move (shifts_adjustOffset _ _)
        · change start t p < start t p + _
          omega
        · push_cast
          rw [hdiff]
          ring
    rw [modify_id] at hlayout
    rw [setSize, hfields, h.objects]
    exact hlayout

/-! ### Counted bytes -/

section Counted

variable (pre count old rest : Bytes) {count' new : Bytes}

theorem insertRange_between (l r bytes : Bytes) :
    (l ++ r).insertRange l.length bytes = l ++ bytes ++ r := by
  simp [List.insertRange]

theorem eraseRange_between (l bytes r : Bytes) :
    (l ++ bytes ++ r).eraseRange l.length bytes.length = l ++ r := by
  simp [List.eraseRange, List.drop_append]

/-- Other bytes of the same number. -/
theorem overwrite_data (h : new.length = old.length) :
    (pre ++ (count ++ old) ++ rest).overwrite (pre.length + count.length) new
      = pre ++ (count ++ new) ++ rest := by
  have hmiddle := List.overwrite_append_middle (a := pre ++ count) rest h
  simpa only [List.length_append, List.append_assoc] using hmiddle

/-- Another count. -/
theorem overwrite_count (h : count'.length = count.length) :
    (pre ++ (count ++ old) ++ rest).overwrite pre.length count'
      = pre ++ (count' ++ old) ++ rest := by
  have hmiddle := List.overwrite_append_middle (a := pre) (old ++ rest) h
  simpa only [List.append_assoc] using hmiddle

/-- More bytes, the first ones over those that are there. -/
theorem insertRange_data (h : old.length ≤ new.length) :
    ((pre ++ (count ++ old) ++ rest).overwrite (pre.length + count.length)
          (new.take old.length)).insertRange
        (pre.length + count.length + old.length) (new.drop old.length)
      = pre ++ (count ++ new) ++ rest := by
  have hlen : (new.take old.length).length = old.length := List.length_take_of_le h
  have hl : (pre ++ (count ++ new.take old.length)).length
      = pre.length + count.length + old.length := by
    simp only [List.length_append, hlen]
    omega
  rw [overwrite_data pre count old rest hlen, ← hl, insertRange_between, List.append_assoc pre,
    List.append_assoc count, List.take_append_drop]

/-- Less bytes, over the first ones of those that are there. -/
theorem eraseRange_data (h : new.length ≤ old.length) :
    ((pre ++ (count ++ old) ++ rest).overwrite (pre.length + count.length) new).eraseRange
        (pre.length + count.length + new.length) (old.length - new.length)
      = pre ++ (count ++ new) ++ rest := by
  have hsplit : pre ++ (count ++ old) ++ rest
      = pre ++ (count ++ old.take new.length) ++ (old.drop new.length ++ rest) := by
    conv_lhs => rw [← List.take_append_drop new.length old]
    simp only [List.append_assoc]
  have hl : (pre ++ (count ++ new)).length = pre.length + count.length + new.length := by
    simp only [List.length_append]
    omega
  have hdrop : (old.drop new.length).length = old.length - new.length := List.length_drop
  rw [hsplit, overwrite_data pre count _ _ (List.length_take_of_le h).symm, ← hl, ← hdrop,
    ← List.append_assoc, eraseRange_between]

/-- Less bytes, once those after them are gone. -/
theorem overwrite_eraseRange (h : new.length ≤ old.length) (hcount : count'.length = count.length) :
    (((pre ++ (count ++ old) ++ rest).eraseRange (pre.length + count.length + new.length)
          (old.length - new.length)).overwrite pre.length count').overwrite
        (pre.length + count.length) new
      = pre ++ (count' ++ new) ++ rest := by
  have hsplit : pre ++ (count ++ old) ++ rest
      = pre ++ (count ++ old.take new.length) ++ old.drop new.length ++ rest := by
    conv_lhs => rw [← List.take_append_drop new.length old]
    simp only [List.append_assoc]
  have hl : (pre ++ (count ++ old.take new.length)).length
      = pre.length + count.length + new.length := by
    simp only [List.length_append, List.length_take_of_le h]
    omega
  have hdrop : (old.drop new.length).length = old.length - new.length := List.length_drop
  rw [hsplit, ← hl, ← hdrop, eraseRange_between, overwrite_count pre count _ rest hcount,
    ← hcount, overwrite_data pre count' _ rest (List.length_take_of_le h).symm]

end Counted

/-! ### Strings and buffers -/

/-- A counted value and where its bytes are. -/
structure CountedField (s : Structure) (t : Forest Stored) (f : Field) (k : ℕ) (data : Bytes) :
    Prop where
  rep : Rep s t
  get_eq : t.get? f.pos = some (.field f.info f.sub f.size data, .nil)
  shape : f.info.type.shape = .counted k
  size_eq : f.size = data.length
  lt : data.length < 256 ^ k
  offset_eq : f.offset = start t f.pos

variable {f : Field} {k : ℕ} {data value : Bytes}

/-- A counted value that was found. -/
theorem Rep.countedField (h : Rep s t) {p : Pos} {info : FieldInfo} {d : Description}
    (hp : t.get? p = some (.field info d data.length data, .nil))
    (hshape : info.type.shape = .counted k) (hlt : data.length < 256 ^ k) :
    CountedField s t (found t p info d data.length data .nil) k data where
  rep := h
  get_eq := hp
  shape := hshape
  size_eq := rfl
  lt := hlt
  offset_eq := rfl

theorem CountedField.typeFieldSize (h : CountedField s t f k data) :
    f.info.typeFieldSize = k := by
  rw [FieldInfo.typeFieldSize, h.shape]

theorem bytes_counted {info : FieldInfo} (h : info.type.shape = .counted k) (d : Description)
    (size : ℕ) (data : Bytes) (n : ℕ) :
    Stored.bytes (.field info d size data) n = toBytes k size ++ data := by
  rw [Stored.bytes, h]

/-- The values after a counted one was changed. -/
def withData (t : Forest Stored) (f : Field) (data : Bytes) : Forest Stored :=
  t.modify (fun _ _ => (.field f.info f.sub data.length data, .nil)) f.pos

/-- The bytes around a counted value. -/
theorem CountedField.split (h : CountedField s t f k data) :
    ∃ pre post, pre.length = f.offset ∧
      image t = pre ++ (toBytes k data.length ++ data) ++ post ∧
      ∀ data', image (withData t f data') = pre ++ (toBytes k data'.length ++ data') ++ post := by
  obtain ⟨pre, post, hpre, himage, hmod⟩ := image_split h.get_eq
  refine ⟨pre, post, hpre.trans h.offset_eq.symm, ?_, fun data' => ?_⟩
  · rw [himage, bytes_counted h.shape, h.size_eq, image_nil, List.append_nil]
  · rw [withData, hmod, bytes_counted h.shape, image_nil, List.append_nil]

/-- The size of a counted value is read. -/
theorem CountedField.pread_size (h : CountedField s t f k data) :
    s.pread k f.offset = .ok (toBytes k data.length) := by
  obtain ⟨pre, post, hpre, himage, -⟩ := h.split
  have hlen := UInt512.length_toBytes k data.length
  rw [h.rep.contains.pread, himage, ← hpre]
  · have hslice := List.slice_append_middle pre (toBytes k data.length) (data ++ post)
    rw [hlen] at hslice
    simpa only [List.append_assoc] using congrArg Except.ok hslice
  · rw [himage, ← hpre]
    simp only [List.length_append, hlen]
    omega

/-- The value itself is read. -/
theorem CountedField.pread_data (h : CountedField s t f k data) :
    s.pread data.length (f.offset + k) = .ok data := by
  obtain ⟨pre, post, hpre, himage, -⟩ := h.split
  have hlen := UInt512.length_toBytes k data.length
  rw [h.rep.contains.pread, himage, ← hpre]
  · have hslice := List.slice_append_middle (pre ++ toBytes k data.length) data post
    rw [List.length_append, hlen] at hslice
    simpa only [List.append_assoc] using congrArg Except.ok hslice
  · rw [himage, ← hpre]
    simp only [List.length_append, hlen]
    omega

theorem CountedField.ofBytes_size (h : CountedField s t f k data) :
    ofBytes (toBytes k data.length) = data.length := by
  rw [UInt512.ofBytes_toBytes, Nat.mod_eq_of_lt h.lt]

/-- The size that is cached and the offsets follow the bytes. -/
theorem CountedField.resize (h : CountedField s t f k data) (hk : 0 < k)
    (hedit : Edits s s' (image (withData t f value))) {diff : ℤ}
    (hdiff : diff = (value.length : ℤ) - data.length) :
    ((s'.setSize f.pos value.length).adjustOffsets f.offset diff).description = s.description ∧
      Rep ((s'.setSize f.pos value.length).adjustOffsets f.offset diff) (withData t f value) := by
  constructor
  · rw [← hedit.1]
    unfold adjustOffsets setSize
    split <;> rfl
  · rw [h.offset_eq]
    apply h.rep.resize h.get_eq _ _ hedit
    · rw [bytes_counted h.shape, bytes_counted h.shape, List.length_append, List.length_append,
        UInt512.length_toBytes, UInt512.length_toBytes, hdiff]
      push_cast
      ring
    · rw [bytes_counted h.shape, List.length_append, UInt512.length_toBytes]
      omega

/-- The bytes of a value of the same size. -/
theorem CountedField.same (h : CountedField s t f k data) (hlen : value.length = data.length) :
    ∃ s', s.pwrite v value (f.offset + k) = .ok s' ∧ Edits s s' (image (withData t f value)) := by
  obtain ⟨pre, post, hpre, himage, hmod⟩ := h.split
  have hcount := UInt512.length_toBytes k data.length
  have hover := overwrite_data pre (toBytes k data.length) data post hlen
  rw [hcount, hpre, ← himage] at hover
  rw [hmod, hlen, ← hover]
  apply h.rep.contains.pwrite v
  rw [himage, ← hpre]
  simp only [List.length_append, hcount, hlen]
  omega

/-- The bytes of a longer value. -/
theorem CountedField.grow (h : CountedField s t f k data) (hlen : data.length ≤ value.length) :
    ∃ s₁ s₂ s₃, s.pwrite v (toBytes k value.length) f.offset = .ok s₁ ∧
      s₁.pwrite v (value.take data.length) (f.offset + k) = .ok s₂ ∧
      s₂.pinsert v (value.drop data.length) (f.offset + k + data.length) = .ok s₃ ∧
      Edits s s₃ (image (withData t f value)) := by
  obtain ⟨pre, post, hpre, himage, hmod⟩ := h.split
  have hcount (n : ℕ) := UInt512.length_toBytes k n
  have htake : (value.take data.length).length = data.length := List.length_take_of_le hlen
  -- the count, then the bytes that were there, then those that are new
  have hover := overwrite_count pre (toBytes k data.length) data post
    ((hcount value.length).trans (hcount data.length).symm)
  have hinsert := insertRange_data pre (toBytes k value.length) data post hlen
  rw [hpre, ← himage] at hover
  rw [hcount, hpre, ← hover, ← hmod] at hinsert
  have htotal : (image t).length = f.offset + (k + data.length) + post.length := by
    rw [himage, ← hpre]
    simp only [List.length_append, hcount]
  obtain ⟨s₁, hrun₁, hedit₁⟩ := h.rep.contains.pwrite v (toBytes k value.length) f.offset
    (by rw [hcount]; omega)
  have hlen₁ : ((image t).overwrite f.offset (toBytes k value.length)).length
      = (image t).length := List.length_overwrite_of_le (by rw [hcount]; omega)
  obtain ⟨s₂, hrun₂, hedit₂⟩ := hedit₁.2.2.pwrite v (value.take data.length)
    (f.offset + k) (by rw [htake, hlen₁]; omega)
  obtain ⟨s₃, hrun₃, hedit₃⟩ := hedit₂.2.2.pinsert v (value.drop data.length)
    (f.offset + k + data.length)
    (by rw [List.length_overwrite_of_le (by rw [htake, hlen₁]; omega), hlen₁]; omega)
  rw [hinsert] at hedit₃
  exact ⟨s₁, s₂, s₃, hrun₁, hrun₂, hrun₃, (hedit₁.trans hedit₂).trans hedit₃⟩

/-- The bytes of a shorter value, the last ones erased at the end. -/
theorem CountedField.shrink (h : CountedField s t f k data) (hlen : value.length ≤ data.length) :
    ∃ s₁ s₂ s₃ n, s.pwrite v (toBytes k value.length) f.offset = .ok s₁ ∧
      s₁.pwrite v value (f.offset + k) = .ok s₂ ∧
      s₂.perase (data.length - value.length) (f.offset + k + value.length) = .ok (s₃, n) ∧
      Edits s s₃ (image (withData t f value)) := by
  obtain ⟨pre, post, hpre, himage, hmod⟩ := h.split
  have hcount (n : ℕ) := UInt512.length_toBytes k n
  have hover := overwrite_count pre (toBytes k data.length) data post
    ((hcount value.length).trans (hcount data.length).symm)
  have herase := eraseRange_data pre (toBytes k value.length) data post hlen
  rw [hpre, ← himage] at hover
  rw [hcount, hpre, ← hover, ← hmod] at herase
  have htotal : (image t).length = f.offset + (k + data.length) + post.length := by
    rw [himage, ← hpre]
    simp only [List.length_append, hcount]
  obtain ⟨s₁, hrun₁, hedit₁⟩ := h.rep.contains.pwrite v (toBytes k value.length) f.offset
    (by rw [hcount]; omega)
  have hlen₁ : ((image t).overwrite f.offset (toBytes k value.length)).length
      = (image t).length := List.length_overwrite_of_le (by rw [hcount]; omega)
  obtain ⟨s₂, hrun₂, hedit₂⟩ := hedit₁.2.2.pwrite v value (f.offset + k)
    (by rw [hlen₁]; omega)
  obtain ⟨s₃, n, hrun₃, hedit₃⟩ := hedit₂.2.2.perase (data.length - value.length)
    (f.offset + k + value.length)
  rw [herase] at hedit₃
  exact ⟨s₁, s₂, s₃, n, hrun₁, hrun₂, hrun₃, (hedit₁.trans hedit₂).trans hedit₃⟩

/-- The bytes of a shorter value, the last ones erased at the start. -/
theorem CountedField.shrink_first (h : CountedField s t f k data)
    (hlen : value.length ≤ data.length) :
    ∃ s₁ s₂ s₃ n,
      s.perase (data.length - value.length) (f.offset + k + value.length) = .ok (s₁, n) ∧
      s₁.pwrite v (toBytes k value.length) f.offset = .ok s₂ ∧
      s₂.pwrite v value (f.offset + k) = .ok s₃ ∧
      Edits s s₃ (image (withData t f value)) := by
  obtain ⟨pre, post, hpre, himage, hmod⟩ := h.split
  have hcount (n : ℕ) := UInt512.length_toBytes k n
  have hover := overwrite_eraseRange pre (toBytes k data.length) data post hlen
    ((hcount value.length).trans (hcount data.length).symm)
  rw [hcount, hpre, ← himage, ← hmod] at hover
  have htotal : (image t).length = f.offset + (k + data.length) + post.length := by
    rw [himage, ← hpre]
    simp only [List.length_append, hcount]
  obtain ⟨s₁, n, hrun₁, hedit₁⟩ := h.rep.contains.perase (data.length - value.length)
    (f.offset + k + value.length)
  have hlen₁ := List.length_eraseRange (l := image t) (n := data.length - value.length)
    (show f.offset + k + value.length + (data.length - value.length) ≤ (image t).length by omega)
  obtain ⟨s₂, hrun₂, hedit₂⟩ := hedit₁.2.2.pwrite v (toBytes k value.length) f.offset
    (by rw [hcount]; omega)
  obtain ⟨s₃, hrun₃, hedit₃⟩ := hedit₂.2.2.pwrite v value (f.offset + k)
    (by rw [List.length_overwrite_of_le (by rw [hcount]; omega)]; omega)
  rw [hover] at hedit₃
  exact ⟨s₁, s₂, s₃, n, hrun₁, hrun₂, hrun₃, (hedit₁.trans hedit₂).trans hedit₃⟩

theorem diff32_eq {a b : ℕ} (ha : a < 2 ^ 31) (hb : b < 2 ^ 31) : diff32 a b = (a : ℤ) - b := by
  unfold diff32 sub32
  dsimp only
  split <;> split <;> omega

/-- A string of a size that its count can have is stored; another one is refused. -/
theorem CountedField.setString_eq (h : CountedField s t f k data) {name : List Char}
    (hf : s.lookup this name = .ok f) (htype : isPString f.info.type = true)
    (h32 : value.length < 2 ^ 32) :
    if value.length < 2 ^ (k * 8) then
      ∃ s₁, Edits s s₁ (image (withData t f value)) ∧
        s.setString v this name value
          = .ok ((s₁.setSize f.pos value.length).adjustOffsets f.offset
              (diff32 value.length data.length))
    else ∃ e, s.setString v this name value = .error (e, s) := by
  have hrun : s.setString v this name value = (
      if 2 ^ (k * 8) ≤ value.length then
        .error (.thrown .outOfRange
          ("the input string is too large for this string field (" ++ toString value.length
            ++ " >= " ++ toString (2 ^ (k * 8)) ++ ")."), s)
      else do
        let s ←
          if value.length = data.length then s.pwrite v value (f.offset + k)
          else if data.length < value.length then do
            let s ← s.pwrite v (toBytes k value.length) f.offset
            let s ← s.pwrite v (value.take data.length) (f.offset + k)
            s.pinsert v (value.drop data.length) (f.offset + k + data.length)
          else do
            let s ← s.pwrite v (toBytes k value.length) f.offset
            let s ← s.pwrite v value (f.offset + k)
            let erased ← s.perase (data.length - value.length) (f.offset + k + value.length)
            .ok erased.1
        .ok ((s.setSize f.pos value.length).adjustOffsets f.offset
          (diff32 value.length data.length))) := by
    have hdrop : (value.drop data.length).take (value.length - data.length)
        = value.drop data.length := List.take_of_length_le (by rw [List.length_drop])
    unfold isPString at htype
    rw [decide_eq_true_iff] at htype
    unfold setString
    rw [hf]
    simp only [check, Except.mapError, ok_bind, h.typeFieldSize]
    rcases htype with htype | htype | htype
    all_goals
      rw [htype]
      simp only [h.pread_size, ok_bind, h.ofBytes_size, h.size_eq, ne_eq, not_true_eq_false,
        if_false, Nat.mod_eq_of_lt h32, List.take_length, hdrop]
  rw [hrun]
  split
  · next hlt =>
    rw [if_neg (Nat.not_le.2 hlt)]
    rcases Nat.lt_trichotomy value.length data.length with hlen | hlen | hlen
    · obtain ⟨s₁, s₂, s₃, n, h₁, h₂, h₃, hedit⟩ := h.shrink (v := v) hlen.le
      rw [if_neg hlen.ne, if_neg (Nat.lt_asymm hlen), h₁, ok_bind, h₂, ok_bind, h₃]
      exact ⟨s₃, hedit, rfl⟩
    · obtain ⟨s₁, hrun, hedit⟩ := h.same (v := v) hlen
      rw [if_pos hlen, hrun]
      exact ⟨s₁, hedit, rfl⟩
    · obtain ⟨s₁, s₂, s₃, h₁, h₂, h₃, hedit⟩ := h.grow (v := v) hlen.le
      rw [if_neg hlen.ne', if_pos hlen, h₁, ok_bind, h₂, ok_bind, h₃]
      exact ⟨s₃, hedit, rfl⟩
  · next hge =>
    rw [if_pos (Nat.not_lt.1 hge)]
    exact ⟨_, rfl⟩

/-- A buffer is stored. -/
theorem CountedField.setBuffer_eq (h : CountedField s t f k data) {name : List Char}
    (hf : s.lookup this name = .ok f)
    (htype : f.info.type = .buffer8 ∨ f.info.type = .buffer16 ∨ f.info.type = .buffer32)
    (hk : 0 < k) (hlt : value.length < 2 ^ (k * 8)) :
    ∃ s', s.setBuffer v this name value = .ok s' ∧ s'.description = s.description ∧
      Rep s' (withData t f value) := by
  have hrun : s.setBuffer v this name value = (
      if value.length < data.length then do
        let erased ← s.perase (data.length - value.length) (f.offset + k + value.length)
        let s ← erased.1.pwrite v (toBytes k value.length) f.offset
        let s ← s.pwrite v value (f.offset + k)
        .ok ((s.setSize f.pos value.length).adjustOffsets f.offset
          ((value.length : ℤ) - data.length))
      else if data.length < value.length then do
        let s ← s.pwrite v (toBytes k value.length) f.offset
        let s ← s.pwrite v (value.take data.length) (f.offset + k)
        let s ← s.pinsert v (value.drop data.length) (f.offset + k + data.length)
        .ok ((s.setSize f.pos value.length).adjustOffsets f.offset
          ((value.length : ℤ) - data.length))
      else s.pwrite v value (f.offset + k)) := by
    unfold setBuffer
    rw [hf]
    simp only [check, Except.mapError, ok_bind, h.typeFieldSize]
    rcases htype with htype | htype | htype
    all_goals
      rw [htype]
      simp only [if_neg (Nat.not_le.2 hlt), h.size_eq]
  rw [hrun]
  rcases Nat.lt_trichotomy value.length data.length with hlen | hlen | hlen
  · obtain ⟨s₁, s₂, s₃, n, h₁, h₂, h₃, hedit⟩ := h.shrink_first (v := v) hlen.le
    rw [if_pos hlen, h₁, ok_bind]
    dsimp only
    rw [h₂, ok_bind, h₃]
    exact ⟨_, rfl, h.resize hk hedit rfl⟩
  · obtain ⟨s₁, hrun, hdesc, hfields, hcontains⟩ := h.same (v := v) hlen
    rw [if_neg hlen.ge.not_gt, if_neg hlen.le.not_gt, hrun]
    refine ⟨s₁, rfl, hdesc, hcontains, ?_⟩
    rw [hfields, h.rep.objects]
    apply (Forest.layout_modify_same _ _ h.get_eq _ _ 0).symm
    · rw [bytes_counted h.shape, bytes_counted h.shape, List.length_append, List.length_append,
        UInt512.length_toBytes, UInt512.length_toBytes, hlen]
    · intro o
      rw [Stored.place_field, Stored.place_field, hlen, h.size_eq]
  · obtain ⟨s₁, s₂, s₃, h₁, h₂, h₃, hedit⟩ := h.grow (v := v) hlen.le
    rw [if_neg (Nat.lt_asymm hlen), if_pos hlen, h₁, ok_bind, h₂, ok_bind, h₃]
    exact ⟨_, rfl, h.resize hk hedit rfl⟩

end Structure

end Prinbee
