import Prinbee.Data.StructureDefaults

/-!
# Structures that were not changed yet

`init_buffer()` and each `new_array_item()` leave a structure whose fields have the defaults of
their descriptions, at every depth, as long as these are such as `Structure.AllSettable` says.

An item is put before the field after its array.  Without one it goes to the size of the structure
that the array is a field of, which is an offset in the buffer only where this structure starts at
0: in the root.  Then all that starts past the byte before the item is moved, and with it a field
without bytes at the end of the last item.

## Main definitions

* `Structure.FreshOver`, `Structure.Fresh` — what `init_buffer()` and `new_array_item()` keep.
* `Structure.Addable` — a call of `new_array_item()` that keeps it.

## Main results

* `Structure.initBuffer_fresh` — a structure with its first buffer.
* `Structure.newArrayItem_fresh` — a structure with a new item.
-/

namespace Prinbee

open Forest (Pos treePos)
open UInt512 (ofBytes toBytes)
open StructType (Shape)

/-- A field of the type has bytes. -/
def FieldInfo.hasBytes (info : FieldInfo) : Bool :=
  match info.type.shape with
  | .fixed width => width ≠ 0
  | .char => info.charSize ≠ 0
  | .counted _ | .array _ => true
  | _ => false

/-- The last field has bytes. -/
def Description.endsInBytes : Description → Bool
  | .field info _ next => if next.infos = [] then info.hasBytes else next.endsInBytes
  | _ => false

/-- No field has bytes. -/
def Description.noBytes (d : Description) : Bool := d.infos.all fun info => !info.hasBytes

namespace Structure

variable {v : VectorCapacity} {lib : Conversions} {s s' : Structure} {t u : Forest Stored}
  {this : Pointer} {pos : Pos} {info : FieldInfo} {d : Description} {size : ℕ} {data : Bytes}
  {items : Forest Stored}

/-! ### The values -/

/-- A field has its default, and an array has as many items as its count can say.  The items of an
array whose items end in bytes end in bytes. -/
structure FieldFresh (lib : Conversions) (info : FieldInfo) (d : Description) (size : ℕ)
    (data : Bytes) (items : Forest Stored) : Prop where
  default_eq : defaultData lib info = .ok data
  size_eq : size = data.length
  fit : Fit info data
  no_items : (∀ k, info.type.shape ≠ .array k) → items = .nil
  roots_lt : ∀ k, info.type.shape = .array k → items.roots < 256 ^ k
  items_eq : items.Every fun a _ => a = .item
  ends : d.endsInBytes = true → items.EndsIn Stored.bytes

/-- A node of values that were not changed. -/
def NodeFresh (lib : Conversions) : Stored → Forest Stored → Prop
  | .field info d size data, items => FieldFresh lib info d size data items
  | .item, fields => ∃ d, AllSettable lib d ∧ Over d fields

/-- A structure with values that were not changed. -/
structure FreshOver (lib : Conversions) (s : Structure) (t : Forest Stored) : Prop where
  rep : Rep s t
  settable : AllSettable lib s.description
  described : Over s.description t
  nodes : t.All (NodeFresh lib)

/-- The structure was not changed since it was given a buffer, but for new items. -/
def Fresh (lib : Conversions) (s : Structure) : Prop := ∃ t, FreshOver lib s t

/-- The defaults of a description. -/
theorem all_flat (h : ∀ info ∈ d.infos, defaultData lib info = .ok (declared lib info) ∧
      Fit info (declared lib info)) : (flat (declared lib) d).All (NodeFresh lib) := by
  induction d with
  | null | «end» => exact trivial
  | field info sub next _ ih =>
    rw [Description.infos, List.forall_mem_cons] at h
    refine ⟨⟨h.1.1, rfl, h.1.2, fun _ => rfl, fun k _ => ?_, trivial, fun _ => trivial⟩, trivial,
      ih h.2⟩
    exact Nat.pow_pos (by decide)

theorem bytes_ne_nil (hbytes : info.hasBytes = true) (hfit : Fit info data) (size n : ℕ) :
    Stored.bytes (.field info d size data) n ≠ [] := by
  apply List.ne_nil_of_length_pos
  have hpos (k : ℕ) (h : info.type.shape = .counted k ∨ info.type.shape = .array k) : 0 < k := by
    revert h
    cases info.type <;> simp [StructType.shape] <;> omega
  unfold FieldInfo.hasBytes at hbytes
  unfold Fit at hfit
  unfold Stored.bytes
  dsimp only
  cases h : info.type.shape with
  | fixed width | char =>
    rw [h, decide_eq_true_iff] at hbytes
    rw [h] at hfit
    exact Nat.pos_of_ne_zero fun hzero => hbytes (hfit.symm.trans hzero)
  | counted k =>
    dsimp only
    rw [List.length_append, UInt512.length_toBytes]
    exact Nat.add_pos_left (hpos k (.inl h)) _
  | array k =>
    dsimp only
    rw [UInt512.length_toBytes]
    exact hpos k (.inr h)
  | «structure» | renamed | other =>
    rw [h] at hbytes
    cases hbytes

/-- Fields that end in bytes start before their end. -/
theorem endsIn_flat {value : FieldInfo → Bytes} (hends : d.endsInBytes = true)
    (hfit : ∀ info ∈ d.infos, Fit info (value info)) :
    (flat value d).EndsIn Stored.bytes ∧ image (flat value d) ≠ [] := by
  induction d with
  | null | «end» => cases hends
  | field info sub next _ ih =>
    rw [Description.infos, List.forall_mem_cons] at hfit
    rw [Description.endsInBytes] at hends
    have hne : image (flat value (.field info sub next)) ≠ [] ∧
        (flat value next).EndsIn Stored.bytes := by
      rw [flat, image_node, Forest.roots_nil]
      split at hends
      · next hlast =>
        refine ⟨fun h => bytes_ne_nil (d := sub) hends hfit.1 _ 0 (List.append_eq_nil_iff.1 h).1, ?_⟩
        cases next with
        | null | «end» => exact trivial
        | field info' sub' next' => cases hlast
      · obtain ⟨hnext, hne⟩ := ih hends hfit.2
        refine ⟨fun h => hne ?_, hnext⟩
        exact (List.append_eq_nil_iff.1 (List.append_eq_nil_iff.1 h).2).2
    exact ⟨⟨hne.1, fun _ => trivial, hne.2⟩, hne.1⟩

/-- Fields without bytes. -/
theorem image_flat_of_noBytes {value : FieldInfo → Bytes} (hno : d.noBytes = true)
    (hfit : ∀ info ∈ d.infos, Fit info (value info)) : image (flat value d) = [] := by
  induction d with
  | null | «end» => rfl
  | field info sub next _ ih =>
    rw [Description.infos, List.forall_mem_cons] at hfit
    rw [Description.noBytes, Description.infos, List.all_cons, Bool.and_eq_true,
      Bool.not_eq_true'] at hno
    have hnone : Stored.bytes (.field info sub (value info).length (value info)) 0 = [] := by
      obtain ⟨hbytes, -⟩ := hno
      obtain ⟨hfit, -⟩ := hfit
      unfold FieldInfo.hasBytes at hbytes
      unfold Fit at hfit
      unfold Stored.bytes
      dsimp only
      cases h : info.type.shape with
      | fixed width | char =>
        rw [h, decide_eq_false_iff_not, not_not] at hbytes
        rw [h] at hfit
        exact List.length_eq_zero_iff.1 (hfit.trans hbytes)
      | counted k | array k =>
        rw [h] at hbytes
        cases hbytes
      | renamed =>
        rw [h] at hfit
        exact hfit
      | «structure» | other =>
        rw [h] at hfit
        cases hfit
    rw [flat, image_node, Forest.roots_nil, hnone, ih hno.2 hfit.2, image_nil]
    rfl

/-! ### The first buffer -/

theorem wellFormed_emptyBuffer : emptyBuffer.WellFormed where
  chunks b hb := by cases hb
  total := rfl

/-- A new structure that was given its first buffer. -/
theorem initBuffer_fresh (hlib : SizedConversions lib) (hd : AllSettable lib s.description)
    (h : s.initBuffer v lib = .ok s') : FreshOver lib s' (flat (declared lib) s.description) ∧
      s'.description = s.description := by
  unfold initBuffer at h
  simp only [bind_eq_ok, check_eq_ok, Prod.exists] at h
  obtain ⟨fields, size, hparse, s₁, n, hbuffer, hdefaults⟩ := h
  obtain ⟨rfl, rfl, hfits⟩ := parse_none hd hparse
  rw [Nat.zero_add] at hbuffer
  obtain ⟨m, hzeros⟩ := image_zeros s.description
  obtain ⟨vb, hrun, hbecame⟩ := emptyBuffer.pwrite_eq v wellFormed_emptyBuffer
    (List.replicate (image (flat zeros s.description)).length 0) 0 true (Nat.zero_le _)
    (fun h => absurd h.symm Bool.false_ne_true) trivial
  rw [hrun] at hbuffer
  cases hbuffer
  have hcontents : vb.contents = image (flat zeros s.description) := by
    rw [hbecame.contents, hzeros, List.length_replicate]
    exact List.overwrite_length _ []
  have howned : emptyBuffer.Owned := fun i k hc => by
    obtain ⟨b, hb, -⟩ := hc
    cases hb
  have hrep : Rep { s with buffer := some vb, fields := arrange 0 (flat zeros s.description) }
      (id (Forest.nil.append (flat zeros s.description))) :=
    ⟨⟨vb, rfl, hbecame.wellFormed, hbecame.owned howned, hcontents⟩, rfl⟩
  obtain ⟨hall, hdesc, hrep'⟩ := setDefaults_ok hlib context_root hd hfits (fun _ _ => rfl) hrep
    hdefaults
  refine ⟨⟨hrep', ?_, ?_, all_flat hall⟩, hdesc⟩
  · rw [hdesc]
    exact hd
  · rw [hdesc]
    exact over_flat _ _

/-! ### Finding a field -/

/-- Every structure under a structure that was not changed has fields of a description. -/
theorem FreshOver.fields (h : FreshOver lib s t) (hthis : Points t this pos u) :
    ∃ d, AllSettable lib d ∧ Over d u := by
  cases this with
  | none =>
    obtain ⟨-, rfl⟩ := hthis
    exact ⟨s.description, h.settable, h.described⟩
  | some q => exact (h.nodes.get? hthis.2).1

/-- A pointer that leads to a structure leads to values. -/
theorem Rep.points (h : Rep s t) {hasBuffer : Bool} {fields : Forest Cached}
    (hthis : s.deref this = .ok (hasBuffer, pos, fields)) :
    hasBuffer = true ∧ ∃ u, Points t this pos u ∧ fields = arrange (start t pos) u := by
  cases this with
  | none =>
    cases hthis
    obtain ⟨vb, hvb, -⟩ := h.contains
    refine ⟨by rw [hvb]; rfl, t, ⟨rfl, rfl⟩, ?_⟩
    rw [h.objects, start, Forest.offset_nil_pos]
  | some q =>
    unfold deref at hthis
    dsimp only at hthis
    rw [h.objects, arrange, Forest.get?_layout] at hthis
    cases hq : t.get? q with
    | none => rw [hq] at hthis; cases hthis
    | some x =>
      obtain ⟨a, u⟩ := x
      rw [hq] at hthis
      cases a with
      | field info d size data => cases hthis
      | item =>
        cases hthis
        refine ⟨rfl, u, ⟨rfl, hq⟩, ?_⟩
        rw [start, Forest.offset_down_of_get? _ hq]
        rfl

/-- A path in a structure without structures is that of one of its fields. -/
theorem getFieldLoop_pos {fields : Forest Cached}
    (hfields : ∀ i info sub offset size items,
      fields.tree? i = some (.field info sub offset size, items) → info.type ≠ .structure)
    {acc name : List Char} {p : Pos} (h : getFieldLoop fields pos acc name = .ok p) :
    ∃ i, p = pos ++ treePos i := by
  induction name generalizing acc with
  | nil =>
    rw [getFieldLoop, bind_eq_ok] at h
    obtain ⟨i, -, h⟩ := h
    exact ⟨i, (Except.ok.inj h).symm⟩
  | cons c name ih =>
    rw [getFieldLoop] at h
    split at h
    · rw [bind_eq_ok] at h
      obtain ⟨i, -, h⟩ := h
      exact ⟨i, (Except.ok.inj h).symm⟩
    · split at h
      · rw [bind_eq_ok] at h
        obtain ⟨i, -, h⟩ := h
        split at h
        · next htree =>
          rw [if_neg (hfields _ _ _ _ _ _ htree)] at h
          split at h
          · split at h
            · exact ⟨i, (Except.ok.inj h).symm⟩
            · cases h
          · cases h
        · cases h
      · exact ih h

/-- What a lookup finds is one of the fields of the structure. -/
theorem FreshOver.lookup_found (h : FreshOver lib s t) {name : List Char} {f : Field}
    (hf : s.lookup this name = .ok f) :
    ∃ pos u i info d size data items, Points t this pos u ∧
      s.deref this = .ok (true, pos, arrange (start t pos) u) ∧
      u.tree? i = some (.field info d size data, items) ∧
      f = found t (pos ++ treePos i) info d size data items := by
  unfold lookup getField at hf
  simp only [bind_eq_ok, Prod.exists] at hf
  obtain ⟨p, ⟨hasBuffer, pos, fields, hderef, hp⟩, hat⟩ := hf
  obtain ⟨rfl, u, hpoints, rfl⟩ := h.rep.points hderef
  obtain ⟨d, hd, hover⟩ := h.fields hpoints
  have hfields : ∀ i info sub offset size items, (arrange (start t pos) u).tree? i
      = some (.field info sub offset size, items) → info.type ≠ .structure := by
    intro i info sub offset size items htree
    rw [← Forest.get?_treePos, arrange, Forest.get?_layout, Forest.get?_treePos] at htree
    cases hu : u.tree? i with
    | none => rw [hu] at htree; cases htree
    | some x =>
      obtain ⟨a, items'⟩ := x
      obtain ⟨info', sub', size', data', rfl, hmem⟩ := hover.tree hu
      rw [hu] at htree
      cases htree
      exact (hd.1 info hmem).2.1
  simp only [Bool.not_true, Bool.false_eq_true, if_false] at hp
  split at hp
  · cases hp
  · obtain ⟨i, rfl⟩ := getFieldLoop_pos hfields hp
    unfold fieldAt at hat
    rw [h.rep.objects, arrange, Forest.get?_layout, hpoints.get?_append,
      Forest.get?_treePos] at hat
    cases hu : u.tree? i with
    | none => rw [hu] at hat; cases hat
    | some x =>
      obtain ⟨a, items⟩ := x
      obtain ⟨info, sub, size, data, rfl, -⟩ := hover.tree hu
      rw [hu] at hat
      cases hat
      exact ⟨pos, u, i, info, sub, size, data, items, hpoints, hderef, hu, rfl⟩

/-! ### A new item -/

/-- The end of a node and of those under it. -/
def stop (t : Forest Stored) (p : Pos) (a : Stored) (items : Forest Stored) : ℕ :=
  start t p + (a.bytes items.roots).length + (image items).length

theorem FreshOver.measured (h : FreshOver lib s t) : t.All Measured := by
  refine h.nodes.imp fun a items hnode => ?_
  cases a with
  | item => trivial
  | field info d size data =>
    refine ⟨hnode.size_eq, hnode.fit, fun htype => hnode.no_items fun k hk => ?_⟩
    rw [htype] at hk
    cases hk

/-- A new item goes to the end of those that are there: the next field starts there, and without
one it is the end of the structure, which only the root starts at offset 0. -/
theorem FreshOver.newItemOffset_eq (h : FreshOver lib s t) (hthis : Points t this pos u) {i : ℕ}
    (hu : u.tree? i = some (.field info d size data, items))
    (hnext : this = none ∨ s.fields.get? (pos ++ treePos i ++ [.next]) ≠ none) :
    s.newItemOffset (arrange (start t pos) u) (found t (pos ++ treePos i) info d size data items)
      = stop t (pos ++ treePos i) (.field info d size data) items := by
  have hget : t.get? (pos ++ treePos i) = some (.field info d size data, items) := by
    rw [hthis.get?_append, Forest.get?_treePos, hu]
  have hobject := Forest.get?_layout Stored.bytes Stored.place 0 t (pos ++ treePos i ++ [.next])
  unfold newItemOffset found
  dsimp only
  rw [h.rep.objects] at hnext ⊢
  rw [arrange, hobject] at hnext ⊢
  cases hafter : t.get? (pos ++ treePos i ++ [.next]) with
  | some x =>
    obtain ⟨a, items'⟩ := x
    obtain ⟨d', -, hover⟩ := h.fields hthis
    have htree : u.tree? (i + 1) = some (a, items') := by
      rw [List.append_assoc, hthis.get?_append] at hafter
      rw [← Forest.get?_treePos, ← hafter, treePos, treePos, List.replicate_succ']
    obtain ⟨info', sub', size', data', rfl, -⟩ := hover.tree htree
    rw [Option.map_some, Stored.place_field]
    dsimp only
    exact Forest.offset_next_of_get? _ hget 0
  | none =>
    rw [hafter] at hnext
    rcases hnext with rfl | hnext
    · obtain ⟨rfl, rfl⟩ := hthis
      rw [Option.map_none]
      dsimp only
      rw [getCurrentSize_arrange h.measured, stop, List.nil_append]
      exact (Forest.offset_last Stored.bytes hu hafter 0).symm
    · exact absurd rfl hnext

/-- The offsets follow a new item. -/
theorem arrange_addItem {p : Pos} (hp : t.get? p = some (.field info d size data, items)) {o : ℕ}
    (ho : stop t p (.field info d size data) items = o)
    (hown : 0 < (Stored.bytes (.field info d size data) items.roots).length)
    (hsame : (Stored.bytes (.field info d size data) (items.roots + 1)).length
      = (Stored.bytes (.field info d size data) items.roots).length)
    (hends : items.EndsIn Stored.bytes ∨ image u = []) :
    ((arrange 0 t).map (adjustOffset (o - 1) (image u).length)).modify
        (fun a fields => (a, fields.append (.node (.structure o true) (arrange o u) .nil))) p
      = arrange 0 (t.modify
          (fun _ _ => (.field info d size data, items.append (.node .item u .nil))) p) := by
  have hstop : start t p + (Stored.bytes (.field info d size data) items.roots).length
      + (image items).length = o := ho
  have hroots : (items.append (.node .item u .nil)).roots = items.roots + 1 := by
    rw [Forest.roots_append]
    rfl
  have hshift := shifts_adjustOffset (o - 1) (image u).length
  have hle : start t p ≤ o - 1 := by omega
  rw [← modify_id (arrange 0 t) p]
  apply Forest.layout_modify hshift hp hle
  · change _ < start t p + _ + (image items).length
    omega
  · change _ + ((image (items.append (.node .item u .nil))).length : ℤ) = _ + _ + _
    rw [hroots, hsame, image_append, image_node, bytes_item, image_nil, List.append_nil,
      List.nil_append, List.length_append]
    push_cast
    change _ = _ + ((image items).length : ℤ) + _
    ring
  · rintro _ rfl x rfl
    have hstart : Forest.offset Stored.bytes 0 t p = start t p := rfl
    dsimp only
    rw [hstart]
    -- the items that are there end before the new one, or there is nothing to move
    have hkeep : (arrange (start t p
          + (Stored.bytes (.field info d size data) items.roots).length) items).map
        (adjustOffset (o - 1) (image u).length)
          = arrange (start t p
              + (Stored.bytes (.field info d size data) items.roots).length) items := by
      rcases hends with hends | hnone
      · apply Forest.map_layout_keep_of_endsIn hshift hends
        change start t p + _ + (image items).length ≤ _
        omega
      · rw [hnone]
        exact map_adjustOffset_zero _ _
    have hnew : Forest.layout Stored.bytes Stored.place
        (start t p + (Stored.bytes (.field info d size data) items.roots).length
          + (Forest.items Stored.bytes items).length) (.node .item u .nil)
        = .node (.structure o true) (arrange o u) .nil := by
      change arrange (start t p + _ + (image items).length) _ = _
      rw [hstop, arrange_node, Stored.place_item]
      rfl
    rw [hshift.keep _ _ hle, hroots, hsame, Forest.layout_append, hnew]
    exact congrArg (fun x => (_, Forest.append x _)) hkeep

/-- What a call of `new_array_item()` that returns has done. -/
theorem newArrayItem_cases {name : List Char} {q : Pos}
    (h : s.newArrayItem v lib this name = .ok (s', q)) :
    ∃ f bytes hasBuffer pos own fields newOffset s₁ s₂,
      s.lookup this name = .ok f ∧ isArray f.info.type = true ∧
      s.pread f.info.typeFieldSize f.offset = .ok bytes ∧
      ofBytes bytes + 1 < 2 ^ (f.info.typeFieldSize * 8) ∧
      s.deref this = .ok (hasBuffer, pos, own) ∧
      parse none f.sub (s.newItemOffset own f) = .ok (fields, newOffset) ∧
      s.pinsert v (List.replicate (getCurrentSize fields 0) 0) (s.newItemOffset own f) = .ok s₁ ∧
      s₁.pwrite v (toBytes f.info.typeFieldSize (ofBytes bytes + 1)) f.offset = .ok s₂ ∧
      ((s₂.adjustOffsets (sub64 (s.newItemOffset own f) 1)
        ((newOffset : ℤ) - s.newItemOffset own f)).addItem f.pos (s.newItemOffset own f)
          fields).setDefaults v lib (some (f.pos ++ .down :: treePos f.items.roots)) f.sub
            = .ok s' := by
  rw [newArrayItem, bind_eq_ok] at h
  obtain ⟨f, hf, h⟩ := h
  rw [check_eq_ok] at hf
  unfold isArray
  split at h
  case h_4 => cases h
  case h_1 htype | h_2 htype | h_3 htype =>
    simp only [bind_eq_ok, check_eq_ok] at h
    obtain ⟨bytes, hbytes, h⟩ := h
    split at h
    · cases h
    · next hmax =>
      simp only [bind_eq_ok, check_eq_ok, Prod.exists, Except.ok.injEq, Prod.mk.injEq] at h
      obtain ⟨hasBuffer, pos, own, hderef, fields, newOffset, hparse, s₁, hinsert, s₂, hwrite,
        s₃, hdefaults, rfl, rfl⟩ := h
      exact ⟨f, bytes, hasBuffer, pos, own, fields, newOffset, s₁, s₂, hf, by simp [htype], hbytes,
        Nat.not_le.1 hmax, hderef, hparse, hinsert, hwrite, hdefaults⟩

theorem bytes_array {k : ℕ} (h : info.type.shape = .array k) (d : Description) (size : ℕ)
    (data : Bytes) (n : ℕ) : Stored.bytes (.field info d size data) n = toBytes k n := by
  rw [Stored.bytes, h]

/-- The bytes of a new item are zeros after those that are there, and the count is one more. -/
theorem Rep.insertItem (h : Rep s t) {p : Pos} {k : ℕ}
    (hp : t.get? p = some (.field info d size data, items)) (hshape : info.type.shape = .array k)
    (u : Forest Stored) :
    ∃ s₁ s₂, s.pinsert v (image u) (stop t p (.field info d size data) items) = .ok s₁ ∧
      s₁.pwrite v (toBytes k (items.roots + 1)) (start t p) = .ok s₂ ∧
      Edits s s₂ (image (t.modify
        (fun _ _ => (.field info d size data, items.append (.node .item u .nil))) p)) := by
  obtain ⟨pre, post, hpre, himage, hmod⟩ := image_split hp
  have hcount (n : ℕ) := UInt512.length_toBytes k n
  have hroots : (items.append (.node .item u .nil)).roots = items.roots + 1 := by
    rw [Forest.roots_append]
    rfl
  rw [bytes_array hshape] at himage
  have hstop : stop t p (.field info d size data) items
      = (pre ++ (toBytes k items.roots ++ image items)).length := by
    rw [stop, bytes_array hshape, ← hpre]
    simp only [List.length_append]
    omega
  have hinserted := insertRange_between (pre ++ (toBytes k items.roots ++ image items)) post
    (image u)
  have hover := overwrite_count pre (toBytes k items.roots) (image items ++ image u) post
    ((hcount (items.roots + 1)).trans (hcount items.roots).symm)
  rw [← hstop, ← himage] at hinserted
  rw [hpre] at hover
  obtain ⟨s₁, hrun₁, hedit₁⟩ := h.contains.pinsert v (image u)
    (stop t p (.field info d size data) items)
    (by rw [hstop, himage]; simp only [List.length_append]; omega)
  have hbytes : pre ++ (toBytes k items.roots ++ image items) ++ image u ++ post
      = pre ++ (toBytes k items.roots ++ (image items ++ image u)) ++ post := by
    simp only [List.append_assoc]
  rw [hinserted, hbytes] at hedit₁
  obtain ⟨s₂, hrun₂, hedit₂⟩ := hedit₁.2.2.pwrite v (toBytes k (items.roots + 1))
    (start t p) (by
      rw [← hpre, hcount]
      simp only [List.length_append, hcount]
      omega)
  have himage' : image (items.append (.node .item u .nil)) = image items ++ image u := by
    rw [image_append, image_node, bytes_item, image_nil, List.append_nil, List.nil_append]
  refine ⟨s₁, s₂, hrun₁, hrun₂, ?_⟩
  rw [hmod, hroots, bytes_array hshape, himage', ← hover]
  exact hedit₁.trans hedit₂

/-- A call of `new_array_item()` on an array whose items keep their defaults, and which a field
follows unless it is one of the root. -/
def Addable (lib : Conversions) (s : Structure) (call : Pointer × List Char) : Prop :=
  ∀ f, s.lookup call.1 call.2 = .ok f →
    (call.1 = none ∨ s.fields.get? (f.pos ++ [.next]) ≠ none) ∧ AllSettable lib f.sub ∧
      (f.sub.endsInBytes = true ∨ f.sub.noBytes = true)

/-- The items of an array with one more. -/
theorem FieldFresh.addItem (h : FieldFresh lib info d size data items) {k : ℕ}
    (hshape : info.type.shape = .array k) (hlt : items.roots + 1 < 256 ^ k)
    (hfit : ∀ info ∈ d.infos, Fit info (declared lib info)) :
    FieldFresh lib info d size data
      (items.append (.node .item (flat (declared lib) d) .nil)) where
  default_eq := h.default_eq
  size_eq := h.size_eq
  fit := h.fit
  no_items hno := absurd hshape (hno k)
  roots_lt k' hk' := by
    rw [hshape, Shape.array.injEq] at hk'
    rw [Forest.roots_append, ← hk']
    exact hlt
  items_eq := Forest.every_append.2 ⟨h.items_eq, rfl, trivial⟩
  ends hends := by
    obtain ⟨hflat, hne⟩ := endsIn_flat hends hfit
    refine (h.ends hends).append ⟨fun hnil => hne ?_, fun _ => hflat, trivial⟩
    exact (List.append_eq_nil_iff.1 (List.append_eq_nil_iff.1 hnil).2).1

/-- The values with a new item of an array. -/
theorem FreshOver.nodes_addItem (h : FreshOver lib s t) (hthis : Points t this pos u) {i k : ℕ}
    (hu : u.tree? i = some (.field info d size data, items))
    (hnext : this = none ∨ t.get? (pos ++ treePos i ++ [.next]) ≠ none)
    (hshape : info.type.shape = .array k) (hlt : items.roots + 1 < 256 ^ k)
    (hd : AllSettable lib d)
    (hall : ∀ info ∈ d.infos, defaultData lib info = .ok (declared lib info) ∧
      Fit info (declared lib info)) :
    (t.modify (fun _ _ => (.field info d size data,
      items.append (.node .item (flat (declared lib) d) .nil))) (pos ++ treePos i)).All
        (NodeFresh lib) := by
  have hget : t.get? (pos ++ treePos i) = some (.field info d size data, items) := by
    rw [hthis.get?_append, Forest.get?_treePos, hu]
  obtain ⟨hnode, hitems⟩ := h.nodes.get? hget
  refine h.nodes.modify hget ⟨FieldFresh.addItem hnode hshape hlt fun info hi => (hall info hi).2,
    hitems.append ⟨⟨d, hd, over_flat _ _⟩, all_flat hall, trivial⟩⟩ ?_
  intro r b w q hr heq hb
  -- the array is under the node, so in an item, and a field follows it there
  have hunder (x : Pos) : t.get? (r ++ .down :: x) = w.get? x := by
    rw [show r ++ .down :: x = r ++ [.down] ++ x by simp,
      Forest.get?_append (Forest.at?_down_of_get? hr)]
  have hw : w.get? q = some (.field info d size data, items) := by rw [← hunder, ← heq, hget]
  have hafter : w.get? (q ++ [.next]) ≠ none := by
    rcases hnext with rfl | hnext
    · have hdown : Forest.Step.down ∈ treePos i := by
        rw [← List.nil_append (treePos i), ← hthis.1, heq]
        simp
      cases List.eq_of_mem_replicate hdown
    · rw [← hunder, show r ++ .down :: (q ++ [.next]) = r ++ .down :: q ++ [.next] by simp, ← heq]
      exact hnext
  cases b with
  | item =>
    obtain ⟨d', hd', hover⟩ := hb
    exact ⟨d', hd', hover.modify hw _ _ _⟩
  | field info' d' size' data' =>
    exact
      { default_eq := hb.default_eq
        size_eq := hb.size_eq
        fit := hb.fit
        no_items := fun hno => by rw [hb.no_items hno, Forest.modify_nil]
        roots_lt := fun k' hk' => by rw [Forest.roots_modify]; exact hb.roots_lt k' hk'
        items_eq := hb.items_eq.modify hw (fun h => nomatch h) fun _ _ _ h => h
        ends := fun hends => by
          refine (hb.ends hends).modify hw ?_ (.inl hafter)
          change _ ≤ _ + (image _).length
          rw [image_append, List.length_append, bytes_array hshape, bytes_array hshape,
            UInt512.length_toBytes, UInt512.length_toBytes]
          exact Nat.add_le_add_left (Nat.le_add_right _ _) k }

/-- The types of arrays. -/
theorem shape_of_isArray {type : StructType} (h : isArray type = true) :
    ∃ k, 0 < k ∧ type.shape = .array k := by
  revert h
  cases type <;> simp [isArray, StructType.shape]

/-- The count of the items is read. -/
theorem Rep.pread_count (h : Rep s t) {p : Pos} {k : ℕ}
    (hp : t.get? p = some (.field info d size data, items)) (hshape : info.type.shape = .array k) :
    s.pread k (start t p) = .ok (toBytes k items.roots) := by
  obtain ⟨pre, post, hpre, himage, -⟩ := image_split hp
  have hlen := UInt512.length_toBytes k items.roots
  rw [bytes_array hshape] at himage
  rw [h.contains.pread, himage, ← hpre]
  · have hslice := List.slice_append_middle pre (toBytes k items.roots) (image items ++ post)
    rw [hlen] at hslice
    simpa only [List.append_assoc] using congrArg Except.ok hslice
  · rw [himage, ← hpre]
    simp only [List.length_append, hlen]
    omega

theorem buffer_adjustOffsets (s : Structure) (c : ℕ) (diff : ℤ) :
    (s.adjustOffsets c diff).buffer = s.buffer ∧
      (s.adjustOffsets c diff).description = s.description := by
  unfold adjustOffsets
  split <;> exact ⟨rfl, rfl⟩

/-- The objects and the bytes with an item of zeros. -/
theorem Rep.addItem (h : Rep s t) {p : Pos} {k : ℕ} (hk : 0 < k)
    (hp : t.get? p = some (.field info d size data, items)) (hshape : info.type.shape = .array k)
    (hends : items.EndsIn Stored.bytes ∨ image u = []) {o : ℕ}
    (ho : stop t p (.field info d size data) items = o) {s₂ : Structure}
    (hedit : Edits s s₂ (image (t.modify
      (fun _ _ => (.field info d size data, items.append (.node .item u .nil))) p))) :
    Rep ((s₂.adjustOffsets (sub64 o 1) (image u).length).addItem p o (arrange o u))
      (t.modify (fun _ _ => (.field info d size data, items.append (.node .item u .nil))) p) := by
  obtain ⟨hdesc, hfields, vb, hvb, hrest⟩ := hedit
  have hown (n : ℕ) : (Stored.bytes (.field info d size data) n).length = k := by
    rw [bytes_array hshape, UInt512.length_toBytes]
  have hpos : 1 ≤ o := by
    rw [← ho, stop, hown]
    omega
  constructor
  · exact ⟨vb, (buffer_adjustOffsets s₂ _ _).1.trans hvb, hrest⟩
  · rw [Structure.addItem, adjustOffsets_fields, hfields, h.objects, sub64_of_le hpos]
    exact arrange_addItem hp ho (by rw [hown]; exact hk) (by rw [hown, hown]) hends

/-- **A new item keeps the structure as fresh as it was.** -/
theorem newArrayItem_fresh (hlib : SizedConversions lib) {name : List Char} {q : Pos}
    (hs : Fresh lib s) (hadd : Addable lib s (this, name))
    (h : s.newArrayItem v lib this name = .ok (s', q)) : Fresh lib s' := by
  obtain ⟨t, hs⟩ := hs
  obtain ⟨f, bytes, hasBuffer, pos, own, fields, newOffset, s₁, s₂, hf, harray, hbytes, hmax,
    hderef', hparse, hinsert, hwrite, hdefaults⟩ := newArrayItem_cases h
  obtain ⟨hnext, hd, hsteady⟩ := hadd f hf
  obtain ⟨pos', u, i, info, d, size, data, items, hthis, hderef, hu, rfl⟩ := hs.lookup_found hf
  rw [hderef] at hderef'
  cases hderef'
  rw [hs.newItemOffset_eq hthis hu hnext] at hparse hinsert hdefaults
  simp only [found_pos, found_info, found_sub, found_offset, found_roots]
    at hnext hd hsteady harray hbytes hmax hparse hwrite hdefaults
  have hget : t.get? (pos ++ treePos i) = some (.field info d size data, items) := by
    rw [hthis.get?_append, Forest.get?_treePos, hu]
  obtain ⟨hnode, -⟩ := hs.nodes.get? hget
  obtain ⟨k, hk, hshape⟩ := shape_of_isArray harray
  have hsize : info.typeFieldSize = k := by rw [FieldInfo.typeFieldSize, hshape]
  -- the count in the buffer is the number of the items
  rw [hsize] at hbytes hmax hwrite
  rw [hs.rep.pread_count hget hshape] at hbytes
  obtain rfl := Except.ok.inj hbytes
  rw [UInt512.ofBytes_toBytes, Nat.mod_eq_of_lt (hnode.roots_lt k hshape)] at hmax hwrite
  -- the objects of the item are over zeros, and so many zeros are inserted
  obtain ⟨rfl, rfl, hfits⟩ := parse_none hd hparse
  have hreplicate : List.replicate (getCurrentSize (arrange
      (stop t (pos ++ treePos i) (.field info d size data) items) (flat zeros d)) 0) 0
        = image (flat zeros d) := by
    obtain ⟨m, hzeros⟩ := image_zeros d
    rw [getCurrentSize_arrange (measured_flat hfits), Nat.zero_add, hzeros, List.length_replicate]
  obtain ⟨s₁', s₂', hinsert', hwrite', hedit⟩ :=
    hs.rep.insertItem (v := v) hget hshape (flat zeros d)
  rw [hreplicate, hinsert'] at hinsert
  obtain rfl := Except.ok.inj hinsert
  rw [hwrite'] at hwrite
  obtain rfl := Except.ok.inj hwrite
  have hends : items.EndsIn Stored.bytes ∨ image (flat zeros d) = [] :=
    hsteady.imp hnode.ends fun hno => image_flat_of_noBytes hno hfits
  have hrep := hs.rep.addItem hk hget hshape hends rfl hedit
  rw [Nat.cast_add, add_sub_cancel_left] at hdefaults
  -- then the defaults are written over the zeros
  obtain ⟨hall, hdesc, hrep'⟩ := setDefaults_ok hlib (context_item hget) hd hfits
    (fun name _ => show index name .nil = none from rfl) hrep hdefaults
  have hdesc' : s'.description = s.description :=
    (hdesc.trans (buffer_adjustOffsets _ _ _).2).trans hedit.1
  have hlt : items.roots + 1 < 256 ^ k := by
    have hpow : 2 ^ (k * 8) = 256 ^ k := by rw [Nat.mul_comm, Nat.pow_mul]
    rwa [hpow] at hmax
  have hafter : this = none ∨ t.get? (pos ++ treePos i ++ [.next]) ≠ none := by
    refine hnext.imp_right fun hne hnone => hne ?_
    rw [hs.rep.objects, arrange, Forest.get?_layout, hnone, Option.map_none]
  refine ⟨_, hrep', ?_, ?_, hs.nodes_addItem hthis hu hafter hshape hlt hd hall⟩
  · rw [hdesc']
    exact hs.settable
  · rw [hdesc']
    exact hs.described.modify hget _ _ _

end Structure

end Prinbee
