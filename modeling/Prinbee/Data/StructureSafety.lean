import Prinbee.Data.StructureLayout
import Prinbee.Data.VirtualBufferBounds

/-!
# Parsing any bytes

`parse_descriptions()` reads counts and lengths from bytes that nobody checked, adds them to
offsets, and compares each offset with the size of the buffer.  Whatever the bytes, it throws, or
every field has its bytes inside the buffer, the ones of a field right after those of the field
before it, and an array has as many structures as its count says.

This is about the fields of the description.  A structure holds its fields by name: of two with
the same name only the second one is kept, and the bytes of the first one then belong to no field.

## Main definitions

* `Description.closed` — `END` closes the arrays, and no field is a union.
* `Description.distinct` — no structure has two fields of the same name.
* `Structure.LaidOut` — fields one right after the other.
* `Structure.keepLast` — the fields that are not replaced.
* `Structure.ParsesSafely` — the bytes are refused, or the fields are laid out in the buffer.

## Main results

* `Structure.setVirtualBuffer_safe` — what a parse does with any bytes.
-/

namespace Prinbee

open Forest (Pos)
open UInt512 (ofBytes)
open StructType (Shape)

/-! ### Descriptions -/

namespace Description

/-- `END` closes the array and those under it, and no field is a union. -/
def closed : Description → Bool
  | .null => false
  | .end => true
  | .field info sub next =>
    info.type.shape ≠ .other && (sub = .null || sub.closed) && next.closed

/-- No structure has two fields of the same name. -/
def distinct : Description → Bool
  | .field info sub next => !next.names.contains info.name && sub.distinct && next.distinct
  | _ => true

theorem closed_field {info : FieldInfo} {sub next : Description} :
    (field info sub next).closed = true ↔
      info.type.shape ≠ .other ∧ (sub = .null ∨ sub.closed = true) ∧ next.closed = true := by
  rw [closed, Bool.and_eq_true, Bool.and_eq_true, decide_eq_true_iff, Bool.or_eq_true,
    decide_eq_true_iff, and_assoc]

theorem distinct_field {info : FieldInfo} {sub next : Description} :
    (field info sub next).distinct = true ↔
      info.name ∉ next.names ∧ sub.distinct = true ∧ next.distinct = true := by
  rw [distinct, Bool.and_eq_true, Bool.and_eq_true, Bool.not_eq_true', ← Bool.not_eq_true,
    List.contains_iff_mem, and_assoc]

end Description

/-- The widths in bytes: 64 at most, and 4 for what is counted. -/
theorem StructType.shape_le (t : StructType) :
    match t.shape with
    | .fixed width => width ≤ 64
    | .counted k | .array k => k ≤ 4
    | _ => True := by
  cases t <;> simp [StructType.shape]

namespace Structure

/-! ### Extents -/

/-- The bytes of a field, without those of its structures: what `get_current_size()` adds for the
field itself. -/
def ownSize (info : FieldInfo) (size : ℕ) : ℕ :=
  match info.type.shape with
  | .structure => 0
  | .counted k => k + size
  | .array k => k
  | _ => size

/-- The size of a field is the one of its type, or the one that is stored where the field
starts. -/
def Sized (bytes : Bytes) (info : FieldInfo) (offset size : ℕ) : Prop :=
  match info.type.shape with
  | .fixed width => size = width
  | .char => size = info.charSize
  | .counted k | .array k => size = ofBytes (bytes.slice offset k)
  | .structure => size = 1
  | .renamed => size = 0
  | .other => False

/-- The objects of a description, whatever their offsets and sizes. -/
def Describes : Description → Forest Cached → Prop
  | .end, .nil => True
  | .field info sub next, .node (.field info' sub' _ _) items rest =>
    info' = info ∧ sub' = sub ∧
      items.Every (fun a fields => (∃ start, a = .structure start true) ∧ Describes sub fields) ∧
      Describes next rest
  | _, _ => False

/-- The objects from `start` to `stop`, one right after the other: a field with its size, then
the structures in it, as many as the size of an array says, then the next field. -/
def LaidOut (bytes : Bytes) : Forest Cached → ℕ → ℕ → Prop
  | .nil, start, stop => start = stop
  | .node (.field info _ offset size) items next, start, stop =>
    offset = start ∧ Sized bytes info offset size ∧ items.roots = itemCount info size ∧
      ∃ middle, LaidOut bytes items (start + ownSize info size) middle ∧
        LaidOut bytes next middle stop
  | .node (.structure offset _) fields next, start, stop =>
    offset = start ∧ ∃ middle, LaidOut bytes fields start middle ∧ LaidOut bytes next middle stop

/-- Where an object starts, and the end of its own bytes. -/
def extent : Cached → ℕ × ℕ
  | .field info _ offset size => (offset, offset + ownSize info size)
  | .structure offset _ => (offset, offset)

/-- The fields that stay: a field of the name of a later one of the same structure does not. -/
def keepLast : Forest Cached → Forest Cached
  | .nil => .nil
  | .node (.field info sub offset size) items next =>
    if hasName info.name (keepLast next) then keepLast next
    else .node (.field info sub offset size) (keepLast items) (keepLast next)
  | .node (.structure offset hasBuffer) fields next =>
    .node (.structure offset hasBuffer) (keepLast fields) (keepLast next)

variable {bytes : Bytes}

/-- The size of every field is the one of its type, or the one that is stored. -/
theorem LaidOut.sized {t : Forest Cached} {start stop : ℕ} (h : LaidOut bytes t start stop)
    {p : Pos} {info : FieldInfo} {d : Description} {offset size : ℕ} {items : Forest Cached}
    (ha : t.get? p = some (.field info d offset size, items)) : Sized bytes info offset size := by
  induction t generalizing start stop p with
  | nil => rw [Forest.get?_nil] at ha; cases ha
  | node b sub next ihs ihn =>
    have hparts : (∀ o n, b = .field info d o n → Sized bytes info o n) ∧
        (∃ o m, LaidOut bytes sub o m) ∧ ∃ m o, LaidOut bytes next m o := by
      cases b with
      | field info' d' o n =>
        obtain ⟨rfl, hsized, -, middle, hsub, hnext⟩ := h
        refine ⟨fun o' n' heq => ?_, ⟨_, _, hsub⟩, _, _, hnext⟩
        cases heq
        exact hsized
      | «structure» o hasBuffer =>
        obtain ⟨-, middle, hsub, hnext⟩ := h
        exact ⟨fun _ _ heq => (nomatch heq), ⟨_, _, hsub⟩, _, _, hnext⟩
    obtain ⟨hself, ⟨_, _, hsub⟩, _, _, hnext⟩ := hparts
    cases p with
    | nil =>
      cases ha
      exact hself _ _ rfl
    | cons s p =>
      cases s with
      | down => exact ihs hsub ha
      | next => exact ihn hnext ha

/-- The objects have their own bytes between `start` and `stop`, each one after those before it,
maybe with other bytes between. -/
def Ordered : Forest Cached → ℕ → ℕ → Prop
  | .nil, start, stop => start ≤ stop
  | .node a sub next, start, stop =>
    start ≤ (extent a).1 ∧ ∃ middle, Ordered sub (extent a).2 middle ∧ Ordered next middle stop

theorem extent_le (a : Cached) : (extent a).1 ≤ (extent a).2 := by
  cases a with
  | field info d offset size => exact Nat.le_add_right _ _
  | «structure» offset hasBuffer => exact le_rfl

theorem LaidOut.ordered {t : Forest Cached} {start stop : ℕ} (h : LaidOut bytes t start stop) :
    Ordered t start stop := by
  induction t generalizing start stop with
  | nil => exact Nat.le_of_eq h
  | node a sub next ihs ihn =>
    cases a with
    | field info d offset size =>
      obtain ⟨rfl, -, -, middle, hsub, hnext⟩ := h
      exact ⟨le_rfl, middle, ihs hsub, ihn hnext⟩
    | «structure» offset hasBuffer =>
      obtain ⟨rfl, middle, hsub, hnext⟩ := h
      exact ⟨le_rfl, middle, ihs hsub, ihn hnext⟩

theorem Ordered.le {t : Forest Cached} {start stop : ℕ} (h : Ordered t start stop) :
    start ≤ stop := by
  induction t generalizing start stop with
  | nil => exact h
  | node a sub next ihs ihn =>
    obtain ⟨hle, middle, hsub, hnext⟩ := h
    exact hle.trans ((extent_le a).trans ((ihs hsub).trans (ihn hnext)))

theorem Ordered.mono {t : Forest Cached} {start start' stop stop' : ℕ} (h : Ordered t start stop)
    (hstart : start' ≤ start) (hstop : stop ≤ stop') : Ordered t start' stop' := by
  induction t generalizing start start' with
  | nil => exact hstart.trans (Nat.le_trans h hstop)
  | node a sub next _ ih =>
    obtain ⟨hle, middle, hsub, hnext⟩ := h
    exact ⟨hstart.trans hle, middle, hsub, ih hnext le_rfl⟩

/-- The fields that stay keep their place. -/
theorem Ordered.keepLast {t : Forest Cached} {start stop : ℕ} (h : Ordered t start stop) :
    Ordered (keepLast t) start stop := by
  induction t generalizing start stop with
  | nil => exact h
  | node a sub next ihs ihn =>
    obtain ⟨hle, middle, hsub, hnext⟩ := h
    cases a with
    | field info d offset size =>
      rw [Structure.keepLast]
      split
      · exact (ihn hnext).mono (hle.trans ((extent_le _).trans hsub.le)) le_rfl
      · exact ⟨hle, middle, ihs hsub, ihn hnext⟩
    | «structure» offset hasBuffer => exact ⟨hle, middle, ihs hsub, ihn hnext⟩

/-- Every object has its own bytes between the ends. -/
theorem Ordered.inside {t : Forest Cached} {start stop : ℕ} (h : Ordered t start stop) {p : Pos}
    {a : Cached} {sub : Forest Cached} (ha : t.get? p = some (a, sub)) :
    start ≤ (extent a).1 ∧ (extent a).2 ≤ stop := by
  induction t generalizing start stop p with
  | nil => rw [Forest.get?_nil] at ha; cases ha
  | node b sub' next ihs ihn =>
    obtain ⟨hle, middle, hsub, hnext⟩ := h
    have hb := extent_le b
    have hle' := hsub.le
    have hle'' := hnext.le
    cases p with
    | nil =>
      cases ha
      exact ⟨hle, by omega⟩
    | cons s p =>
      cases s with
      | down =>
        obtain ⟨h₁, h₂⟩ := ihs hsub ha
        exact ⟨by omega, by omega⟩
      | next =>
        obtain ⟨h₁, h₂⟩ := ihn hnext ha
        exact ⟨by omega, by omega⟩

/-- Two objects have no byte in common. -/
theorem Ordered.apart {t : Forest Cached} {start stop : ℕ} (h : Ordered t start stop) {p q : Pos}
    {a b : Cached} {sub sub' : Forest Cached} (ha : t.get? p = some (a, sub))
    (hb : t.get? q = some (b, sub')) (hne : p ≠ q) :
    (extent a).2 ≤ (extent b).1 ∨ (extent b).2 ≤ (extent a).1 := by
  induction t generalizing start stop p q with
  | nil => rw [Forest.get?_nil] at ha; cases ha
  | node c items next ihs ihn =>
    obtain ⟨-, middle, hsub, hnext⟩ := h
    have hle := hsub.le
    cases p with
    | nil =>
      cases ha
      left
      cases q with
      | nil => exact absurd rfl hne
      | cons s q =>
        cases s with
        | down => exact (hsub.inside hb).1
        | next => exact hle.trans (hnext.inside hb).1
    | cons s p =>
      cases q with
      | nil =>
        cases hb
        right
        cases s with
        | down => exact (hsub.inside ha).1
        | next => exact hle.trans (hnext.inside ha).1
      | cons s' q =>
        -- under the same node, after it, or one under it and one after it
        cases s with
        | down =>
          cases s' with
          | down => exact ihs hsub ha hb fun heq => hne (by rw [heq])
          | next => exact .inl ((hsub.inside ha).2.trans (hnext.inside hb).1)
        | next =>
          cases s' with
          | down => exact .inr ((hsub.inside hb).2.trans (hnext.inside ha).1)
          | next => exact ihn hnext ha hb fun heq => hne (by rw [heq])

/-! ### One field -/

variable {vb : VirtualBuffer}

/-- A read throws, or returns some bytes: those at the offset when they are all there. -/
theorem parseSize_safe (hvb : vb.WellFormed) (hne : vb.buffers ≠ []) (k offset : ℕ) :
    ThrowsOr (fun n => offset + k ≤ vb.totalSize → n = ofBytes (vb.contents.slice offset k))
      (parseSize (some vb) k offset) := by
  by_cases hle : offset + k ≤ vb.totalSize
  · rw [parseSize_eq hvb hne hle]
    exact .ok fun _ => rfl
  · unfold parseSize
    dsimp only
    rw [if_neg fun h => hne (List.length_eq_zero_iff.1 h)]
    refine ThrowsOr.bind (P := fun _ => True) ?_ fun bytes _ => .ok fun h => absurd h hle
    rw [VirtualBuffer.pread]
    split
    · exact .ok trivial
    · split
      · exact .thrown _ _
      · rw [preadLoop_eq hvb.chunks]
        exact .ok trivial

/-- The size of a field and the end of its own bytes, when these are in the buffer. -/
theorem parseExtent_safe (hvb : vb.WellFormed) (hne : vb.buffers ≠ []) {info : FieldInfo}
    (hinfo : info.type.shape ≠ .other) (offset : ℕ) :
    ThrowsOr (fun r => r.2 = offset + ownSize info r.1 ∧
        (r.2 ≤ vb.totalSize → Sized vb.contents info offset r.1))
      (parseExtent (some vb) info offset) := by
  unfold parseExtent ownSize Sized
  cases h : info.type.shape with
  | fixed width => exact .ok ⟨rfl, fun _ => rfl⟩
  | char =>
    dsimp only
    split
    · exact .thrown _ _
    · exact .ok ⟨rfl, fun _ => rfl⟩
  | counted k =>
    refine (parseSize_safe hvb hne k offset).bind fun n hn => .ok ⟨?_, fun hle => hn ?_⟩
    all_goals dsimp only at *
    all_goals omega
  | «structure» => exact .ok ⟨rfl, fun _ => rfl⟩
  | array k => exact (parseSize_safe hvb hne k offset).bind fun n hn => .ok ⟨rfl, hn⟩
  | renamed => exact .ok ⟨rfl, fun _ => rfl⟩
  | other => exact absurd h hinfo

theorem parseBounds_safe (hne : vb.buffers ≠ []) (info : FieldInfo) (offset : ℕ) :
    ThrowsOr (fun _ => offset ≤ vb.totalSize) (parseBounds (some vb) info offset) := by
  by_cases hle : offset ≤ vb.totalSize
  · rw [(parseBounds_eq_ok hne).2 hle]
    exact .ok hle
  · unfold parseBounds
    rw [if_pos ⟨hasData_some hne, Nat.not_le.1 hle⟩]
    exact .thrown _ _

/-- A read of a size gives a number of that many bytes, also where it finds less of them. -/
theorem parseSize_lt (hvb : vb.WellFormed) {k offset n : ℕ}
    (h : parseSize (some vb) k offset = .ok n) : n < 256 ^ k := by
  unfold parseSize at h
  dsimp only at h
  split at h
  · cases h
    exact Nat.pow_pos (by decide)
  · obtain ⟨bytes, hread, h⟩ := bind_eq_ok.1 h
    cases h
    have hlen : bytes.length ≤ k := by
      rw [VirtualBuffer.pread] at hread
      split at hread
      · cases hread
        exact Nat.zero_le k
      · split at hread
        · cases hread
        · rw [preadLoop_eq hvb.chunks, Except.ok.injEq] at hread
          rw [← hread]
          exact List.length_take_le _ _
    exact Nat.lt_of_lt_of_le (UInt512.ofBytes_lt bytes) (Nat.pow_le_pow_right (by decide) hlen)

/-- The sums do not wrap: what is compared with the size of the buffer is less than `2 ^ 64`. -/
theorem parseExtent_lt (hvb : vb.WellFormed) {info : FieldInfo} {offset size after : ℕ}
    (hle : offset ≤ vb.totalSize) (htotal : vb.totalSize + 2 ^ 33 ≤ 2 ^ 64)
    (h : parseExtent (some vb) info offset = .ok (size, after)) : after < 2 ^ 64 := by
  have hcounted {k n : ℕ} (hk : k ≤ 4) (hn : parseSize (some vb) k offset = .ok n) :
      n < 2 ^ 32 :=
    Nat.lt_of_lt_of_le (parseSize_lt hvb hn) (Nat.pow_le_pow_right (by decide : 0 < 256) hk)
  have hwidths := info.type.shape_le
  unfold parseExtent at h
  cases hshape : info.type.shape with
  | fixed width =>
    rw [hshape] at h hwidths
    cases h
    dsimp only at hwidths
    omega
  | char =>
    rw [hshape] at h
    dsimp only at h
    split at h
    · cases h
    · cases h
      omega
  | counted k =>
    rw [hshape] at h hwidths
    obtain ⟨n, hn, h⟩ := bind_eq_ok.1 h
    cases h
    have hlt := hcounted hwidths hn
    dsimp only at hwidths
    omega
  | «structure» | renamed =>
    rw [hshape] at h
    cases h
    omega
  | array k =>
    rw [hshape] at h hwidths
    obtain ⟨n, hn, h⟩ := bind_eq_ok.1 h
    cases h
    dsimp only at hwidths
    omega
  | other =>
    rw [hshape] at h
    cases h

/-! ### The fields of a structure -/

/-- The objects are those of a kind that are not replaced, laid out from an offset on in the
buffer. -/
def Leaves (vb : VirtualBuffer) (P : Forest Cached → Prop) (start : ℕ) (r : Forest Cached × ℕ) :
    Prop :=
  ∃ all, P all ∧ LaidOut vb.contents all start r.2 ∧ r.2 ≤ vb.totalSize ∧ r.1 = keepLast all

/-- A number of structures of a description. -/
def Items (sub : Description) (n : ℕ) (all : Forest Cached) : Prop :=
  all.roots = n ∧ all.Every fun a fields => (∃ o, a = .structure o true) ∧ Describes sub fields

/-- The structures of a field, given what one of them is. -/
theorem parseItems_safe {sub : Description}
    {parseOne : ℕ → Except Failure (Forest Cached × ℕ)}
    (h : ∀ start, start ≤ vb.totalSize →
      ThrowsOr (Leaves vb (Describes sub) start) (parseOne start)) (n : ℕ) {start : ℕ}
    (hle : start ≤ vb.totalSize) :
    ThrowsOr (Leaves vb (Items sub n) start) (parseItems true parseOne n start) := by
  induction n generalizing start with
  | zero => exact .ok ⟨.nil, ⟨rfl, trivial⟩, rfl, hle, rfl⟩
  | succ n ih =>
    rw [parseItems]
    refine (h start hle).bind ?_
    rintro ⟨fields, middle⟩ ⟨all, hall, hlaid, hmiddle, hfields⟩
    refine (ih hmiddle).bind ?_
    rintro ⟨items, stop⟩ ⟨rest, ⟨hroots, hrest⟩, hlaid', hstop, hitems⟩
    dsimp only at *
    refine .ok ⟨.node (.structure start true) all rest, ⟨?_, ⟨⟨start, rfl⟩, hall⟩, hrest⟩,
      ⟨rfl, middle, hlaid, hlaid'⟩, hstop, ?_⟩
    · rw [Forest.roots_node, hroots]
    · rw [keepLast, ← hfields, ← hitems]

/-- A field that holds no structure. -/
theorem leaves_nil {sub : Description} {info : FieldInfo} {size after : ℕ}
    (h : itemCount info size = 0) (hle : after ≤ vb.totalSize) :
    ThrowsOr (Leaves vb (Items sub (itemCount info size)) after) (.ok (.nil, after)) :=
  .ok ⟨.nil, ⟨h.symm, trivial⟩, rfl, hle, rfl⟩

/-- **A parse throws, or lays the fields of the description out in the buffer.** -/
theorem parse_safe (hvb : vb.WellFormed) (hne : vb.buffers ≠ []) {d : Description}
    (hd : d.closed = true) {start : ℕ} (hle : start ≤ vb.totalSize) :
    ThrowsOr (Leaves vb (Describes d) start) (parse (some vb) d start) := by
  induction d generalizing start with
  | null => cases hd
  | «end» => exact .ok ⟨.nil, trivial, rfl, hle, rfl⟩
  | field info sub next ihs ihn =>
    obtain ⟨hinfo, hsub, hnext⟩ := Description.closed_field.1 hd
    rw [parse]
    refine (parseExtent_safe hvb hne hinfo start).bind ?_
    rintro ⟨size, after⟩ ⟨hafter, hsized⟩
    refine (parseBounds_safe hne info after).bind fun _ hle' => ?_
    replace hsized := hsized hle'
    dsimp only at hafter hsized ⊢
    have hcount : info.type = .renamed → itemCount info size = 0 := by
      intro h
      simp only [Sized, h, StructType.shape] at hsized
      rw [itemCount, hsized, ite_self]
    -- the fields after this one and its structures
    have hrest : ∀ r, Leaves vb (Items sub (itemCount info size)) after r →
        ThrowsOr (Leaves vb (Describes (.field info sub next)) start) (do
          let rest ← parse (some vb) next r.2
          if hasName info.name rest.1 then .ok (rest.1, rest.2)
          else .ok (.node (.field info sub start size) r.1 rest.1, rest.2)) := by
      rintro ⟨items, middle⟩ ⟨all, ⟨hroots, hall⟩, hlaid, hmiddle, hitems⟩
      refine (ihn hnext hmiddle).bind ?_
      rintro ⟨rest, stop⟩ ⟨others, hothers, hlaid', hstop, hrest⟩
      dsimp only at *
      have hend : (if hasName info.name rest then .ok (rest, stop)
            else .ok (.node (.field info sub start size) items rest, stop) :
            Except Failure (Forest Cached × ℕ))
          = .ok (keepLast (.node (.field info sub start size) all others), stop) := by
        rw [keepLast, ← hrest, ← hitems]
        split <;> rfl
      rw [hend]
      rw [hafter] at hlaid
      exact .ok ⟨.node (.field info sub start size) all others, ⟨rfl, rfl, hall, hothers⟩,
        ⟨rfl, hsized, hroots, middle, hlaid, hlaid'⟩, hstop, rfl⟩
    cases sub with
    | null =>
      dsimp only
      split
      · exact .thrown _ _
      · next h => exact (leaves_nil (if_neg h) hle').bind hrest
    | «end» | field i s n =>
      dsimp only
      split
      · exact .thrown _ _
      · next h =>
        split
        · next hren => exact (leaves_nil (hcount hren) hle').bind hrest
        · rw [itemCount, if_pos (by simpa using h)] at hrest
          exact (parseItems_safe (fun o ho => ihs (by simpa using hsub) ho) size hle').bind hrest

/-! ### Names -/

theorem hasName_eq {d : Description} {t : Forest Cached} (h : Describes d t) (name : List Char) :
    hasName name t = decide (name ∈ d.names) := by
  induction d generalizing t with
  | null => cases h
  | «end» =>
    cases t with
    | nil => rfl
    | node a sub next => cases h
  | field info sub next _ ih =>
    cases t with
    | nil => cases h
    | node a items rest =>
      cases a with
      | «structure» offset hasBuffer => cases h
      | field info' sub' offset size =>
        obtain ⟨rfl, rfl, -, hrest⟩ := h
        rw [hasName, ih hrest, Description.names]
        simp only [List.mem_cons, Bool.decide_or, eq_comm]

theorem keepLast_items {P : Forest Cached → Prop} (hP : ∀ t, P t → keepLast t = t)
    {t : Forest Cached}
    (h : t.Every fun a fields => (∃ o, a = .structure o true) ∧ P fields) : keepLast t = t := by
  induction t with
  | nil => rfl
  | node a sub next _ ih =>
    obtain ⟨⟨⟨o, rfl⟩, hsub⟩, hnext⟩ := h
    rw [keepLast, hP sub hsub, ih hnext]

/-- No field is replaced when the names are different. -/
theorem keepLast_eq {d : Description} {t : Forest Cached} (h : Describes d t)
    (hd : d.distinct = true) : keepLast t = t := by
  induction d generalizing t with
  | null => cases h
  | «end» =>
    cases t with
    | nil => rfl
    | node a sub next => cases h
  | field info sub next ihs ihn =>
    cases t with
    | nil => cases h
    | node a items rest =>
      cases a with
      | «structure» offset hasBuffer => cases h
      | field info' sub' offset size =>
        obtain ⟨rfl, rfl, hitems, hrest⟩ := h
        obtain ⟨hname, hsub, hnext⟩ := Description.distinct_field.1 hd
        rw [keepLast, ihn hrest hnext, hasName_eq hrest, decide_eq_false hname,
          if_neg Bool.false_ne_true, keepLast_items (fun u hu => ihs hu hsub) hitems]

/-- What stays is there before, with the fields under it that stay. -/
theorem get?_of_keepLast {t : Forest Cached} {p : Pos} {a : Cached} {sub : Forest Cached}
    (h : (keepLast t).get? p = some (a, sub)) :
    ∃ q sub', t.get? q = some (a, sub') ∧ sub = keepLast sub' := by
  induction t generalizing p with
  | nil => rw [keepLast, Forest.get?_nil] at h; cases h
  | node b sub' next ihs ihn =>
    have hnode {u : Forest Cached} (hu : u = .node b (keepLast sub') (keepLast next))
        (h : u.get? p = some (a, sub)) :
        ∃ q sub'', (Forest.node b sub' next).get? q = some (a, sub'') ∧ sub = keepLast sub'' := by
      subst hu
      cases p with
      | nil =>
        cases h
        exact ⟨[], sub', rfl, rfl⟩
      | cons s p =>
        cases s with
        | down =>
          obtain ⟨q, sub'', hq⟩ := ihs h
          exact ⟨.down :: q, sub'', hq⟩
        | next =>
          obtain ⟨q, sub'', hq⟩ := ihn h
          exact ⟨.next :: q, sub'', hq⟩
    cases b with
    | field info d offset size =>
      rw [keepLast] at h
      split at h
      · obtain ⟨q, sub'', hq⟩ := ihn h
        exact ⟨.next :: q, sub'', hq⟩
      · exact hnode rfl h
    | «structure» offset hasBuffer => exact hnode (by rw [keepLast]) h

/-- A field is found by its name. -/
def NamedOnce (fields : Forest Cached) : Prop :=
  ∀ i info d offset size items, fields.tree? i = some (.field info d offset size, items) →
    fieldIndex info.name fields = some i

theorem hasName_of_tree? {t : Forest Cached} {i : ℕ} {info : FieldInfo} {d : Description}
    {offset size : ℕ} {items : Forest Cached}
    (h : t.tree? i = some (.field info d offset size, items)) : hasName info.name t = true := by
  induction t generalizing i with
  | nil => cases h
  | node a sub next _ ih =>
    cases i with
    | zero =>
      cases h
      rw [hasName, decide_eq_true rfl, Bool.true_or]
    | succ i =>
      cases a with
      | field info' d' offset' size' => rw [hasName, ih h, Bool.or_true]
      | «structure» offset' hasBuffer =>
        rw [hasName]
        · exact ih h
        · intro _ _ _ _ heq
          cases heq

/-- Of two fields of the same name, one stays. -/
theorem namedOnce_keepLast (t : Forest Cached) : NamedOnce (keepLast t) := by
  induction t with
  | nil => exact fun i _ _ _ _ _ h => nomatch h
  | node a sub next _ ih =>
    intro i info d offset size items h
    cases a with
    | field info' d' offset' size' =>
      rw [keepLast] at h ⊢
      split at h
      · next hname =>
        rw [if_pos hname]
        exact ih i _ _ _ _ _ h
      · next hname =>
        rw [if_neg hname, fieldIndex]
        cases i with
        | zero =>
          cases h
          rw [if_pos rfl]
        | succ i =>
          have hne : info'.name ≠ info.name := by
            intro heq
            rw [heq] at hname
            exact hname (hasName_of_tree? h)
          rw [if_neg hne, ih i _ _ _ _ _ h]
          rfl
    | «structure» offset' hasBuffer =>
      rw [keepLast] at h ⊢
      cases i with
      | zero => cases h
      | succ i =>
        simp only [fieldIndex, ih i _ _ _ _ _ h]
        rfl

/-! ### Any bytes -/

/-- The bytes are refused, or the fields are laid out in the buffer, one right after the other. -/
def ParsesSafely (s : Structure) (vb : VirtualBuffer) : Prop :=
  ThrowsOr (fun s' => ∃ stop, LaidOut vb.contents s'.fields 0 stop ∧ stop ≤ vb.totalSize)
    (s.setVirtualBuffer vb)

/-- **Whatever the bytes, a structure refuses them, or the fields of its description are laid out
in the buffer one right after the other.**  Of these it keeps the last one of each name: all of
them when no structure has two fields of the same name. -/
theorem setVirtualBuffer_safe (hvb : vb.WellFormed) (hne : vb.buffers ≠ []) {s : Structure}
    (hs : s.description.closed = true) :
    ThrowsOr
      (fun s' =>
        (∃ all stop, Describes s.description all ∧ LaidOut vb.contents all 0 stop ∧
          stop ≤ vb.totalSize ∧ s'.fields = keepLast all) ∧
        ∀ p a sub, s'.fields.get? p = some (a, sub) → (extent a).2 ≤ vb.totalSize)
      (s.setVirtualBuffer vb) ∧
    (s.description.distinct = true → s.ParsesSafely vb) := by
  have hparse := parse_safe hvb hne hs (Nat.zero_le vb.totalSize)
  constructor
  · refine hparse.bind ?_
    rintro ⟨fields, stop⟩ ⟨all, hall, hlaid, hstop, rfl⟩
    refine .ok ⟨⟨all, stop, hall, hlaid, hstop, rfl⟩, fun p a sub h => ?_⟩
    exact (hlaid.ordered.keepLast.inside h).2.trans hstop
  · intro hdistinct
    refine hparse.bind ?_
    rintro ⟨fields, stop⟩ ⟨all, hall, hlaid, hstop, rfl⟩
    refine .ok ⟨stop, ?_, hstop⟩
    rw [keepLast_eq hall hdistinct]
    exact hlaid

/-- An array of two strings. -/
def names : Description :=
  .field { fieldName := "names".toList, type := .array8 }
    (.field { fieldName := "name".toList, type := .p8string } .null .end) .end

/-- Seven bytes. -/
def sevenBytes : VirtualBuffer :=
  { blocks := fun _ => [], totalSize := 7,
    buffers := [{ data := [2, 3, 97, 98, 99, 1, 100], capacity := 7, size := 7 }] }

theorem wellFormed_sevenBytes : sevenBytes.WellFormed where
  chunks b hb := by
    rw [sevenBytes, List.mem_singleton] at hb
    subst hb
    exact ⟨by decide, by decide⟩
  total := rfl

/-- The two strings are in the buffer. -/
theorem setVirtualBuffer_safe_names :
    ({ description := names } : Structure).ParsesSafely sevenBytes :=
  (setVirtualBuffer_safe wellFormed_sevenBytes (by decide) (by decide)).2 (by decide)

/-- A structure that has a field twice. -/
def twice : Description :=
  .field { fieldName := ['b'], type := .uint8 } .null
    (.field { fieldName := ['a'], type := .uint8 } .null
      (.field { fieldName := ['a'], type := .uint8 } .null .end))

/-- The second byte belongs to no field. -/
theorem not_parsesSafely :
    twice.closed = true ∧ ¬ ({ description := twice } : Structure).ParsesSafely sevenBytes := by
  refine ⟨by decide, ?_⟩
  have hrun : parse (some sevenBytes) twice 0
      = .ok (.node (.field { fieldName := ['b'], type := .uint8 } .null 0 1) .nil
          (.node (.field { fieldName := ['a'], type := .uint8 } .null 2 1) .nil .nil), 3) := by
    decide
  unfold ParsesSafely setVirtualBuffer
  rw [hrun]
  rintro (⟨kind, message, h⟩ | ⟨s', h, stop, hlaid, -⟩)
  · cases h
  · cases h
    obtain ⟨-, -, -, middle, hitems, hoffset, -⟩ := hlaid
    cases hitems
    cases hoffset

end Structure

end Prinbee
