import Prinbee.Journal.EventFile

/-!
# Events one after the other

The events of a journal file follow each other without a gap, from the header of the file to the
place of the next event.  Some of them are dead, and a reader stops at one that does not pass its
checks; but as long as it goes on it goes from one event to the next, so it never takes the data of
an event for a header.

## Main definitions

* `EventFile.Written` — a header as the journal writes it.
* `EventFile.Tiling` — the events between two offsets, with the offsets of the live ones.
* `EventFile.Reaches` — a reader that goes from header to header comes to an offset.
* `EventFile.Passed` — what a reader asks of an event that was written, to go on behind it.

## Main results

* `EventFile.mem_liveOffsets` — the reader finds the live headers that it reaches.
* `EventFile.Tiling.mem_of_reaches` — they are live events of the tiling.
* `EventFile.Tiling.reaches_iff` — the reader comes to those that no event stops it before.
* `EventFile.Tiling.setStatus` — what writing a status does to a tiling.
-/

namespace Prinbee

namespace EventFile

/-- The event at this offset has a header as the journal writes it. -/
structure Written (b : Bytes) (offset : ℕ) : Prop where
  magic₀ : b.getD offset 0 = 101
  magic₁ : b.getD (offset + 1) 0 = 118
  status : (Status.ofCode (status b offset)).isSome
  requestIdSize : requestIdSize b offset ≠ 0
  prefixed : prefixSize b offset ≤ size b offset

/-- From `offset` to `stop` the file has one event after the other; `lives` are the offsets of the
live ones. -/
inductive Tiling (b : Bytes) : ℕ → ℕ → List ℕ → Prop
  | nil (offset : ℕ) : Tiling b offset offset []
  | live {offset stop : ℕ} {lives : List ℕ} (hw : Written b offset) (hlive : Live b offset)
      (h : Tiling b (offset + size b offset) stop lives) : Tiling b offset stop (offset :: lives)
  | dead {offset stop : ℕ} {lives : List ℕ} (hw : Written b offset) (hdead : ¬ Live b offset)
      (h : Tiling b (offset + size b offset) stop lives) : Tiling b offset stop lives

/-- One of the events from `offset` on is at `x`. -/
inductive Follows (b : Bytes) : ℕ → ℕ → Prop
  | refl (offset : ℕ) : Follows b offset offset
  | next {offset x : ℕ} (h : Follows b (offset + size b offset) x) : Follows b offset x

/-- A reader goes on behind an event that was written when it has inline data and is not in the
future. -/
def Passed (now : ℤ) (b : Bytes) (offset : ℕ) : Prop :=
  prefixSize b offset < size b offset ∧ Timespec.isInTheFuture now (time b offset) = false

variable {b b' : Bytes} {offset stop x : ℕ} {lives : List ℕ} {now : ℤ}

/-! ### The bytes that a header is read from -/

theorem slice_eq_of_take {n i m : ℕ} (h : b'.take n = b.take n) (hi : i + m ≤ n) :
    b'.slice i m = b.slice i m := by
  have htake : ∀ l : Bytes, (l.take n).slice i m = l.slice i m := fun l => by
    rw [List.slice, List.slice, List.drop_take, List.take_take, Nat.min_eq_left (by omega)]
  rw [← htake b', ← htake b, h]

theorem slice_eq_of_drop {i m : ℕ} (h : b'.drop i = b.drop i) : b'.slice i m = b.slice i m := by
  rw [List.slice, List.slice, h]

theorem SameHeader.symm {file file' : Bytes} {offset offset' : ℕ}
    (h : SameHeader file offset file' offset') : SameHeader file' offset' file offset where
  magic₀ := h.magic₀.symm
  magic₁ := h.magic₁.symm
  status := h.status.symm
  requestIdSize := h.requestIdSize.symm
  size := h.size.symm
  time := h.time.symm
  attachmentCount := h.attachmentCount.symm

theorem SameHeader.live_iff {file file' : Bytes} {offset offset' : ℕ}
    (h : SameHeader file offset file' offset') : Live file offset ↔ Live file' offset' := by
  rw [Live, Live, h.status]

theorem Written.le (h : Written b offset) : 32 < size b offset := by
  have hid := h.requestIdSize
  have hprefix := h.prefixed
  rw [prefixSize] at hprefix
  omega

theorem Valid.written (h : Valid now b offset) : Written b offset := by
  obtain ⟨-, hmagic₀, hmagic₁, hstatus, hid, -, hprefix, -⟩ := h
  exact ⟨hmagic₀, hmagic₁, hstatus, hid, hprefix.le⟩

/-- What a reader still asks of an event that was written. -/
theorem Written.valid_iff (h : Written b offset) (hlen : offset + size b offset ≤ b.length) :
    Valid now b offset ↔ Passed now b offset := by
  have hsize := h.le
  constructor
  · rintro ⟨-, -, -, -, -, -, hinline, htime⟩
    exact ⟨hinline, htime⟩
  · rintro ⟨hinline, htime⟩
    exact ⟨by omega, h.magic₀, h.magic₁, h.status, h.requestIdSize, by omega, hinline, htime⟩

theorem SameHeader.written {offset' : ℕ} (h : SameHeader b offset b' offset')
    (hw : Written b offset) : Written b' offset' where
  magic₀ := h.magic₀ ▸ hw.magic₀
  magic₁ := h.magic₁ ▸ hw.magic₁
  status := h.status ▸ hw.status
  requestIdSize := h.requestIdSize ▸ hw.requestIdSize
  prefixed := by
    rw [← h.prefixSize, ← h.size]
    exact hw.prefixed

/-! ### The chain of headers -/

/-- A reader that goes from header to header, from `offset` on, comes to `x`. -/
inductive Reaches (now : ℤ) (b : Bytes) : ℕ → ℕ → Prop
  | refl (offset : ℕ) : Reaches now b offset offset
  | next {offset x : ℕ} (hvalid : Valid now b offset)
      (h : Reaches now b (offset + size b offset) x) : Reaches now b offset x

theorem Valid.lt_size (h : Valid now b offset) : 32 < size b offset := by
  have hprefix : prefixSize b offset < size b offset := h.2.2.2.2.2.2.1
  rw [prefixSize] at hprefix
  omega

theorem Valid.within (h : Valid now b offset) : offset + size b offset ≤ b.length := by
  have := h.2.2.2.2.2.1
  omega

/-- A header that is valid now is valid later. -/
theorem Valid.mono {now' : ℤ} (h : Valid now b offset) (hnow : now ≤ now') : Valid now' b offset := by
  obtain ⟨hlen, hmagic₀, hmagic₁, hstatus, hid, hsize, hprefix, htime⟩ := h
  refine ⟨hlen, hmagic₀, hmagic₁, hstatus, hid, hsize, hprefix, ?_⟩
  simp only [Timespec.isInTheFuture, decide_eq_false_iff_not, not_lt] at htime ⊢
  omega

/-- The checks see the header, the size of the event and where the file ends. -/
theorem SameHeader.valid {offset' : ℕ} (h : SameHeader b offset b' offset')
    (hvalid : Valid now b offset) (hlen : offset' + EventFile.size b' offset' ≤ b'.length) :
    Valid now b' offset' := by
  have hsize := hvalid.lt_size
  obtain ⟨-, hmagic₀, hmagic₁, hstatus, hid, -, hprefix, htime⟩ := hvalid
  rw [h.size] at hsize
  rw [h.magic₀] at hmagic₀
  rw [h.magic₁] at hmagic₁
  rw [h.status] at hstatus
  rw [h.requestIdSize] at hid
  rw [h.prefixSize, h.size] at hprefix
  rw [h.time] at htime
  exact ⟨by omega, hmagic₀, hmagic₁, hstatus, hid, by omega, hprefix, htime⟩

namespace Reaches

theorem le (h : Reaches now b offset x) : offset ≤ x := by
  induction h with
  | refl offset => exact le_rfl
  | next _ _ ih => omega

theorem trans {y : ℕ} (h : Reaches now b offset x) (h' : Reaches now b x y) :
    Reaches now b offset y := by
  induction h with
  | refl offset => exact h'
  | next hvalid _ ih => exact .next hvalid (ih h')

/-- The event behind the one that was reached. -/
theorem snoc (h : Reaches now b offset x) (hvalid : Valid now b x) :
    Reaches now b offset (x + size b x) :=
  h.trans (.next hvalid (.refl _))

theorem mono {now' : ℤ} (h : Reaches now b offset x) (hnow : now ≤ now') :
    Reaches now' b offset x := by
  induction h with
  | refl offset => exact .refl offset
  | next hvalid _ ih => exact .next (hvalid.mono hnow) ih

/-- Nothing is read behind the header that is reached. -/
theorem of_take (h : Reaches now b offset x) (hb : b'.take x = b.take x) (hlen : x ≤ b'.length) :
    Reaches now b' offset x := by
  induction h with
  | refl offset => exact .refl offset
  | @next offset x hvalid h ih =>
    have hle := h.le
    have hsize := hvalid.lt_size
    have hsame := sameHeader (slice_eq_of_take (i := offset) (m := 32) hb (by omega)) le_rfl
    have hrest := ih hb hlen
    rw [← hsame.size] at hrest
    exact .next (hsame.symm.valid hvalid (by rw [hsame.size]; omega)) hrest

end Reaches

/-- The headers that the reader finds. -/
theorem mem_liveFrom {fuel : ℕ} (hfuel : b.length ≤ offset + fuel) :
    x ∈ liveFrom now b fuel offset ↔ Reaches now b offset x ∧ Valid now b x ∧ Live b x := by
  induction fuel generalizing offset with
  | zero =>
    refine iff_of_false List.not_mem_nil ?_
    rintro ⟨hr, hvalid, -⟩
    have := hr.le
    have := hvalid.1
    omega
  | succ fuel ih =>
    rw [liveFrom]
    split
    · next hvalid =>
      have hsize := hvalid.lt_size
      have hrest := @ih (offset + size b offset) (by omega)
      have hreaches : Reaches now b offset x ↔
          x = offset ∨ Reaches now b (offset + size b offset) x := by
        constructor
        · intro h
          cases h with
          | refl => exact .inl rfl
          | next _ h => exact .inr h
        · rintro (rfl | h)
          · exact .refl x
          · exact .next hvalid h
      dsimp only
      split
      · next hlive =>
        rw [List.mem_cons, hrest, hreaches]
        constructor
        · rintro (rfl | ⟨h, hx⟩)
          · exact ⟨.inl rfl, hvalid, hlive⟩
          · exact ⟨.inr h, hx⟩
        · rintro ⟨rfl | h, hx⟩
          · exact .inl rfl
          · exact .inr ⟨h, hx⟩
      · next hdead =>
        rw [hrest, hreaches]
        constructor
        · rintro ⟨h, hx⟩
          exact ⟨.inr h, hx⟩
        · rintro ⟨rfl | h, hx⟩
          · exact absurd hx.2 hdead
          · exact ⟨h, hx⟩
    · next hnot =>
      refine iff_of_false List.not_mem_nil ?_
      rintro ⟨hr, hvalid, -⟩
      cases hr with
      | refl => exact hnot hvalid
      | next hv _ => exact hnot hv

theorem mem_liveOffsets (h : HasHeader b) :
    x ∈ liveOffsets now b ↔ Reaches now b 8 x ∧ Valid now b x ∧ Live b x := by
  rw [liveOffsets, if_pos h]
  exact mem_liveFrom (by omega)

theorem Follows.le (h : Follows b offset x) : offset ≤ x := by
  induction h with
  | refl offset => exact le_rfl
  | next _ ih => omega

/-- The reader comes to an event further on when it goes on behind this one, and comes to it from
the next one. -/
theorem reaches_iff_of_lt (hw : Written b offset) (hlen : offset + size b offset ≤ b.length)
    (hlt : offset + size b offset ≤ x)
    (hrest : Reaches now b (offset + size b offset) x ∧ Valid now b x ↔
      ∀ o ≤ x, Follows b (offset + size b offset) o → Passed now b o) :
    Reaches now b offset x ∧ Valid now b x ↔ ∀ o ≤ x, Follows b offset o → Passed now b o := by
  have hsize := hw.le
  constructor
  · rintro ⟨hr, hvalid⟩ o ho hfollows
    cases hr with
    | refl => omega
    | next hv hr =>
      cases hfollows with
      | refl => exact (hw.valid_iff hlen).1 hv
      | next hfollows => exact hrest.1 ⟨hr, hvalid⟩ o ho hfollows
  · intro hall
    obtain ⟨hr, hvalid⟩ := hrest.2 fun o ho hfollows => hall o ho (.next hfollows)
    exact ⟨.next ((hw.valid_iff hlen).2 (hall offset (by omega) (.refl offset))) hr, hvalid⟩

namespace Tiling

/-! ### Where the events are -/

theorem le (h : Tiling b offset stop lives) : offset ≤ stop := by
  induction h with
  | nil offset => exact le_rfl
  | live _ _ _ ih => omega
  | dead _ _ _ ih => omega

theorem mem_le (h : Tiling b offset stop lives) (hx : x ∈ lives) :
    offset ≤ x ∧ x + size b x ≤ stop ∧ Written b x ∧ Live b x := by
  induction h with
  | nil offset => cases hx
  | live hw hlive h ih =>
    rcases List.mem_cons.1 hx with rfl | hx
    · exact ⟨le_rfl, h.le, hw, hlive⟩
    · obtain ⟨hle, hrest⟩ := ih hx
      exact ⟨by omega, hrest⟩
  | dead _ _ _ ih =>
    obtain ⟨hle, hrest⟩ := ih hx
    exact ⟨by omega, hrest⟩

theorem append {xs ys : List ℕ} {middle : ℕ} (h : Tiling b offset middle xs)
    (h' : Tiling b middle stop ys) : Tiling b offset stop (xs ++ ys) := by
  induction h with
  | nil offset => exact h'
  | live hw hlive _ ih => exact .live hw hlive (ih h')
  | dead hw hdead _ ih => exact .dead hw hdead (ih h')

/-- One more event at the end. -/
theorem snoc_live (h : Tiling b offset stop lives) (hw : Written b stop)
    (hlive : Live b stop) : Tiling b offset (stop + size b stop) (lives ++ [stop]) :=
  h.append (.live hw hlive (.nil _))

theorem snoc_dead (h : Tiling b offset stop lives) (hw : Written b stop)
    (hdead : ¬ Live b stop) : Tiling b offset (stop + size b stop) lives := by
  have hsnoc := h.append (.dead hw hdead (.nil _))
  rwa [List.append_nil] at hsnoc

/-! ### Other bytes elsewhere -/

/-- Nothing is read behind the last event. -/
theorem of_take (h : Tiling b offset stop lives) (hb : b'.take stop = b.take stop) :
    Tiling b' offset stop lives := by
  induction h with
  | nil offset => exact .nil offset
  | @live offset stop lives hw hlive h ih =>
    have hle := h.le
    have hsize := hw.le
    have hsame := sameHeader (slice_eq_of_take (i := offset) (m := 32) hb (by omega)) le_rfl
    rw [← hsame.size] at ih
    exact .live (hsame.symm.written hw) (hsame.live_iff.2 hlive) (ih hb)
  | @dead offset stop lives hw hdead h ih =>
    have hle := h.le
    have hsize := hw.le
    have hsame := sameHeader (slice_eq_of_take (i := offset) (m := 32) hb (by omega)) le_rfl
    rw [← hsame.size] at ih
    exact .dead (hsame.symm.written hw) (mt hsame.live_iff.1 hdead) (ih hb)

/-- Nothing is read before the first event. -/
theorem of_drop (h : Tiling b offset stop lives) (hb : b'.drop offset = b.drop offset) :
    Tiling b' offset stop lives := by
  induction h with
  | nil offset => exact .nil offset
  | @live offset stop lives hw hlive h ih =>
    have hsame := sameHeader (slice_eq_of_drop (m := 32) hb) le_rfl
    have hrest := ih (by rw [← List.drop_drop, ← List.drop_drop, hb])
    rw [← hsame.size] at hrest
    exact .live (hsame.symm.written hw) (hsame.live_iff.2 hlive) hrest
  | @dead offset stop lives hw hdead h ih =>
    have hsame := sameHeader (slice_eq_of_drop (m := 32) hb) le_rfl
    have hrest := ih (by rw [← List.drop_drop, ← List.drop_drop, hb])
    rw [← hsame.size] at hrest
    exact .dead (hsame.symm.written hw) (mt hsame.live_iff.1 hdead) hrest

/-! ### A new status -/

/-- The header of an event, when the status of another one is written. -/
theorem sameHeader_setStatus {c : UInt8} (hx : x + 2 < b.length)
    (hapart : offset + 32 ≤ x + 2 ∨ x + 3 ≤ offset) :
    SameHeader (b.overwrite (x + 2) [c]) offset b offset :=
  sameHeader (List.slice_overwrite_of_disjoint (by rw [List.length_singleton]; omega)
    (by rw [List.length_singleton]; omega)) le_rfl

/-- The header of the event that has its status written. -/
theorem setStatus_self (status : Status) (hx : x + 2 < b.length) :
    size (b.overwrite (x + 2) [status.code]) x = size b x ∧
      (Live (b.overwrite (x + 2) [status.code]) x ↔ status.isLive = true) ∧
      (Written b x → Written (b.overwrite (x + 2) [status.code]) x) := by
  have hget : ∀ i, i ≠ x + 2 → (b.overwrite (x + 2) [status.code]).getD i 0 = b.getD i 0 := by
    intro i hi
    rw [List.getD_eq_getElem?_getD, List.getD_eq_getElem?_getD, List.getElem?_overwrite (by omega)]
    split
    · rfl
    · rw [if_neg (by rw [List.length_singleton]; omega)]
  have hsize : size (b.overwrite (x + 2) [status.code]) x = size b x :=
    congrArg UInt512.ofBytes (List.slice_overwrite_of_disjoint
      (by rw [List.length_singleton]; omega) (.inr (by rw [List.length_singleton]; omega)))
  have hstatus : EventFile.status (b.overwrite (x + 2) [status.code]) x = status.code := by
    rw [EventFile.status, List.getD_eq_getElem?_getD, List.getElem?_overwrite (by omega),
      if_neg (by omega), if_pos (by rw [List.length_singleton]; omega), Nat.sub_self]
    rfl
  have hid : requestIdSize (b.overwrite (x + 2) [status.code]) x = requestIdSize b x :=
    congrArg UInt8.toNat (hget (x + 3) (by omega))
  have hcount : attachmentCount (b.overwrite (x + 2) [status.code]) x = attachmentCount b x :=
    congrArg UInt8.toNat (hget (x + 24) (by omega))
  refine ⟨hsize, by rw [Live, hstatus, Status.ofCode_code, Option.any_some], fun hw => ?_⟩
  exact
    { magic₀ := (hget x (by omega)).trans hw.magic₀
      magic₁ := (hget (x + 1) (by omega)).trans hw.magic₁
      status := by rw [hstatus, Status.ofCode_code]; rfl
      requestIdSize := hid ▸ hw.requestIdSize
      prefixed := by
        rw [prefixSize, hid, hcount, hsize]
        exact hw.prefixed }

/-- **The status of a live event is written**: it is still live, or it is not any more. -/
theorem setStatus (h : Tiling b offset stop lives) (hx : x ∈ lives) (hlen : x + 2 < b.length)
    (status : Status) : Tiling (b.overwrite (x + 2) [status.code]) offset stop
      (if status.isLive then lives else lives.filter (· ≠ x)) := by
  induction h with
  | nil offset => cases hx
  | @live offset stop lives hw hlive h ih =>
    have hsize := hw.le
    rcases Decidable.eq_or_ne x offset with rfl | hne
    · -- this event; those behind it are as they were
      obtain ⟨hsize', hlive', hw'⟩ := setStatus_self status hlen
      have hrest : Tiling (b.overwrite (x + 2) [status.code])
          (x + size (b.overwrite (x + 2) [status.code]) x) stop lives := by
        rw [hsize']
        exact h.of_drop (List.drop_overwrite_of_le (by omega) (by rw [List.length_singleton]; omega))
      split
      · next hs => exact .live (hw' hw) (hlive'.2 hs) hrest
      · next hs =>
        have hnone : lives.filter (· ≠ x) = lives := List.filter_eq_self.2 fun y hy => by
          have := (h.mem_le hy).1
          simp only [decide_eq_true_eq]
          omega
        rw [List.filter_cons_of_neg (by simp), hnone]
        exact .dead (hw' hw) (mt hlive'.1 hs) hrest
    · have hmem : x ∈ lives := (List.mem_cons.1 hx).resolve_left hne
      have hle := (h.mem_le hmem).1
      have hsame : SameHeader (b.overwrite (x + 2) [status.code]) offset b offset :=
        sameHeader_setStatus hlen (.inl (by omega))
      have hrest := ih hmem
      rw [← hsame.size] at hrest
      rw [List.filter_cons_of_pos (by simpa using hne.symm)]
      have hcons := Tiling.live (hsame.symm.written hw) (hsame.live_iff.2 hlive) hrest
      split
      · next hs => rwa [if_pos hs] at hcons
      · next hs => rwa [if_neg hs] at hcons
  | @dead offset stop lives hw hdead h ih =>
    have hsize := hw.le
    have hle := (h.mem_le hx).1
    have hsame : SameHeader (b.overwrite (x + 2) [status.code]) offset b offset :=
      sameHeader_setStatus hlen (.inl (by omega))
    have hrest := ih hx
    rw [← hsame.size] at hrest
    exact .dead (hsame.symm.written hw) (mt hsame.live_iff.1 hdead) hrest

/-! ### The reader -/

/-- A live header that the reader comes to is one of the tiling, or behind it. -/
theorem mem_or_reaches (h : Tiling b offset stop lives) (hr : Reaches now b offset x)
    (hlive : Live b x) : x ∈ lives ∨ Reaches now b stop x := by
  induction h with
  | nil offset => exact .inr hr
  | live _ _ _ ih =>
    cases hr with
    | refl => exact .inl List.mem_cons_self
    | next _ hr => exact (ih hr).imp_left (List.mem_cons_of_mem _)
  | dead _ hdead _ ih =>
    cases hr with
    | refl => exact absurd hlive hdead
    | next _ hr => exact ih hr

/-- **The reader finds live events of the tiling only**, when it stops behind the last event. -/
theorem mem_of_reaches (h : Tiling b offset stop lives) (hstop : ¬ Valid now b stop)
    (hr : Reaches now b offset x) (hvalid : Valid now b x) (hlive : Live b x) : x ∈ lives := by
  refine (h.mem_or_reaches hr hlive).resolve_right fun hr' => ?_
  cases hr' with
  | refl => exact hstop hvalid
  | next hv _ => exact hstop hv

/-- **The reader comes to a live event** when it goes on behind each event up to it. -/
theorem reaches_iff (h : Tiling b offset stop lives) (hlen : stop ≤ b.length) (hx : x ∈ lives) :
    Reaches now b offset x ∧ Valid now b x ↔
      ∀ o ≤ x, Follows b offset o → Passed now b o := by
  induction h with
  | nil offset => cases hx
  | @live offset stop lives hw hlive h ih =>
    have hle := h.le
    rcases List.mem_cons.1 hx with rfl | hx
    · rw [hw.valid_iff (hle.trans hlen)]
      constructor
      · rintro ⟨-, hpassed⟩ o ho hfollows
        rwa [ho.antisymm hfollows.le]
      · intro hall
        exact ⟨.refl x, hall x le_rfl (.refl x)⟩
    · exact reaches_iff_of_lt hw (hle.trans hlen) (h.mem_le hx).1 (ih hlen hx)
  | @dead offset stop lives hw hdead h ih =>
    have hle := h.le
    exact reaches_iff_of_lt hw (hle.trans hlen) (h.mem_le hx).1 (ih hlen hx)

end Tiling

end EventFile

end Prinbee
