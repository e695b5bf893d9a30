import Prinbee.Journal.Objects

/-!
# The attachments of an event, written and read back

`write_new_event()` lays out the table of the offsets, the identifier and the inline attachments of
an event, and saves the attachments at or over the threshold in files of their own.  An attachment
can be the first bytes of a file: when it is large, the file is linked, cloned or copied.
`read_data()` gives an attachment in an external file the size of that file.

## Main definitions

* `Attachment` — an `attachment` of an `in_event`.
* `Journal.addAttachments` — `add_event()` with such attachments.
* `Journal.ReadsBack` — `read_data()` returns the attachments of the event.

## Main results

* `Journal.readAttachments_placed` — the reader finds every mix of inline, external and empty
  attachments.
* `Journal.readsBack_iff` — the event reads back exactly when the large attachments that are part of
  a file are cloned or copied.
-/

namespace Prinbee

open UInt512 (ofBytes toBytes)

/-- `attachment_copy_handling_t`; the default is `softlink`. -/
inductive CopyHandling
  | softlink
  | hardlink
  | reflink
  | full
  deriving DecidableEq, Repr

/-- `attachment`: data in memory, or the first `size` bytes of a file; `set_file()` takes the size 0
for the whole file.  `canLink` and `canClone` say whether the system links the file and clones
those bytes. -/
inductive Attachment
  | data (bytes : Bytes)
  | file (content : Bytes) (size : ℕ) (size_mem : size ≤ content.length ∧ (size = 0 → content = []))
    (canLink canClone : Bool)

namespace Attachment

/-- `attachment::data()`. -/
def bytes : Attachment → Bytes
  | data bytes => bytes
  | file content size _ _ _ => content.take size

/-- What the external file of a large attachment holds.  `failed` is the variable `r`: a copy after
a failure does not reset it, so a link takes its place. -/
def saved (handling : CopyHandling) : Attachment → Bytes
  | data bytes => bytes
  | file content size _ canLink canClone =>
    let failed := handling = .hardlink && !canLink
    let result := if failed || handling = .reflink then (!canClone, content.take size)
      else (failed, content)
    if result.1 || handling = .softlink then content
    else if handling = .full then content.take size
    else result.2

/-- A large attachment that is part of a file is copied, or cloned. -/
def Saves (handling : CopyHandling) : Attachment → Prop
  | data _ => True
  | file content size _ canLink canClone => size < content.length →
    match handling with
    | .softlink => False
    | .hardlink => canLink = false ∧ canClone = true
    | .reflink => canClone = true
    | .full => True

/-- The external file has the bytes of the attachment. -/
theorem saved_eq_iff (handling : CopyHandling) (a : Attachment) :
    a.saved handling = a.bytes ↔ a.Saves handling := by
  cases a with
  | data bytes => exact iff_of_true rfl trivial
  | file content size size_mem canLink canClone =>
    have hwhole : content = content.take size ↔ ¬ size < content.length := by
      rw [eq_comm, List.take_eq_self_iff, not_lt]
    cases handling <;> cases canLink <;> cases canClone <;>
      simp [saved, bytes, Saves, hwhole]

end Attachment

/-- `in_event`, with its attachments as they were given. -/
structure AttachedEvent where
  requestId : Bytes
  attachments : List Attachment
  count_le : attachments.length ≤ 255

/-- The event with the bytes of its attachments. -/
def AttachedEvent.toInEvent (event : AttachedEvent) : InEvent where
  requestId := event.requestId
  attachments := event.attachments.map Attachment.bytes
  count_le := by rw [List.length_map]; exact event.count_le

namespace Journal

/-- The external files of the large attachments. -/
def saveAttachments (threshold : ℕ) (handling : CopyHandling) :
    List Attachment → ExternalFiles → ExternalFiles
  | [], external => external
  | a :: as, external =>
    if threshold ≤ a.bytes.length then
      saveAttachments threshold handling as
        { counter := external.counter + 1
          content := Function.update external.content ((external.counter + 1) % 2 ^ 31)
            (some (a.saved handling)) }
    else saveAttachments threshold handling as external

/-- `add_event()`: the sizes of the attachments decide where they go, whatever they are; the ones in
files differ in their external files only. -/
def addAttachments (s : Journal) (handling : CopyHandling) (now : ℤ) (event : AttachedEvent)
    (eventTime : ℤ) : Except Failure Bool × Journal :=
  match s.addEvent now event.toInEvent eventTime with
  | (.ok true, s') =>
    (.ok true, { s' with
      external := saveAttachments s.options.inlineAttachmentSizeThreshold handling
        event.attachments s.external })
  | (r, s') => (r, s')

/-- The event is there and `read_data()` returns its attachments. -/
def ReadsBack (s : Journal) (event : AttachedEvent) : Prop :=
  (∃ l ∈ s.eventLocations, l.requestId = event.requestId) ∧
    ∀ l ∈ s.eventLocations, l.requestId = event.requestId →
      s.readData l = event.attachments.map fun a => some a.bytes

variable {s : Journal} {p i : ℕ}

/-! ### The external files -/

/-- The identifiers of an event's attachments are next to each other: a later attachment does not
take the file of an earlier one. -/
theorem content_saveAttachments {threshold : ℕ} {handling : CopyHandling} {as : List Attachment}
    {x : ExternalFiles} {identifier : ℕ}
    (hne : ∀ j < as.length, (x.counter + 1 + j) % 2 ^ 31 ≠ identifier) :
    (saveAttachments threshold handling as x).content identifier = x.content identifier := by
  induction as generalizing x with
  | nil => rfl
  | cons a as ih =>
    rw [saveAttachments]
    split
    · rw [ih]
      · have hfirst := hne 0 (by simp)
        exact Function.update_of_ne (Ne.symm hfirst) _ _
      · intro j hj
        have hnext := hne (j + 1) (by rw [List.length_cons]; omega)
        rwa [show x.counter + 1 + (j + 1) = x.counter + 1 + 1 + j by omega] at hnext
    · exact ih fun j hj => hne j (by rw [List.length_cons]; omega)

/-! ### The table of the offsets -/

theorem placeAttachments_large {threshold : ℕ} {a : Bytes} (h : threshold ≤ a.length)
    (as : List Bytes) (size : ℕ) (x : ExternalFiles) :
    (placeAttachments threshold (a :: as) size x).1 =
      ((x.counter + 1) % 2 ^ 31 + 2 ^ 31) :: (placeAttachments threshold as size
        { counter := x.counter + 1
          content := Function.update x.content ((x.counter + 1) % 2 ^ 31) (some a) }).1 := by
  rw [placeAttachments, if_pos h]
  dsimp only
  rw [Nat.or_two_pow_eq_add_of_lt (Nat.mod_lt _ (by decide))]

theorem placeAttachments_small {threshold : ℕ} {a : Bytes} (h : a.length < threshold)
    (as : List Bytes) (size : ℕ) (x : ExternalFiles) :
    (placeAttachments threshold (a :: as) size x).1 =
      size :: (placeAttachments threshold as (size + a.length) x).1 := by
  rw [placeAttachments, if_neg (by omega)]

/-- The attachments that are saved after the identifier. -/
def inlined (threshold : ℕ) (as : List Bytes) : Bytes :=
  (as.filter (·.length < threshold)).flatten

theorem inlined_large {threshold : ℕ} {a : Bytes} (h : threshold ≤ a.length) (as : List Bytes) :
    inlined threshold (a :: as) = inlined threshold as := by
  rw [inlined, List.filter_cons_of_neg (by simpa using h), inlined]

theorem inlined_small {threshold : ℕ} {a : Bytes} (h : a.length < threshold) (as : List Bytes) :
    inlined threshold (a :: as) = a ++ inlined threshold as := by
  rw [inlined, List.filter_cons_of_pos (by simpa using h), List.flatten_cons, inlined]

/-- The next offset that is not one of an external file is where the inline attachments go on;
without one there are none left. -/
theorem find?_placed (threshold : ℕ) (as : List Bytes) (size : ℕ) (x : ExternalFiles)
    (hlt : size < 2 ^ 31) :
    (placeAttachments threshold as size x).1.find? (· < 2 ^ 31) = some size ∨
      (placeAttachments threshold as size x).1.find? (· < 2 ^ 31) = none ∧
        inlined threshold as = [] := by
  induction as generalizing x with
  | nil => exact .inr ⟨rfl, rfl⟩
  | cons a as ih =>
    by_cases ha : threshold ≤ a.length
    · rw [placeAttachments_large ha, inlined_large ha, List.find?_cons_of_neg (by simp)]
      exact ih _
    · have hsmall : a.length < threshold := by omega
      rw [placeAttachments_small hsmall, List.find?_cons_of_pos (by simpa using hlt)]
      exact .inl rfl

/-- All the offsets have 32 bits. -/
theorem placed_lt {threshold : ℕ} (as : List Bytes) (size : ℕ) (x : ExternalFiles)
    (hlt : size + (inlined threshold as).length < 2 ^ 31) :
    ∀ offset ∈ (placeAttachments threshold as size x).1, offset < 2 ^ 32 := by
  induction as generalizing size x with
  | nil => intro offset h; cases h
  | cons a as ih =>
    by_cases ha : threshold ≤ a.length
    · rw [placeAttachments_large ha]
      rw [inlined_large ha] at hlt
      intro offset hoffset
      rcases List.mem_cons.1 hoffset with rfl | hoffset
      · have := Nat.mod_lt (x.counter + 1) (by decide : 2 ^ 31 > 0)
        omega
      · exact ih _ _ hlt offset hoffset
    · have hsmall : a.length < threshold := by omega
      rw [placeAttachments_small hsmall]
      rw [inlined_small hsmall, List.length_append] at hlt
      intro offset hoffset
      rcases List.mem_cons.1 hoffset with rfl | hoffset
      · omega
      · exact ih _ _ (by omega) offset hoffset

/-! ### Reading the attachments -/

/-- What the reader makes of an attachment. -/
def readBack (threshold : ℕ) (handling : CopyHandling) (a : Attachment) : Bytes :=
  if threshold ≤ a.bytes.length then a.saved handling else a.bytes

/-- The reader finds every mix and order of inline, external and empty attachments. -/
theorem readAttachments_placed {threshold : ℕ} {handling : CopyHandling} (as : List Attachment)
    (size : ℕ) (x x' : ExternalFiles) (hx : x.counter = x'.counter) (hcount : as.length ≤ 255)
    {l : Location}
    (hexternal : s.external.content = (saveAttachments threshold handling as x).content)
    (hdata : inlined threshold (as.map Attachment.bytes) <+:
      (s.content l.file).drop (l.offset + size))
    (hsize : l.size = size + (inlined threshold (as.map Attachment.bytes)).length)
    (hlt : l.size < 2 ^ 31) :
    s.readAttachments l (placeAttachments threshold (as.map Attachment.bytes) size x').1 =
      as.map fun a => some (readBack threshold handling a) := by
  induction as generalizing size x x' with
  | nil => rfl
  | cons a as ih =>
    rw [List.length_cons] at hcount
    rw [List.map_cons] at hdata hsize ⊢
    rw [List.map_cons]
    by_cases ha : threshold ≤ a.bytes.length
    · rw [saveAttachments, if_pos ha] at hexternal
      rw [inlined_large ha] at hdata hsize
      rw [placeAttachments_large ha, readAttachments, if_pos (by omega), Nat.add_sub_cancel,
        readBack, if_pos ha]
      refine congrArg₂ List.cons ?_ (ih size _ _ ?_ (by omega) hexternal hdata hsize)
      · rw [hexternal, ← hx, content_saveAttachments]
        · exact Function.update_self _ _ _
        · intro j hj
          dsimp only
          omega
      · dsimp only
        rw [hx]
    · have hsmall : a.bytes.length < threshold := by omega
      rw [saveAttachments, if_neg ha] at hexternal
      rw [inlined_small hsmall, List.length_append] at hsize
      rw [inlined_small hsmall, List.append_prefix_drop] at hdata
      obtain ⟨hfirst, hrest⟩ := hdata
      rw [placeAttachments_small hsmall, readAttachments, if_neg (by omega), readBack, if_neg ha]
      dsimp only
      refine congrArg₂ List.cons (congrArg some ?_)
        (ih _ _ _ hx (by omega) hexternal (by rw [← Nat.add_assoc]; exact hrest) (by omega))
      -- the attachment ends where the next inline one starts, or the event ends
      obtain hnext | ⟨hnext, hnone⟩ := find?_placed threshold
        (as.map Attachment.bytes) (size + a.bytes.length) x' (by omega)
      · rw [hnext]
        dsimp only
        rw [sub32_of_le (by omega), Nat.add_sub_cancel_left]
        exact List.slice_of_isPrefix hfirst
      · rw [hnext]
        dsimp only
        rw [hnone, List.length_nil] at hsize
        rw [sub32_of_le (by omega), show l.size - size = a.bytes.length by omega]
        exact List.slice_of_isPrefix hfirst

/-- The table of the offsets is read back. -/
theorem map_slice_offsets {b : Bytes} (offsets : List ℕ) (k : ℕ)
    (htable : offsets.flatMap (toBytes 4) <+: b.drop k) (hlt : ∀ o ∈ offsets, o < 2 ^ 32) :
    ((List.range offsets.length).map fun i => ofBytes (b.slice (k + 4 * i) 4)) = offsets := by
  induction offsets generalizing k with
  | nil => rfl
  | cons o os ih =>
    rw [List.flatMap_cons, List.append_prefix_drop, UInt512.length_toBytes] at htable
    obtain ⟨hfirst, hrest⟩ := htable
    rw [List.length_cons, List.range_succ_eq_map, List.map_cons, List.map_map]
    refine congrArg₂ List.cons ?_ ?_
    · have hslice := List.slice_of_isPrefix hfirst
      rw [UInt512.length_toBytes] at hslice
      rw [Nat.mul_zero, Nat.add_zero, hslice, UInt512.ofBytes_toBytes]
      exact Nat.mod_eq_of_lt (hlt o List.mem_cons_self)
    · have htail := ih (k + 4) hrest fun o' ho' => hlt o' (List.mem_cons_of_mem _ ho')
      refine (List.map_congr_left fun i _ => ?_).trans htail
      rw [Function.comp_apply, show k + 4 * i.succ = k + 4 + 4 * i by omega]

/-- What was written is at its offset. -/
theorem prefix_drop_writeAt (b : Bytes) (offset : ℕ) (data : Bytes) :
    data <+: (writeAt b offset data).drop offset := by
  have hlen : offset ≤ (b ++ List.replicate (offset - b.length) (0 : UInt8)).length := by
    rw [List.length_append, List.length_replicate]
    omega
  rw [writeAt, List.overwrite, List.append_assoc, List.drop_append_of_le_length,
    List.drop_eq_nil_of_le, List.nil_append]
  · exact List.prefix_append _ _
  · rw [List.length_take]
    omega
  · rw [List.length_take]
    omega

/-! ### The event -/

/-- The bytes of the event are in its file. -/
theorem newBytes_prefix (hthere : (s.disk (s.file p).index).isSome) (event : InEvent) (time : ℤ) :
    s.newBytes event time <+: ((s.appended p event time).content p).drop
      ((s.writeJournalHeader p).file p).nextAppend := by
  have hcontent : (s.appended p event time).content p =
      writeAt ((s.writeJournalHeader p).content p) ((s.writeJournalHeader p).file p).nextAppend
        (s.newBytes event time) := by
    refine (congrArg (Option.getD · []) (disk_countEvent _ p _)).trans ?_
    exact content_modify (there_writeJournalHeader hthere) _
  rw [hcontent]
  exact prefix_drop_writeAt _ _ _

/-- Reading the event that was written: the attachments that are not in external files, and those
files. -/
theorem Written.readData {o : JournalOptions} {x : ExternalFiles} {event : AttachedEvent}
    {s' : Journal} (h : Written o x none event.toInEvent s') (handling : CopyHandling) :
    (∃ l ∈ s'.eventLocations, l.requestId = event.requestId) ∧
      ∀ l ∈ s'.eventLocations, l.requestId = event.requestId →
        Journal.readData { s' with
            external := saveAttachments o.inlineAttachmentSizeThreshold handling event.attachments x }
          l = event.attachments.map fun a =>
            some (readBack o.inlineAttachmentSizeThreshold handling a) := by
  obtain ⟨s, p, i, time, hs, hp, hthere, hroom, rfl⟩ := h.exists_file
  obtain ⟨-, -, -, hcontent⟩ := hs.toRegistered.writeNewEvent hp event.toInEvent time
  have hbytes := newBytes_prefix hthere event.toInEvent time
  rw [← hcontent] at hbytes
  set l₀ := (s.writeJournalHeader p).newLocation p event.toInEvent time with hl₀
  have hlocations : (s.writeNewEvent p event.toInEvent time).eventLocations =
      ((s.appended p event.toInEvent time).eventLocations.filter
        fun m => m.requestId ≠ event.requestId) ++ [l₀] := by
    obtain ⟨files, disk, -, hframe⟩ := (s.appended p event.toInEvent time).insertLocation_frame l₀
    rw [s.writeNewEvent_eq, ← hl₀, hframe]
    rfl
  have hsize : l₀.size = s.eventSize event.toInEvent := by
    change (s.writeJournalHeader p).eventSize event.toInEvent = _
    rw [eventSize, eventSize, (s.writeJournalHeader_frame p).1]
  have hlt : s.eventSize event.toInEvent < 2 ^ 31 := by
    rw [hasRoom, decide_eq_true_eq] at hroom
    have := s.options.fileSize_mem.2
    omega
  refine ⟨⟨l₀, ?_, rfl⟩, fun l hl hid => ?_⟩
  · rw [hlocations]
    exact List.mem_append_right _ (List.mem_singleton_self l₀)
  have hl : l = l₀ := by
    rw [hlocations] at hl
    rcases List.mem_append.1 hl with hl | hl
    · exact absurd hid (of_decide_eq_true (List.mem_filter.1 hl).2)
    · exact List.mem_singleton.1 hl
  subst hl
  set s' : Journal := { s.writeNewEvent p event.toInEvent time with
    external := saveAttachments o.inlineAttachmentSizeThreshold handling event.attachments x }
  -- the header, the table, the identifier and the inline attachments follow each other
  change s.newBytes event.toInEvent time <+: (s'.content l₀.file).drop l₀.offset at hbytes
  rw [newBytes, eventBytes, List.append_prefix_drop, List.append_prefix_drop,
    List.append_prefix_drop, length_eventHeader, length_offsets] at hbytes
  obtain ⟨-, htable, -, hdata⟩ := hbytes
  have hthreshold : s.options.inlineAttachmentSizeThreshold = o.inlineAttachmentSizeThreshold := by
    rw [hs.options]
  have hcount : (s.placed event.toInEvent).1.length = event.attachments.length := by
    rw [placed, length_placeAttachments]
    exact List.length_map _
  rw [placed] at htable hcount
  rw [hthreshold, hs.external] at htable hcount
  rw [placed, length_placeAttachments, hthreshold] at hdata
  rw [eventSize, hthreshold] at hsize hlt
  have hinlined : inlineData o.inlineAttachmentSizeThreshold event.toInEvent =
      inlined o.inlineAttachmentSizeThreshold (event.attachments.map Attachment.bytes) := rfl
  rw [hinlined] at hdata hsize hlt
  have hoffsets : s'.attachmentOffsets l₀ =
      (placeAttachments o.inlineAttachmentSizeThreshold
        (event.attachments.map Attachment.bytes) (baseSize event.toInEvent) x).1 := by
    have hread := map_slice_offsets _ _ htable
      (placed_lt (event.attachments.map Attachment.bytes) (baseSize event.toInEvent) x hlt)
    rw [hcount] at hread
    have hlength : l₀.attachmentCount = event.attachments.length := List.length_map _
    rw [attachmentOffsets, hlength]
    exact hread
  rw [Journal.readData, hoffsets]
  refine readAttachments_placed event.attachments (baseSize event.toInEvent) x x rfl event.count_le
    rfl ?_ hsize (hsize ▸ hlt)
  simpa only [baseSize, Nat.add_assoc] using hdata

/-! ### The round trip -/

/-- With attachments whose bytes are saved, it is `add_event()` of the event with these bytes. -/
theorem saveAttachments_eq {threshold : ℕ} {handling : CopyHandling} {as : List Attachment}
    (hsaved : ∀ a ∈ as, a.saved handling = a.bytes) (size : ℕ) (x : ExternalFiles) :
    saveAttachments threshold handling as x =
      (placeAttachments threshold (as.map Attachment.bytes) size x).2 := by
  induction as generalizing size x with
  | nil => rfl
  | cons a as ih =>
    have hrest := fun size x => ih (fun a' ha' => hsaved a' (List.mem_cons_of_mem a ha')) size x
    rw [List.map_cons, saveAttachments, placeAttachments]
    split
    · rw [hrest size, hsaved a List.mem_cons_self]
    · exact hrest (size + a.bytes.length) x

theorem Bounded.addAttachments_eq {o : JournalOptions} {x : ExternalFiles} (h : s.Bounded o x none)
    {handling : CopyHandling} {event : AttachedEvent}
    (hsaved : ∀ a ∈ event.attachments, a.saved handling = a.bytes) (now eventTime : ℤ) :
    s.addAttachments handling now event eventTime = s.addEvent now event.toInEvent eventTime := by
  have hevent := h.addEvent now event.toInEvent eventTime
  unfold addAttachments
  generalize s.addEvent now event.toInEvent eventTime = result at hevent ⊢
  obtain ⟨_ | _ | _, s'⟩ := result
  · rfl
  · rfl
  · have hwritten : Written o x none event.toInEvent s' := (hevent.resolve_left (by simp)).2
    obtain ⟨s₁, p, i, time, hs, hp, hthere, -, rfl⟩ := hwritten.exists_file
    have hexternal := (hs.writeNewEvent hp hthere event.toInEvent time (within_none _)).external
    rw [placed, hs.options, hs.external] at hexternal
    dsimp only
    rw [h.options, h.external, saveAttachments_eq hsaved (baseSize event.toInEvent),
      show (placeAttachments _ (event.attachments.map Attachment.bytes) _ _).2 = _ from
        hexternal.symm]

/-- An event whose add_event() was accepted reads back when each attachment does. -/
theorem Bounded.readsBack_addAttachments {o : JournalOptions} {x : ExternalFiles}
    (h : s.Bounded o x none) {handling : CopyHandling} {now : ℤ} {event : AttachedEvent}
    {eventTime : ℤ} (hadd : (s.addAttachments handling now event eventTime).1 = .ok true) :
    ReadsBack (s.addAttachments handling now event eventTime).2 event ↔
      ∀ a ∈ event.attachments, readBack o.inlineAttachmentSizeThreshold handling a = a.bytes := by
  have hevent := h.addEvent now event.toInEvent eventTime
  unfold addAttachments at hadd ⊢
  generalize s.addEvent now event.toInEvent eventTime = result at hadd hevent ⊢
  obtain ⟨r, s'⟩ := result
  have hr : r = .ok true := by
    rcases r with e | _ | _
    · exact hadd
    · exact hadd
    · rfl
  subst hr
  have hwritten : Written o x none event.toInEvent s' := (hevent.resolve_left (by simp)).2
  obtain ⟨hthere, hread⟩ := hwritten.readData handling
  dsimp only
  rw [h.options, h.external]
  constructor
  · rintro ⟨⟨l, hl, hid⟩, hback⟩ a ha
    have heq := (hread l hl hid).symm.trans (hback l hl hid)
    exact Option.some.inj (List.map_inj_left.1 heq a ha)
  · intro hall
    refine ⟨hthere, fun l hl hid => (hread l hl hid).trans (List.map_congr_left fun a ha => ?_)⟩
    rw [hall a ha]

/-- **An event reads back exactly when its large attachments that are part of a file are cloned or
copied.**  For every directory, every run of calls and every event that is then accepted. -/
theorem readsBack_iff (options : JournalOptions) (disk : ℕ → Option Bytes)
    (external : ExternalFiles) (now : ℤ) (calls : List EventCall) (handling : CopyHandling)
    (now' : ℤ) (event : AttachedEvent) (eventTime : ℤ)
    (hadd : ((calls.foldl EventCall.step (construct options disk external now)).addAttachments
      handling now' event eventTime).1 = .ok true) :
    ReadsBack ((calls.foldl EventCall.step (construct options disk external now)).addAttachments
        handling now' event eventTime).2 event ↔
      ∀ a ∈ event.attachments, options.inlineAttachmentSizeThreshold ≤ a.bytes.length →
        a.Saves handling := by
  have hdisk : ∀ i b, disk i = some b → Within none b.length := fun _ b _ => within_none b.length
  obtain ⟨x, hs⟩ := (bounded_construct options external now (within_none _) hdisk).run calls
  rw [hs.readsBack_addAttachments hadd]
  refine forall₂_congr fun a _ => ?_
  rw [readBack]
  split
  · next hlarge => rw [Attachment.saved_eq_iff, forall_prop_of_true hlarge]
  · next hsmall => exact iff_of_true rfl fun hlarge => absurd hlarge hsmall

/-- Attachments in memory read back, whatever their sizes. -/
theorem Bounded.readsBack_data {o : JournalOptions} {x : ExternalFiles} (h : s.Bounded o x none)
    {handling : CopyHandling} {now : ℤ} {event : AttachedEvent} {eventTime : ℤ}
    (hdata : ∀ a ∈ event.attachments, ∃ bytes, a = .data bytes)
    (hadd : (s.addAttachments handling now event eventTime).1 = .ok true) :
    ReadsBack (s.addAttachments handling now event eventTime).2 event := by
  rw [h.readsBack_addAttachments hadd]
  intro a ha
  obtain ⟨bytes, rfl⟩ := hdata a ha
  rw [readBack]
  split <;> rfl

/-- Attachments in memory, one of them empty, in a new journal. -/
def smallEvent : AttachedEvent := ⟨[65], [.data [1, 2], .data [], .data [3]], by decide⟩

theorem readsBack_iff_small :
    ReadsBack ((([] : List EventCall).foldl EventCall.step
        (construct threeFiles (fun _ => none) ⟨0, fun _ => none⟩ 100)).addAttachments .softlink 100
          smallEvent 90).2 smallEvent ↔
      ∀ a ∈ smallEvent.attachments, threeFiles.inlineAttachmentSizeThreshold ≤ a.bytes.length →
        a.Saves .softlink :=
  readsBack_iff threeFiles (fun _ => none) ⟨0, fun _ => none⟩ 100 [] .softlink 100 smallEvent 90
    (by decide)

/-! ### A part of a file -/

/-- Attachments of 256 bytes or more are external. -/
def smallThreshold : JournalOptions :=
  { threeFiles with inlineAttachmentSizeThreshold := 256, threshold_mem := by decide }

/-- The first 256 bytes of a file of 257 bytes. -/
def partOfFile : AttachedEvent where
  requestId := [65]
  attachments := [.file (List.replicate 257 0) 256
    ⟨by rw [List.length_replicate]; omega, fun h => absurd h (by decide)⟩ true true]
  count_le := Nat.le_add_left 1 254

/-- With the default handling a link to the file takes the place of the attachment, and the whole
file is read back. -/
theorem not_readsBack : ¬ ∀ (options : JournalOptions) (disk : ℕ → Option Bytes)
    (external : ExternalFiles) (now : ℤ) (calls : List EventCall) (handling : CopyHandling)
    (now' : ℤ) (event : AttachedEvent) (eventTime : ℤ),
    ((calls.foldl EventCall.step (construct options disk external now)).addAttachments
      handling now' event eventTime).1 = .ok true →
    ReadsBack ((calls.foldl EventCall.step (construct options disk external now)).addAttachments
      handling now' event eventTime).2 event := by
  intro h
  have hadd : ((construct smallThreshold (fun _ => none) ⟨0, fun _ => none⟩ 100).addAttachments
      .softlink 100 partOfFile 90).1 = .ok true := by decide +kernel
  have hback := h smallThreshold (fun _ => none) ⟨0, fun _ => none⟩ 100 [] .softlink 100 partOfFile
    90 hadd
  have hdisk : ∀ (i : ℕ) (b : Bytes), (fun _ => none : ℕ → Option Bytes) i = some b →
      Within none b.length := fun _ b _ => within_none b.length
  have hbounded := bounded_construct smallThreshold ⟨0, fun _ => none⟩ 100 (within_none _) hdisk
  have hall := (hbounded.readsBack_addAttachments hadd).1 hback
  exact absurd (hall _ List.mem_cons_self) (by decide +kernel)

end Journal

end Prinbee
