import Prinbee.Journal.Contents

/-!
# Files that can be read again

In every state of a run whose compressions are safe, the events of a file with live ones follow each
other from its header to the place of the next event, and a file without live events ends where its
last event did.  So when a file is closed, and whatever is behind its events is cut off, a reader finds
live events of the journal in it and nothing else.

## Main definitions

* `Journal.Durable` — the journal is sound and its files are like that.
* `Journal.EndsAt` — the bytes of a file that was closed.

## Main results

* `Journal.Durable.writeNewEvent`, `Journal.Durable.updateEventStatus`,
  `Journal.Durable.loadEventLocations` — the operations keep the invariant.
* `Journal.Steady.event` — so does every call.
-/

namespace Prinbee

open UInt512 (ofBytes toBytes)

namespace Journal

/-- The index is consistent, the files hold its events one after the other, and the files that have
no live event have no live header. -/
structure Durable (s : Journal) : Prop extends Sound s where
  tiled : s.Tiled s.eventLocations
  cleared : s.Cleared s.eventLocations
  intact : s.Intact s.eventLocations

variable {s s' : Journal} {p : ℕ} {l m : Location}

/-! ### Closing a file -/

/-- The file that had the bytes `b` has the bytes `b'` up to `n`, where a reader stops. -/
structure EndsAt (b b' : Bytes) (n : ℕ) : Prop where
  take : b'.take n = b.take n
  length : n ≤ b'.length
  stop : ∀ now, ¬ EventFile.Valid now b' n

theorem not_valid_of_length_le {b : Bytes} {n : ℕ} (h : b.length ≤ n) (now : ℤ) :
    ¬ EventFile.Valid now b n := by
  intro hvalid
  have := hvalid.1
  omega

/-- The file gets the size of its events. -/
theorem endsAt_resizeFile {b : Bytes} {n : ℕ} (h : n ≤ b.length) :
    EndsAt b (resizeFile b n) n := by
  have hresize : resizeFile b n = b.take n := by
    rw [resizeFile, Nat.sub_eq_zero_of_le h, List.replicate_zero, List.append_nil]
  have hlen : (b.take n).length = n := by
    rw [List.length_take]
    omega
  rw [hresize]
  exact ⟨by rw [List.take_take, Nat.min_self], hlen.ge, not_valid_of_length_le hlen.le⟩

/-- Two zeroes are written behind the events of the file. -/
theorem endsAt_zeroes {b : Bytes} {n : ℕ} (h : n < b.length) :
    EndsAt b (writeAt b n (List.replicate (min 2 (b.length - n)) 0)) n := by
  rw [writeAt_of_le _ h.le]
  refine ⟨List.take_overwrite_of_le le_rfl h.le, ?_, fun now hvalid => ?_⟩
  · rw [List.length_overwrite h.le]
    exact le_max_of_le_left h.le
  · have hzero : (b.overwrite n (List.replicate (min 2 (b.length - n)) 0)).getD n 0 = 0 := by
      rw [List.getD_eq_getElem?_getD, List.getElem?_overwrite h.le, if_neg (lt_irrefl n),
        if_pos (by rw [List.length_replicate]; omega), Nat.sub_self,
        List.getElem?_replicate_of_lt (by omega), Option.getD_some]
    have hmagic := hvalid.2.1
    rw [hzero] at hmagic
    exact absurd hmagic (by decide)

/-- **A file that is closed ends where its events do**, or goes away when it has none. -/
theorem truncate_closes {b : Bytes} (hb : s.disk (s.file p).index = some b)
    (h8 : 8 ≤ (s.file p).nextAppend) (hle : (s.file p).nextAppend ≤ b.length) :
    ∃ d, (s.truncate p).disk = Function.update s.disk (s.file p).index d ∧
      (∀ b', d = some b' → EndsAt b b' (s.file p).nextAppend) ∧
      (8 < (s.file p).nextAppend → d.isSome ∧ (s.truncate p).files = s.files) := by
  have hcontent : s.content p = b := by rw [content, hb, Option.getD_some]
  have hmax : max 8 (s.file p).nextAppend = (s.file p).nextAppend := max_eq_right h8
  have hmodify : ∀ f, (s.modify p f).disk = Function.update s.disk (s.file p).index (some (f b)) :=
    fun f => by rw [modify, hb, Option.map_some]
  have hresized : ∃ d, (s.modify p (resizeFile · (s.file p).nextAppend)).disk =
      Function.update s.disk (s.file p).index d ∧
      (∀ b', d = some b' → EndsAt b b' (s.file p).nextAppend) ∧
      (8 < (s.file p).nextAppend →
        d.isSome ∧ (s.modify p (resizeFile · (s.file p).nextAppend)).files = s.files) := by
    refine ⟨_, hmodify _, fun b' hb' => ?_, fun _ => ⟨rfl, rfl⟩⟩
    cases hb'
    exact endsAt_resizeFile hle
  unfold truncate
  dsimp only
  rw [hcontent, hmax]
  split
  · split
    · next hlt =>
      refine ⟨_, hmodify _, fun b' hb' => ?_, fun _ => ⟨rfl, rfl⟩⟩
      cases hb'
      exact endsAt_zeroes hlt.2
    · next hlt =>
      refine ⟨some b, by rw [← hb, Function.update_eq_self], fun b' hb' => ?_, fun _ => ⟨rfl, rfl⟩⟩
      cases hb'
      exact ⟨rfl, hle, not_valid_of_length_le (by omega)⟩
  · exact hresized
  · split
    · next h => exact ⟨none, rfl, fun b' hb' => (by cases hb'), fun hlt => by omega⟩
    · exact hresized

/-- A reader of a closed file whose events are dead finds nothing. -/
theorem EndsAt.liveOffsets {b b' : Bytes} {n : ℕ} (h : EndsAt b b' n)
    (ht : EventFile.Tiling b 8 n []) (now : ℤ) : EventFile.liveOffsets now b' = [] := by
  by_cases hheader : EventFile.HasHeader b'
  · refine List.eq_nil_iff_forall_not_mem.2 fun x hx => ?_
    obtain ⟨hr, hvalid, hlive⟩ := (EventFile.mem_liveOffsets hheader).1 hx
    exact absurd ((ht.of_take h.take).mem_of_reaches (h.stop now) hr hvalid hlive) List.not_mem_nil
  · rw [EventFile.liveOffsets, if_neg hheader]

/-! ### What is known of the live events -/

/-- The place of the next event in the file of a live event. -/
theorem Sound.lt_nextAppend (h : s.Sound) (hl : l ∈ s.eventLocations) :
    40 ≤ (s.file l.file).nextAppend := by
  obtain ⟨b, -, -, -, hholds, hoffset⟩ := h.stored l hl
  have hbelow := h.below l hl
  have hprefix := hholds.prefixed
  omega

theorem Holds.live_iff {b : Bytes} (h : Holds b l) :
    EventFile.Live b l.offset ↔ l.status.isLive = true := by
  rw [EventFile.Live, h.status, Status.ofCode_code, Option.any_some]

theorem Holds.written {b : Bytes} (h : Holds b l) (hid : l.requestId ≠ []) :
    EventFile.Written b l.offset where
  magic₀ := h.magic₀
  magic₁ := h.magic₁
  status := by
    rw [h.status, Status.ofCode_code]
    rfl
  requestIdSize := by
    rw [h.requestIdSize]
    exact mt List.length_eq_zero_iff.1 hid
  prefixed := by
    rw [EventFile.prefixSize, h.attachmentCount, h.requestIdSize, h.size]
    exact h.prefixed

/-- The events of the files that change on the way to one with room. -/
theorem Durable.tried (h : s.Durable) (ht : Tried s s') : s'.Durable := by
  have hdisk : ∀ l ∈ s.eventLocations, s'.disk l.fileIndex = s.disk l.fileIndex := fun l hl =>
    (ht.disk l.fileIndex).resolve_right fun hne => hne.1 l hl rfl
  refine { toSound := ht.sound, tiled := ?_, cleared := ?_, intact := ?_ }
  · rw [ht.eventLocations]
    intro l hl
    rw [hdisk l hl, ht.file l hl]
    exact h.tiled l hl
  · rw [ht.eventLocations]
    intro i b hb hne now
    rcases ht.disk i with hsame | ⟨-, hnone⟩
    · rw [hsame] at hb
      exact h.cleared i b hb hne now
    · exact hnone b hb now
  · rw [ht.eventLocations]
    intro l hl b hb
    rw [hdisk l hl] at hb
    exact h.intact l hl b hb

/-! ### A new event -/

/-- The file that an event is written in: its events follow each other up to the place of the new
one, and the others are as they were. -/
theorem Durable.ready (h : s.Durable) {s₁ : Journal}
    (ho : s.openFile s.currentFileIndex true = (some p, s₁)) :
    ∃ b lives, (s₁.writeJournalHeader p).disk s.currentFileIndex = some b ∧
      EventFile.Tiling b 8 ((s₁.writeJournalHeader p).file p).nextAppend lives ∧
      (∀ o, o ∈ lives ↔ ∃ m ∈ s.eventLocations, m.fileIndex = s.currentFileIndex ∧ m.offset = o) ∧
      (∀ i, i ≠ s.currentFileIndex → (s₁.writeJournalHeader p).disk i = s.disk i) ∧
      ∀ l ∈ s.eventLocations, (s₁.writeJournalHeader p).file l.file = s.file l.file ∧
        ∀ b', s.disk l.fileIndex = some b' → l.fileIndex = s.currentFileIndex → b' = b := by
  obtain ⟨q, hlock, heq⟩ | ⟨-, -, hcreate, -⟩ | ⟨hlock, b, -, heq⟩ :=
    s.openFile_cases s.currentFileIndex true
  · -- there is an event in the file already
    rw [heq] at ho
    cases ho
    obtain ⟨hget, hopen⟩ := Option.filter_eq_some_iff.1 hlock
    obtain ⟨l, hl, rfl⟩ := h.exists_of_isOpen hopen
    have hindex : l.fileIndex = s.currentFileIndex := h.inj _ _ _ (h.linked l hl).2 hget
    have hlt := h.lt_nextAppend hl
    obtain ⟨b, lives, hb, htiling, hmem⟩ := h.tiled l hl
    rw [hindex] at hb hmem
    rw [writeJournalHeader, if_neg (by omega)]
    refine ⟨b, lives, hb, htiling, hmem, fun _ _ => rfl, fun m _ => ⟨rfl, fun b' hb' hm => ?_⟩⟩
    rw [hm, hb] at hb'
    exact (Option.some.inj hb').symm
  · cases hcreate
  · -- a file without live events
    rw [heq] at ho
    cases ho
    have hself := file_opened_self s s.currentFileIndex b
    have hmade : s.files.length < (s.opened s.currentFileIndex b).files.length := by
      rw [Journal.opened, List.length_append, List.length_singleton]
      omega
    have hdisk : (s.opened s.currentFileIndex b).disk s.currentFileIndex = some b :=
      Function.update_self ..
    rw [writeJournalHeader, hself, if_pos rfl]
    refine ⟨b.overwrite 0 journalHeader, [], ?_, ?_, fun o => ?_, fun i hi => ?_, fun l hl => ?_⟩
    · change Function.update (s.opened s.currentFileIndex b).disk
        ((s.opened s.currentFileIndex b).file s.files.length).index _ s.currentFileIndex = _
      rw [hself, hdisk, Function.update_self, Option.map_some, writeAt_of_le _ (Nat.zero_le _)]
    · have hfile : ((s.opened s.currentFileIndex b).files.set s.files.length
          { index := s.currentFileIndex, eventCount := 0, nextAppend := 8 }).getD s.files.length
            default = { index := s.currentFileIndex, eventCount := 0, nextAppend := 8 } :=
        List.getD_set_self hmade _ _
      change EventFile.Tiling _ 8 (((s.opened s.currentFileIndex b).files.set s.files.length
        { index := s.currentFileIndex, eventCount := 0, nextAppend := 8 }).getD s.files.length
          default).nextAppend []
      rw [hfile]
      exact .nil 8
    · refine iff_of_false List.not_mem_nil ?_
      rintro ⟨m, hm, hindex, -⟩
      exact h.fileIndex_ne_of_lock hlock hm hindex
    · change Function.update (s.opened s.currentFileIndex b).disk
        ((s.opened s.currentFileIndex b).file s.files.length).index _ i = _
      rw [hself, Function.update_of_ne hi]
      exact Function.update_of_ne hi _ _
    · have hlt := h.file_lt hl
      refine ⟨?_, fun b' _ hindex => absurd hindex (h.fileIndex_ne_of_lock hlock hl)⟩
      refine Eq.trans (List.getD_set_ne (by omega) _ _ _) (file_opened s hlt s.currentFileIndex b)

/-- What the journal has after an event was written behind the others of its file. -/
theorem Durable.append (h : s.Durable) (hs : s'.Sound) {b data : Bytes} {lives : List ℕ}
    (hl : l ∉ s.eventLocations) (hlocations : s'.eventLocations = s.eventLocations ++ [l])
    (htiling : EventFile.Tiling b 8 l.offset lives)
    (hmem : ∀ o, o ∈ lives ↔ ∃ m ∈ s.eventLocations, m.fileIndex = l.fileIndex ∧ m.offset = o)
    (hold : ∀ m ∈ s.eventLocations, m.fileIndex = l.fileIndex → s.disk m.fileIndex = some b ∧
      m.offset + m.size ≤ l.offset)
    (hle : l.offset ≤ b.length) (hlive : l.status.isLive = true) (hid : l.requestId ≠ [])
    (hdisk : s'.disk = Function.update s.disk l.fileIndex (some (b.overwrite l.offset data)))
    (hnext : (s'.file l.file).nextAppend = l.offset + l.size)
    (hother : ∀ m ∈ s.eventLocations, m.file ≠ l.file → s'.file m.file = s.file m.file)
    (hintact : AttachmentsWithin l.size (EventFile.attachmentOffsets (b.overwrite l.offset data)
      l.offset l.attachmentCount)) : s'.Durable := by
  have hmemAppend : ∀ m, m ∈ s'.eventLocations ↔ m ∈ s.eventLocations ∨ m = l := fun m => by
    rw [hlocations, List.mem_append, List.mem_singleton]
  have hself : l ∈ s'.eventLocations := (hmemAppend l).2 (.inr rfl)
  have hnew : s'.disk l.fileIndex = some (b.overwrite l.offset data) := by
    rw [hdisk, Function.update_self]
  have htake : (b.overwrite l.offset data).take l.offset = b.take l.offset :=
    List.take_overwrite_of_le le_rfl hle
  -- the events of the file, with the new one
  have hfull : EventFile.Tiling (b.overwrite l.offset data) 8 (l.offset + l.size)
      (lives ++ [l.offset]) := by
    obtain ⟨b', hb', -, -, hholds, -⟩ := hs.stored l hself
    rw [hnew] at hb'
    cases hb'
    have hsnoc := (htiling.of_take htake).snoc_live (hholds.written hid) (hholds.live_iff.2 hlive)
    rwa [hholds.size] at hsnoc
  refine { toSound := hs, tiled := ?_, cleared := ?_, intact := ?_ }
  · intro m hm
    by_cases hindex : m.fileIndex = l.fileIndex
    · have hfile : m.file = l.file := (hs.file_eq_iff hm hself).2 hindex
      rw [hindex, hfile, hnext]
      refine ⟨_, _, hnew, hfull, fun o => ?_⟩
      rw [List.mem_append, List.mem_singleton, hmem]
      constructor
      · rintro (⟨m', hm', hrest⟩ | rfl)
        · exact ⟨m', (hmemAppend m').2 (.inl hm'), hrest⟩
        · exact ⟨l, hself, rfl, rfl⟩
      · rintro ⟨m', hm', hindex', hoffset⟩
        rcases (hmemAppend m').1 hm' with hm' | rfl
        · exact .inl ⟨m', hm', hindex', hoffset⟩
        · exact .inr hoffset.symm
    · have hm' : m ∈ s.eventLocations := ((hmemAppend m).1 hm).resolve_right fun heq =>
        hindex (by rw [heq])
      have hfile : m.file ≠ l.file := fun heq => hindex ((hs.file_eq_iff hm hself).1 heq)
      obtain ⟨b', lives', hb', htiling', hmem'⟩ := h.tiled m hm'
      rw [hdisk, Function.update_of_ne hindex, hother m hm' hfile]
      refine ⟨b', lives', hb', htiling', fun o => (hmem' o).trans ?_⟩
      refine exists_congr fun m' => and_congr_left fun hm'' => ?_
      rw [hmemAppend]
      exact ⟨.inl, fun hor => hor.resolve_right fun heq => hindex (by rw [← hm''.1, heq])⟩
  · intro i b' hb' hne now
    have hi : i ≠ l.fileIndex := fun heq => hne l hself heq.symm
    rw [hdisk, Function.update_of_ne hi] at hb'
    exact h.cleared i b' hb' (fun m hm => hne m ((hmemAppend m).2 (.inl hm))) now
  · intro m hm b' hb'
    by_cases hindex : m.fileIndex = l.fileIndex
    · rw [hindex, hnew] at hb'
      cases hb'
      rcases (hmemAppend m).1 hm with hm' | rfl
      · obtain ⟨hb, hbelow⟩ := hold m hm' hindex
        obtain ⟨b', hb', -, -, hholds, -⟩ := h.stored m hm'
        have hprefix := hholds.prefixed
        rw [EventFile.attachmentOffsets_eq (n := m.size)
          (EventFile.slice_eq_of_take htake hbelow) (by omega)]
        exact h.intact m hm' b hb
      · exact hintact
    · have hm' : m ∈ s.eventLocations := ((hmemAppend m).1 hm).resolve_right fun heq =>
        hindex (by rw [heq])
      rw [hdisk, Function.update_of_ne hindex] at hb'
      exact h.intact m hm' b' hb'

/-- **The new event of `add_event()`.** -/
theorem Durable.writeNewEvent (h : s.Durable)
    (hcurrent : s.currentFileIndex < s.options.maximumNumberOfFiles) {s₁ : Journal}
    (ho : s.openFile s.currentFileIndex true = (some p, s₁)) {event : InEvent} {time : ℤ}
    (hroom : s₁.hasRoom p (s₁.eventSize event) = true)
    (hid : ∀ m ∈ s.eventLocations, m.requestId ≠ event.requestId)
    (hidNil : event.requestId ≠ []) (hidLen : event.requestId.length ≤ 255)
    (htime : ∀ m ∈ s.timebasedReplay, m.eventTime ≠ time) (hfits : Timespec.Fits time) :
    (s₁.writeNewEvent p event time).Durable := by
  obtain ⟨b₀, -, hready, hindex, hlocations, hreplay, -, hcur, -⟩ :=
    h.toSound.ready hcurrent ho
  obtain ⟨b, lives, hb, htiling, hmem, hother, hsame⟩ := h.ready ho
  have hsound := h.toSound.writeNewEvent hcurrent ho hroom hid hidLen htime hfits
  have hb₀ : b₀ = b := by
    have hdisk := hready.disk
    rw [hindex, hb] at hdisk
    exact (Option.some.inj hdisk).symm
  subst hb₀
  have hsize : (s₁.writeJournalHeader p).eventSize event = s₁.eventSize event := by
    rw [eventSize, eventSize, (s₁.writeJournalHeader_frame p).1]
  have hlt : s₁.eventSize event < 2 ^ 31 := by
    rw [hasRoom, decide_eq_true_eq] at hroom
    have := s₁.options.fileSize_mem.2
    omega
  have heq := s₁.writeNewEvent_eq p event time
  set l := (s₁.writeJournalHeader p).newLocation p event time with hl
  set s₃ := s₁.appended p event time with hs₃
  have hfileIndex : l.fileIndex = s.currentFileIndex := hcur
  have hoffset : l.offset = ((s₁.writeJournalHeader p).file p).nextAppend := rfl
  have hle : l.offset ≤ b₀.length := hready.append.2
  -- what is written before the location is entered
  have hself : s₃.file p = { (s₁.writeJournalHeader p).file p with
      eventCount := ((s₁.writeJournalHeader p).file p).eventCount + 1
      nextAppend := l.offset + s₁.eventSize event } := List.getD_set_self hready.made _ _
  have hne : ∀ q, q ≠ p → s₃.file q = (s₁.writeJournalHeader p).file q := fun q hq =>
    List.getD_set_ne hq _ _ _
  have hdisk : s₃.disk = Function.update s.disk l.fileIndex
      (some (b₀.overwrite l.offset (s₁.newBytes event time))) := by
    have hwritten : s₃.disk = Function.update (s₁.writeJournalHeader p).disk s.currentFileIndex
        (some (b₀.overwrite l.offset (s₁.newBytes event time))) := by
      change Function.update (s₁.writeJournalHeader p).disk
        ((s₁.writeJournalHeader p).file p).index
        (((s₁.writeJournalHeader p).disk ((s₁.writeJournalHeader p).file p).index).map fun b =>
          writeAt b l.offset (s₁.newBytes event time)) = _
      rw [hindex, hb, Option.map_some, writeAt_of_le _ hle]
    rw [hwritten, hfileIndex]
    funext i
    by_cases hi : i = s.currentFileIndex
    · rw [hi, Function.update_self, Function.update_self]
    · rw [Function.update_of_ne hi, Function.update_of_ne hi, hother i hi]
  have hlocations₃ : s₃.eventLocations = s.eventLocations := hlocations
  have hreplay₃ : s₃.timebasedReplay = s.timebasedReplay := hreplay
  have hinsert := insertLocation_eq (s := s₃) (l := l)
    (by rw [hlocations₃]; exact hid)
    (by rw [hreplay₃]; exact fun r hr heq => absurd heq (htime r hr))
  rw [hlocations₃] at hinsert
  rw [hinsert] at heq
  rw [heq] at hsound ⊢
  refine h.append hsound (l := l) (fun hmem' => hid l hmem' rfl) rfl
    (by rw [hoffset]; exact htiling) (by rw [hfileIndex]; exact hmem) ?_ hle rfl hidNil
    hdisk ?_ ?_ ?_
  · intro m hm hm'
    rw [hfileIndex] at hm'
    obtain ⟨b', hb', -⟩ := h.stored m hm
    obtain ⟨hfile, hbytes⟩ := hsame m hm
    have hbelow := h.below m hm
    have hmp : m.file = p := (hready.only m (by rw [hlocations]; exact hm)).2 (by rw [hindex, hm'])
    rw [← hfile, hmp] at hbelow
    rw [hb', hbytes b' hb' hm']
    exact ⟨rfl, hbelow⟩
  · change (s₃.file p).nextAppend = l.offset + (s₁.writeJournalHeader p).eventSize event
    rw [hself, hsize]
  · intro m hm hmp
    exact (hne m.file hmp).trans (hsame m hm).1
  · -- the table of the offsets is the one that was written
    have hprefix := prefix_drop_writeAt b₀ l.offset (s₁.newBytes event time)
    rw [writeAt_of_le _ hle] at hprefix
    have hcount : (s₁.placed event).1.length = event.attachments.length := length_placeAttachments ..
    have htotal : s₁.eventSize event = baseSize event +
        (inlined s₁.options.inlineAttachmentSizeThreshold event.attachments).length := rfl
    have hread := attachmentOffsets_new hprefix
      (placed_lt event.attachments (baseSize event) s₁.external (by omega))
    change AttachmentsWithin ((s₁.writeJournalHeader p).eventSize event)
      (EventFile.attachmentOffsets _ l.offset event.attachments.length)
    rw [hsize, ← hcount, hread]
    exact attachmentsWithin_placed event.attachments (baseSize event) s₁.external htotal hlt

/-! ### A new status -/

section Status

variable {b : Bytes} {lives : List ℕ} (status : Status)

/-- The files when the status of a live event is written. -/
theorem Durable.disk_status (h : s.Durable) (hl : l ∈ s.eventLocations) :
    ∃ b lives, s.disk l.fileIndex = some b ∧
      (s.write l.file (l.offset + 2) [status.code]).disk =
        Function.update s.disk l.fileIndex (some (b.overwrite (l.offset + 2) [status.code])) ∧
      EventFile.Tiling (b.overwrite (l.offset + 2) [status.code]) 8 (s.file l.file).nextAppend
        (if status.isLive then lives else lives.filter (· ≠ l.offset)) ∧
      (∀ o, o ∈ lives ↔ ∃ m ∈ s.eventLocations, m.fileIndex = l.fileIndex ∧ m.offset = o) ∧
      (s.file l.file).nextAppend ≤ (b.overwrite (l.offset + 2) [status.code]).length := by
  obtain ⟨b, lives, hb, htiling, hmem⟩ := h.tiled l hl
  obtain ⟨b', hb', -, hle, hholds, -⟩ := h.stored l hl
  rw [hb] at hb'
  cases hb'
  have hprefix := hholds.prefixed
  have hwithin := hholds.within
  have hlt : l.offset + 2 < b.length := by omega
  refine ⟨b, lives, hb, ?_, htiling.setStatus ((hmem _).2 ⟨l, hl, rfl, rfl⟩) hlt status, hmem, ?_⟩
  · change Function.update s.disk (s.file l.file).index
      ((s.disk (s.file l.file).index).map fun b => writeAt b (l.offset + 2) [status.code]) = _
    rw [h.index l hl, hb, Option.map_some, writeAt_of_le _ hlt.le]
  · rw [List.length_overwrite hlt.le]
    exact le_max_of_le_left hle

/-- The offsets of the attachments are not where a status is written. -/
theorem Durable.intact_status (h : s.Durable) (hl : l ∈ s.eventLocations)
    (hm : m ∈ s.eventLocations) {b : Bytes}
    (hb : (s.write l.file (l.offset + 2) [status.code]).disk m.fileIndex = some b) :
    AttachmentsWithin m.size (EventFile.attachmentOffsets b m.offset m.attachmentCount) := by
  obtain ⟨b₀, -, hb₀, hdisk, -⟩ := h.disk_status status hl
  by_cases hindex : m.fileIndex = l.fileIndex
  · rw [hdisk, hindex, Function.update_self] at hb
    cases hb
    obtain ⟨b₁, hb₁, -, -, hholds, -⟩ := h.stored m hm
    obtain ⟨b₂, hb₂, -, -, hholds', -⟩ := h.stored l hl
    rw [hindex, hb₀] at hb₁
    rw [hb₀] at hb₂
    cases hb₁
    cases hb₂
    have hprefix := hholds.prefixed
    have hprefix' := hholds'.prefixed
    have hwithin := hholds.within
    have hwithin' := hholds'.within
    have hoffsets : EventFile.attachmentOffsets (b₀.overwrite (l.offset + 2) [status.code]) m.offset
        m.attachmentCount = EventFile.attachmentOffsets b₀ m.offset m.attachmentCount := by
      refine List.map_congr_left fun i hi => congrArg ofBytes ?_
      have hlt := List.mem_range.1 hi
      refine List.slice_overwrite_of_disjoint (by rw [List.length_singleton]; omega) ?_
      rw [List.length_singleton]
      by_cases heq : m = l
      · rw [heq]
        omega
      · have := h.disjoint m hm l hl heq ((h.file_eq_iff hm hl).2 hindex)
        omega
    rw [hoffsets]
    exact h.intact m hm b₀ (by rw [hindex]; exact hb₀)
  · rw [hdisk, Function.update_of_ne hindex] at hb
    exact h.intact m hm b hb

/-- The event is still live. -/
theorem Durable.setStatus (h : s.Durable) (hl : l ∈ s.eventLocations) (hlive : status.isLive = true) :
    ((s.write l.file (l.offset + 2) [status.code]).setStatus l status).Durable := by
  have hsound := h.toSound.setStatus hl status
  obtain ⟨b, lives, hb, hdisk, htiling, hmem, -⟩ := h.disk_status status hl
  rw [if_pos hlive] at htiling
  set change := fun m : Location => if m = l then { l with status } else m with hchange
  have hkeep : ∀ m, (change m).file = m.file ∧ (change m).fileIndex = m.fileIndex ∧
      (change m).offset = m.offset ∧ (change m).size = m.size ∧
      (change m).attachmentCount = m.attachmentCount := by
    intro m
    rw [hchange]
    dsimp only
    split
    · next heq => subst heq; exact ⟨rfl, rfl, rfl, rfl, rfl⟩
    · exact ⟨rfl, rfl, rfl, rfl, rfl⟩
  have hlocations : ∀ m, m ∈ ((s.write l.file (l.offset + 2) [status.code]).setStatus l
      status).eventLocations ↔ ∃ m' ∈ s.eventLocations, change m' = m := fun m => List.mem_map
  have hplaces : ∀ i o, (∃ m ∈ s.eventLocations, m.fileIndex = i ∧ m.offset = o) ↔
      ∃ m ∈ ((s.write l.file (l.offset + 2) [status.code]).setStatus l status).eventLocations,
        m.fileIndex = i ∧ m.offset = o := by
    intro i o
    constructor
    · rintro ⟨m, hm, hi, ho⟩
      obtain ⟨-, hfileIndex, hoffset, -⟩ := hkeep m
      exact ⟨change m, (hlocations _).2 ⟨m, hm, rfl⟩, hfileIndex.trans hi, hoffset.trans ho⟩
    · rintro ⟨m', hm', hi, ho⟩
      obtain ⟨m, hm, rfl⟩ := (hlocations m').1 hm'
      obtain ⟨-, hfileIndex, hoffset, -⟩ := hkeep m
      exact ⟨m, hm, hfileIndex.symm.trans hi, hoffset.symm.trans ho⟩
  refine { toSound := hsound, tiled := ?_, cleared := ?_, intact := ?_ }
  · intro m' hm'
    obtain ⟨m, hm, rfl⟩ := (hlocations m').1 hm'
    obtain ⟨hfile, hfileIndex, -⟩ := hkeep m
    rw [hfile, hfileIndex]
    change ∃ b lives, (s.write l.file (l.offset + 2) [status.code]).disk m.fileIndex = some b ∧
      EventFile.Tiling b 8 (s.file m.file).nextAppend lives ∧ _
    rw [hdisk]
    by_cases hindex : m.fileIndex = l.fileIndex
    · have hml : m.file = l.file := (h.file_eq_iff hm hl).2 hindex
      rw [hindex, hml, Function.update_self]
      exact ⟨_, lives, rfl, htiling, fun o => (hmem o).trans (hplaces l.fileIndex o)⟩
    · obtain ⟨b', lives', hb', htiling', hmem'⟩ := h.tiled m hm
      rw [Function.update_of_ne hindex]
      exact ⟨b', lives', hb', htiling', fun o => (hmem' o).trans (hplaces m.fileIndex o)⟩
  · intro i b' hb' hne now
    have hnone : ∀ m ∈ s.eventLocations, m.fileIndex ≠ i := fun m hm hi =>
      hne (change m) ((hlocations _).2 ⟨m, hm, rfl⟩) ((hkeep m).2.1.trans hi)
    change (s.write l.file (l.offset + 2) [status.code]).disk i = some b' at hb'
    rw [hdisk, Function.update_of_ne (hnone l hl).symm] at hb'
    exact h.cleared i b' hb' hnone now
  · intro m' hm' b' hb'
    obtain ⟨m, hm, rfl⟩ := (hlocations m').1 hm'
    obtain ⟨-, hfileIndex, hoffset, hsize, hcount⟩ := hkeep m
    rw [hoffset, hsize, hcount]
    rw [hfileIndex] at hb'
    exact h.intact_status status hl hm hb'

/-- The journal before the object of the event goes away. -/
theorem Durable.erase (h : s.Durable) (hl : l ∈ s.eventLocations) (hdead : status.isLive = false)
    (hs : s' = (((s.write l.file (l.offset + 2) [status.code]).eraseReplay l).eraseLocation
      l.requestId).uncountEvent l.file) :
    s'.Tiled s'.eventLocations ∧ s'.Intact s'.eventLocations ∧
      (∀ i b, s'.disk i = some b → i ≠ l.fileIndex → (∀ m ∈ s'.eventLocations, m.fileIndex ≠ i) →
        ∀ now, EventFile.liveOffsets now b = []) ∧
      ((∀ m ∈ s'.eventLocations, m.fileIndex ≠ l.fileIndex) →
        ∃ b, s'.disk l.fileIndex = some b ∧ 8 ≤ (s'.file l.file).nextAppend ∧
          (s'.file l.file).nextAppend ≤ b.length ∧
          EventFile.Tiling b 8 (s'.file l.file).nextAppend []) := by
  obtain ⟨b, lives, hb, hdisk, htiling, hmem, hle⟩ := h.disk_status status hl
  rw [if_neg (by rw [hdead]; decide)] at htiling
  rw [h.toSound.eraseReplay_eq hl status] at hs
  have hdisk' : s'.disk = Function.update s.disk l.fileIndex
      (some (b.overwrite (l.offset + 2) [status.code])) := by
    rw [hs]
    exact hdisk
  have hlocations : ∀ m, m ∈ s'.eventLocations ↔ m ∈ s.eventLocations ∧ m ≠ l := by
    intro m
    rw [hs]
    change m ∈ s.eventLocations.filter (fun m => m.requestId ≠ l.requestId) ↔ _
    rw [List.mem_filter, decide_eq_true_iff]
    refine and_congr_right fun hm => not_congr ⟨fun heq => h.eq_of_requestId hm hl heq, fun heq => ?_⟩
    rw [heq]
  -- the place of the next event, unless the journal is empty
  have hself : (s'.file l.file).nextAppend =
      if s'.eventLocations.isEmpty then 8 else (s.file l.file).nextAppend := by
    rw [hs]
    exact congrArg JournalFile.nextAppend (List.getD_set_self (h.file_lt hl) _ _)
  have hother : ∀ q, q ≠ l.file → s'.file q = s.file q := by
    intro q hq
    rw [hs]
    exact List.getD_set_ne hq _ _ _
  have hlt := h.lt_nextAppend hl
  have hrest : ∀ i o, i = l.fileIndex →
      (o ∈ lives.filter (· ≠ l.offset) ↔ ∃ m ∈ s'.eventLocations, m.fileIndex = i ∧ m.offset = o) := by
    intro i o hi
    rw [List.mem_filter, hmem, decide_eq_true_iff]
    constructor
    · rintro ⟨⟨m, hm, hindex, rfl⟩, hne⟩
      exact ⟨m, (hlocations m).2 ⟨hm, fun heq => hne (by rw [heq])⟩, hindex.trans hi.symm, rfl⟩
    · rintro ⟨m, hm, hindex, rfl⟩
      obtain ⟨hm, hne⟩ := (hlocations m).1 hm
      exact ⟨⟨m, hm, hindex.trans hi, rfl⟩,
        fun heq => hne (h.eq_of_offset hm hl (hindex.trans hi) heq)⟩
  refine ⟨fun m hm => ?_, fun m hm b' hb' => ?_, fun i b' hb' hi hne now => ?_, fun hnone => ?_⟩
  · obtain ⟨hm', hne⟩ := (hlocations m).1 hm
    rw [hdisk']
    by_cases hindex : m.fileIndex = l.fileIndex
    · have hml : m.file = l.file := (h.file_eq_iff hm' hl).2 hindex
      have hnot : s'.eventLocations.isEmpty = false :=
        List.isEmpty_eq_false_iff_exists_mem.2 ⟨m, hm⟩
      rw [hml, hself, hnot, hindex, Function.update_self]
      exact ⟨_, _, rfl, htiling, fun o => hrest _ o rfl⟩
    · have hml : m.file ≠ l.file := fun heq => hindex ((h.file_eq_iff hm' hl).1 heq)
      obtain ⟨b', lives', hb', htiling', hmem'⟩ := h.tiled m hm'
      rw [hother _ hml, Function.update_of_ne hindex]
      refine ⟨b', lives', hb', htiling', fun o => (hmem' o).trans ?_⟩
      refine exists_congr fun m' => and_congr_left fun hm'' => ?_
      rw [hlocations]
      exact ⟨fun hmem => ⟨hmem, fun heq => hindex (by rw [← hm''.1, heq])⟩, fun hmem => hmem.1⟩
  · have hwrite : (s.write l.file (l.offset + 2) [status.code]).disk m.fileIndex = some b' := by
      rw [hdisk, ← hdisk']
      exact hb'
    exact h.intact_status status hl ((hlocations m).1 hm).1 hwrite
  · rw [hdisk', Function.update_of_ne hi] at hb'
    refine h.cleared i b' hb' (fun m hm heq => ?_) now
    by_cases hml : m = l
    · exact hi (by rw [← heq, hml])
    · exact hne m ((hlocations m).2 ⟨hm, hml⟩) heq
  · rw [hdisk', Function.update_self]
    have hnil : lives.filter (· ≠ l.offset) = [] := List.eq_nil_iff_forall_not_mem.2 fun o ho => by
      obtain ⟨m, hm, hindex, -⟩ := (hrest _ o rfl).1 ho
      exact hnone m hm hindex
    rw [hnil] at htiling
    refine ⟨_, rfl, ?_⟩
    rw [hself]
    split
    · exact ⟨le_rfl, by omega, .nil 8⟩
    · exact ⟨by omega, hle, htiling⟩

/-- **The status of an event is changed.** -/
theorem Durable.updateEventStatus (h : s.Durable) (requestId : Bytes) (status : Status) :
    (s.updateEventStatus requestId status).2.Durable := by
  have hsound := h.toSound.updateEventStatus requestId status
  unfold Journal.updateEventStatus at hsound ⊢
  cases hfind : s.eventLocations.find? fun l => l.requestId = requestId with
  | none => exact h
  | some l =>
    rw [hfind] at hsound
    have hl : l ∈ s.eventLocations := List.mem_of_find?_eq_some hfind
    have hid : l.requestId = requestId := by simpa using List.find?_some hfind
    dsimp only at hsound ⊢
    split
    · next hmay =>
      rw [if_pos hmay] at hsound
      split
      · next hlive => exact h.setStatus status hl hlive
      · next hdead =>
        rw [if_neg hdead] at hsound
        subst hid
        dsimp only at hsound ⊢
        set s₁ := (((s.write l.file (l.offset + 2) [status.code]).eraseReplay l).eraseLocation
          l.requestId).uncountEvent l.file with hs₁
        obtain ⟨htiled, hintact, hcleared, hclosed⟩ :=
          h.erase status hl (Bool.eq_false_iff.2 hdead) hs₁
        obtain ⟨hsound₁, hindex, hget⟩ := h.toSound.erase hl status
        rw [← hs₁] at hsound₁ hindex hget
        cases hopen : s₁.isOpen l.file with
        | true =>
          rw [drop_of_isOpen hopen] at hsound ⊢
          -- the file has another event
          obtain ⟨m, hm, hml⟩ := hsound₁.exists_of_isOpen hopen
          have hmi : m.fileIndex = l.fileIndex := by
            rw [← hsound₁.index m hm, hml]
            exact hindex
          exact ⟨hsound₁, htiled, fun i b hb hne => hcleared i b hb
            (fun hi => hne m hm (hmi.trans hi.symm)) hne, hintact⟩
        | false =>
          have hnone : ∀ m ∈ s₁.eventLocations, m.fileIndex ≠ l.fileIndex := by
            intro m hm heq
            have hfile := (hsound₁.linked m hm).2
            rw [heq, hget] at hfile
            rw [Option.some.inj hfile, isOpen_of_mem hm] at hopen
            cases hopen
          obtain ⟨b, hb, h8, hle, htiling⟩ := hclosed hnone
          rw [← hindex] at hb
          obtain ⟨d, hdisk, hends, -⟩ := truncate_closes hb h8 hle
          obtain ⟨f, _, -, heq⟩ := s₁.truncate_eq l.file
          rw [drop, if_neg (by rw [hopen]; decide)] at hsound ⊢
          have hlocations : (s₁.truncate l.file).eventLocations = s₁.eventLocations := by rw [heq]
          rw [hindex] at hdisk
          refine { toSound := hsound, tiled := ?_, cleared := ?_, intact := ?_ }
          · rw [hlocations]
            intro m hm
            have hml : m.file ≠ l.file := fun heq => by
              rw [← heq, isOpen_of_mem hm] at hopen
              cases hopen
            have hfile : (s₁.truncate l.file).file m.file = s₁.file m.file := by
              rw [heq]
              exact List.getD_set_ne hml _ _ _
            rw [hfile, hdisk, Function.update_of_ne (hnone m hm)]
            exact htiled m hm
          · rw [hlocations]
            intro i b' hb' hne now
            by_cases hi : i = l.fileIndex
            · rw [hdisk, hi, Function.update_self] at hb'
              exact (hends b' hb').liveOffsets htiling now
            · rw [hdisk, Function.update_of_ne hi] at hb'
              exact hcleared i b' hb' hi hne now
          · rw [hlocations]
            intro m hm b' hb'
            rw [hdisk, Function.update_of_ne (hnone m hm)] at hb'
            exact hintact m hm b' hb'
    · exact h

end Status

/-! ### Reading the files again -/

/-- What a client sees of an event does not change with its place. -/
theorem SameEvent.outEvent_eq (h : s.Durable) (hl : l ∈ s.eventLocations)
    (hm : (s'.file m.file).index = m.fileIndex) (hexternal : s'.external = s.external)
    (hsame : SameEvent s s' l m) : Replay.outEvent s' m = Replay.outEvent s l := by
  obtain ⟨heq, b, b', hb, hb', hslice⟩ := hsame
  have hindex : m.fileIndex = l.fileIndex := by rw [heq]
  obtain ⟨b₁, hb₁, -, -, hholds, -⟩ := h.stored l hl
  have hprefix := hholds.prefixed
  have hcontent := h.content_eq hl hb
  have hcontent' : s'.content m.file = b' := by rw [content, hm, hindex, hb', Option.getD_some]
  refine Journal.outEvent_eq heq hexternal (by rw [hcontent, hcontent']; exact hslice) (by omega) ?_
  rw [hcontent]
  exact h.intact l hl b hb

/-- **The files are read again**, compressed or not. -/
theorem Durable.loadEventLocations {now : ℤ} (h : s.Durable) (hs : s.Scannable now)
    (compress : Bool) : (s.loadEventLocations now compress).Durable ∧
      (s.loadEventLocations now compress).events = s.events := by
  obtain ⟨hsound, ⟨olds, hperm, hsame⟩, -, hexternal, -⟩ := h.toSound.loadEventLocations hs compress
  obtain ⟨htiled, -, hcleared⟩ := h.toSound.loadEventLocations_tiled hs h.cleared compress
  refine ⟨{ toSound := hsound, tiled := htiled, cleared := hcleared, intact := ?_ }, ?_⟩
  · intro m hm b' hb'
    obtain ⟨l, hl, heq, b, b'', hb, hb'', hslice⟩ := exists_of_mem_right hsame hm
    have hl := hperm.mem_iff.1 hl
    obtain ⟨b₁, -, -, -, hholds, -⟩ := h.stored l hl
    have hprefix := hholds.prefixed
    have hsize : m.size = l.size := by rw [heq]
    have hcount : m.attachmentCount = l.attachmentCount := by rw [heq]
    have hindex : m.fileIndex = l.fileIndex := by rw [heq]
    rw [hindex, hb''] at hb'
    cases hb'
    rw [hsize, hcount, EventFile.attachmentOffsets_eq hslice (by omega)]
    exact h.intact l hl b hb
  · ext e
    constructor
    · rintro ⟨m, hm, rfl⟩
      obtain ⟨l, hl, hlm⟩ := exists_of_mem_right hsame hm
      have hl := hperm.mem_iff.1 hl
      exact ⟨l, hl, (hlm.outEvent_eq h hl (hsound.index m hm) hexternal).symm⟩
    · rintro ⟨l, hl, rfl⟩
      obtain ⟨m, hm, hlm⟩ := exists_of_mem_left hsame (hperm.mem_iff.2 hl)
      exact ⟨m, hm, hlm.outEvent_eq h hl (hsound.index m hm) hexternal⟩

/-- Looking for room does not change a live event. -/
theorem Tried.outEvent_eq (ht : Tried s s') (h : s.Durable) (hl : l ∈ s.eventLocations) :
    s'.disk l.fileIndex = s.disk l.fileIndex ∧ Replay.outEvent s' l = Replay.outEvent s l := by
  obtain ⟨b, hb, -⟩ := h.stored l hl
  have hdisk := (ht.disk l.fileIndex).resolve_right fun hne => hne.1 l hl rfl
  exact ⟨hdisk, SameEvent.outEvent_eq h hl (ht.sound.index l (ht.eventLocations ▸ hl)) ht.external
    ⟨rfl, b, b, hb, hdisk.trans hb, rfl⟩⟩

theorem Tried.events (ht : Tried s s') (h : s.Durable) : s'.events = s.events := by
  ext e
  rw [Journal.events, Journal.events, ht.eventLocations]
  exact exists_congr fun l => and_congr_right fun hl => by rw [(ht.outEvent_eq h hl).2]

theorem Compressed.durable {now : ℤ} {s₀ : Journal} (hc : Compressed now s s₀) (h : s.Durable) :
    s₀.Durable ∧ s₀.events = s.events := by
  cases hc with
  | no => exact ⟨h, rfl⟩
  | once ht hs _ =>
    obtain ⟨hdurable, hevents⟩ := (h.tried ht).loadEventLocations hs true
    exact ⟨hdurable, hevents.trans (ht.events h)⟩

/-! ### Runs -/

theorem Durable.addEvent (h : s.Durable)
    (hcurrent : s.currentFileIndex < s.options.maximumNumberOfFiles) {now : ℤ} {event : InEvent}
    {eventTime : ℤ} (hsafe : EventCall.Safe s (.addEvent now event eventTime)) :
    (s.addEvent now event eventTime).2.Durable := by
  rcases h.toSound.addEvent_cases hcurrent hsafe with
    heq | ⟨hrefuses, s₀, hc, ⟨s', ht, heq⟩ | ⟨s', p, s₁, ht, hcurrent', ho, hroom, heq⟩⟩
  · rw [heq]
    exact h
  · rw [heq]
    exact (hc.durable h).1.tried ht
  · obtain ⟨hid, hidNil, hidLen⟩ := refuses_eq_false hrefuses
    obtain ⟨hid', htime'⟩ := hc.new h.toSound ht hid (s.savedTime_spec eventTime).1
    rw [heq]
    exact ((hc.durable h).1.tried ht).writeNewEvent hcurrent' ho hroom hid' hidNil hidLen htime'
      (fits_savedTime hsafe hrefuses)

/-- One call keeps the files in order. -/
theorem Durable.event (h : s.Durable)
    (hcurrent : s.currentFileIndex < s.options.maximumNumberOfFiles) {c : EventCall}
    (hsafe : c.Safe s) : (c.step s).Durable := by
  cases c with
  | addEvent now event eventTime => exact h.addEvent hcurrent hsafe
  | eventForwarded requestId => exact h.updateEventStatus requestId .forwarded
  | eventAcknowledged requestId => exact h.updateEventStatus requestId .acknowledged
  | eventCompleted requestId => exact h.updateEventStatus requestId .completed
  | eventFailed requestId => exact h.updateEventStatus requestId .failed

/-- A journal in an empty directory. -/
theorem durable_construct (options : JournalOptions) (external : ExternalFiles) (now : ℤ) :
    (construct options (fun _ => none) external now).Durable := by
  have hempty : Durable
      { options, eventFiles := List.replicate options.maximumNumberOfFiles none
        disk := fun _ => none, external } :=
    { toSound := sound_empty options external
      tiled := fun l hl => by cases hl
      cleared := fun i b hb => by cases hb
      intact := fun l hl => by cases hl }
  exact (hempty.loadEventLocations (fun _ _ b hb => by cases hb) false).1

/-- A sound journal whose files are in order and whose current index is in range. -/
structure Steady (s : Journal) : Prop extends Durable s where
  current : s.currentFileIndex < s.options.maximumNumberOfFiles

theorem Steady.event (h : s.Steady) {c : EventCall} (hsafe : c.Safe s) : (c.step s).Steady :=
  ⟨h.toDurable.event h.current hsafe, (Indexed.event ⟨h.toLinked, h.current⟩ c).current⟩

theorem steady_construct (options : JournalOptions) (external : ExternalFiles) (now : ℤ) :
    (construct options (fun _ => none) external now).Steady :=
  ⟨durable_construct options external now, (indexed_construct options _ external now).current⟩

end Journal

end Prinbee
