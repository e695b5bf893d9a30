import Prinbee.Journal.FileIndex
import Prinbee.Journal.Loading

/-!
# The index of a journal and its files

The journal keeps each live event in two maps, counts it in its file object and appends the next
one after it.  Adding an event, when a file has room for it, and changing its status keep the four
in step, and the bytes of the live events where the maps say they are.

## Main definitions

* `Journal.IndexConsistent` — the maps, the counters and the extents agree.
* `Journal.Sound` — and the files hold the events.
* `Journal.Scannable` — the live headers of the files are those of the live events.
* `Journal.Full` — no file has room for an event.

## Main results

* `Journal.Sound.tryFiles` — what the loop of `add_event()` over the files can do.
* `Journal.Sound.writeNewEvent`, `Journal.Sound.updateEventStatus` — the operations keep the
  invariant.
-/

namespace Prinbee

open UInt512 (ofBytes toBytes)

namespace Journal

/-- The two maps hold the same locations, one for each identifier and for each time; the counter
of an open file is the number of its events; the events of a file lie apart from each other and
before the place of the next one. -/
structure IndexConsistent (s : Journal) : Prop where
  locations : ∀ l, l ∈ s.eventLocations ↔ l ∈ s.timebasedReplay
  ids : (s.eventLocations.map (·.requestId)).Nodup
  times : (s.timebasedReplay.map (·.eventTime)).Nodup
  counts : ∀ p, s.isOpen p = true →
    (s.file p).eventCount = (s.eventLocations.filter (·.file = p)).length
  disjoint : ∀ l ∈ s.eventLocations, ∀ m ∈ s.eventLocations, l ≠ m → l.file = m.file →
    l.offset + l.size ≤ m.offset ∨ m.offset + m.size ≤ l.offset
  below : ∀ l ∈ s.eventLocations, l.offset + l.size ≤ (s.file l.file).nextAppend

/-- The live headers that the loader meets in a file are those of the live events. -/
def Scannable (s : Journal) (now : ℤ) : Prop :=
  ∀ index < s.options.maximumNumberOfFiles, ∀ b, s.disk index = some b →
    ∀ offset, offset ∈ EventFile.liveOffsets now b ↔
      ∃ l ∈ s.eventLocations, l.fileIndex = index ∧ l.offset = offset

/-- The index is consistent, and the files hold the events that it says. -/
structure Sound (s : Journal) : Prop extends Linked s, IndexConsistent s where
  index : ∀ l ∈ s.eventLocations, (s.file l.file).index = l.fileIndex
  stored : ∀ l ∈ s.eventLocations, ∃ b, s.disk l.fileIndex = some b ∧ EventFile.HasHeader b ∧
    (s.file l.file).nextAppend ≤ b.length ∧ Holds b l ∧ 8 ≤ l.offset

variable {s s' : Journal} {p : ℕ}

/-! ### Consequences -/

theorem Sound.exists_of_isOpen (h : s.Sound) (hp : s.isOpen p = true) :
    ∃ l ∈ s.eventLocations, l.file = p := by
  rcases isOpen_iff.1 hp with hl | ⟨l, hl, hlp⟩
  · exact hl
  · exact ⟨l, (h.locations l).2 hl, hlp⟩

theorem Sound.file_lt (h : s.Sound) {l : Location} (hl : l ∈ s.eventLocations) :
    l.file < s.files.length := h.fresh l.fileIndex l.file (h.linked l hl).2

/-- Two live events are in the same file object when they have the same index. -/
theorem Sound.file_eq_iff (h : s.Sound) {l m : Location} (hl : l ∈ s.eventLocations)
    (hm : m ∈ s.eventLocations) : l.file = m.file ↔ l.fileIndex = m.fileIndex := by
  constructor
  · intro heq
    rw [← h.index l hl, ← h.index m hm, heq]
  · intro heq
    have hget := (h.linked l hl).2
    rw [heq, (h.linked m hm).2] at hget
    exact (Option.some.inj hget).symm

theorem Sound.eq_of_requestId (h : s.Sound) {l m : Location} (hl : l ∈ s.eventLocations)
    (hm : m ∈ s.eventLocations) (heq : l.requestId = m.requestId) : l = m :=
  List.inj_on_of_nodup_map h.ids hl hm heq

theorem Sound.eq_of_eventTime (h : s.Sound) {l m : Location} (hl : l ∈ s.timebasedReplay)
    (hm : m ∈ s.timebasedReplay) (heq : l.eventTime = m.eventTime) : l = m :=
  List.inj_on_of_nodup_map h.times hl hm heq

/-- The order of the map by identifier does not matter. -/
theorem Sound.perm (h : s.Sound) {ls : List Location} (hperm : s.eventLocations.Perm ls) :
    Sound { s with eventLocations := ls } := by
  have hmem : ∀ l, l ∈ ls ↔ l ∈ s.eventLocations := fun l => hperm.symm.mem_iff
  have hopen : ∀ p, isOpen { s with eventLocations := ls } p = s.isOpen p := fun p => by
    rw [isOpen, isOpen, hperm.any_eq]
  refine { length := h.length, linked := ?_, fresh := h.fresh, inj := h.inj, locations := ?_,
           ids := ?_, times := h.times, counts := ?_, disjoint := ?_, below := ?_, index := ?_,
           stored := ?_ }
  · exact fun l hl => h.linked l ((hmem l).1 hl)
  · exact fun l => (hmem l).trans (h.locations l)
  · exact (hperm.map _).nodup_iff.1 h.ids
  · intro p hp
    rw [hopen] at hp
    exact (h.counts p hp).trans (hperm.filter _).length_eq
  · exact fun l hl m hm => h.disjoint l ((hmem l).1 hl) m ((hmem m).1 hm)
  · exact fun l hl => h.below l ((hmem l).1 hl)
  · exact fun l hl => h.index l ((hmem l).1 hl)
  · exact fun l hl => h.stored l ((hmem l).1 hl)

/-- What happens to an object and a file that no live event is in. -/
theorem Sound.aside (h : s.Sound) {index : ℕ} {d : Option Bytes} (hlinked : s'.Linked)
    (hlocations : s'.eventLocations = s.eventLocations)
    (hreplay : s'.timebasedReplay = s.timebasedReplay)
    (hfile : ∀ l ∈ s.eventLocations, s'.file l.file = s.file l.file)
    (hdisk : s'.disk = Function.update s.disk index d)
    (hindex : ∀ l ∈ s.eventLocations, l.fileIndex ≠ index) : s'.Sound := by
  have hopen : ∀ p, s'.isOpen p = s.isOpen p := fun p => by
    rw [isOpen, isOpen, hlocations, hreplay]
  refine { toLinked := hlinked, locations := ?_, ids := ?_, times := ?_, counts := ?_,
           disjoint := ?_, below := ?_, index := ?_, stored := ?_ }
  · rw [hlocations, hreplay]
    exact h.locations
  · rw [hlocations]
    exact h.ids
  · rw [hreplay]
    exact h.times
  · intro p hp
    rw [hopen] at hp
    obtain ⟨l, hl, rfl⟩ := h.exists_of_isOpen hp
    rw [hfile l hl, hlocations]
    exact h.counts _ hp
  · rw [hlocations]
    exact h.disjoint
  · rw [hlocations]
    exact fun l hl => by rw [hfile l hl]; exact h.below l hl
  · rw [hlocations]
    exact fun l hl => by rw [hfile l hl]; exact h.index l hl
  · rw [hlocations]
    intro l hl
    rw [hfile l hl, hdisk, Function.update_of_ne (hindex l hl)]
    exact h.stored l hl

/-! ### Looking for a file with room -/

theorem file_opened (s : Journal) {p : ℕ} (hp : p < s.files.length) (index : ℕ) (b : Bytes) :
    (s.opened index b).file p = s.file p := by
  rw [file, file, opened, List.getD_eq_getElem?_getD, List.getD_eq_getElem?_getD,
    List.getElem?_append_left hp]

theorem file_opened_self (s : Journal) (index : ℕ) (b : Bytes) :
    (s.opened index b).file s.files.length = { index } := by
  rw [file, opened, List.getD_eq_getElem?_getD, List.getElem?_concat_length, Option.getD_some]

theorem Sound.fileIndex_ne_of_lock (h : s.Sound) {index : ℕ} (hlock : s.lock index = none)
    {l : Location} (hl : l ∈ s.eventLocations) : l.fileIndex ≠ index := by
  rintro rfl
  rw [h.toLinked.lock hl] at hlock
  cases hlock

theorem Sound.opened (h : s.Sound) {index : ℕ} (hi : index < s.options.maximumNumberOfFiles)
    (hlock : s.lock index = none) (b : Bytes) : (s.opened index b).Sound :=
  h.aside (h.toLinked.opened hi hlock b).1.toLinked rfl rfl
    (fun _ hl => file_opened s (h.file_lt hl) index b) rfl fun _ => h.fileIndex_ne_of_lock hlock

/-- The object of a closed file goes away. -/
theorem Sound.drop_closed (h : s.Sound) (hp : s.isOpen p = false)
    (hindex : ∀ l ∈ s.eventLocations, l.fileIndex ≠ (s.file p).index) : (s.drop p).Sound := by
  have hlinked := (h.toLinked.drop p).toLinked
  rw [drop, if_neg (by rw [hp]; decide)] at hlinked ⊢
  obtain ⟨f, d, -, heq⟩ := s.truncate_eq p
  rw [heq] at hlinked ⊢
  refine h.aside hlinked rfl rfl (fun l hl => ?_) rfl hindex
  have hne : l.file ≠ p := by
    rintro rfl
    rw [isOpen_of_mem hl] at hp
    cases hp
  exact List.getD_set_ne hne _ _ _

/-- The file of an index has room: the open one, or a new one. -/
def roomAt (s : Journal) (index size : ℕ) : Bool :=
  match s.lock index with
  | some p => s.hasRoom p size
  | none => size < s.options.maximumFileSize

/-- No file has room for an event of that size. -/
def Full (s : Journal) (size : ℕ) : Prop :=
  ∀ index < s.options.maximumNumberOfFiles, s.roomAt index size = false

/-- `s'` is `s` after files without live events were opened and closed: none of them has a live
header that it did not have. -/
structure Tried (s s' : Journal) : Prop where
  sound : s'.Sound
  options : s'.options = s.options
  canBeCompressed : s'.canBeCompressed = s.canBeCompressed
  eventLocations : s'.eventLocations = s.eventLocations
  timebasedReplay : s'.timebasedReplay = s.timebasedReplay
  external : s'.external = s.external
  file : ∀ l ∈ s.eventLocations, s'.file l.file = s.file l.file
  lock : ∀ index, s'.lock index = s.lock index
  disk : ∀ index, s'.disk index = s.disk index ∨
    (∀ l ∈ s.eventLocations, l.fileIndex ≠ index) ∧
      ∀ b, s'.disk index = some b → ∀ now, EventFile.liveOffsets now b = []

theorem Tried.refl (h : s.Sound) : Tried s s :=
  ⟨h, rfl, rfl, rfl, rfl, rfl, fun _ _ => rfl, fun _ => rfl, fun _ => .inl rfl⟩

theorem Tried.trans {s'' : Journal} (h : Tried s s') (h' : Tried s' s'') : Tried s s'' where
  sound := h'.sound
  options := h'.options.trans h.options
  canBeCompressed := h'.canBeCompressed.trans h.canBeCompressed
  eventLocations := h'.eventLocations.trans h.eventLocations
  timebasedReplay := h'.timebasedReplay.trans h.timebasedReplay
  external := h'.external.trans h.external
  file l hl := (h'.file l (h.eventLocations ▸ hl)).trans (h.file l hl)
  lock index := (h'.lock index).trans (h.lock index)
  disk index := by
    have h₂ := h'.disk index
    rw [h.eventLocations] at h₂
    rcases h₂ with h₂ | h₂
    · rw [h₂]
      exact h.disk index
    · exact .inr h₂

theorem Tried.scannable (h : Tried s s') {now : ℤ} (hs : s.Scannable now) : s'.Scannable now := by
  intro index hi b hb offset
  rw [h.options] at hi
  rw [h.eventLocations]
  rcases h.disk index with hdisk | ⟨hne, hnone⟩
  · rw [hdisk] at hb
    exact hs index hi b hb offset
  · rw [hnone b hb now]
    refine iff_of_false List.not_mem_nil ?_
    rintro ⟨l, hl, hindex, -⟩
    exact hne l hl hindex

theorem Tried.hasRoom (h : Tried s s') (hs : s.Sound) {index : ℕ} (hlock : s.lock index = some p)
    (size : ℕ) : s'.hasRoom p size = s.hasRoom p size := by
  have hopen : s.isOpen p = true := by
    rw [Journal.lock, Option.filter_eq_some_iff] at hlock
    exact hlock.2
  obtain ⟨l, hl, rfl⟩ := hs.exists_of_isOpen hopen
  rw [Journal.hasRoom, Journal.hasRoom, h.file l hl, h.options]

theorem Tried.roomAt (h : Tried s s') (hs : s.Sound) (index size : ℕ) :
    s'.roomAt index size = s.roomAt index size := by
  rw [Journal.roomAt, Journal.roomAt, h.lock]
  cases hlock : s.lock index with
  | none =>
    dsimp only
    rw [h.options]
  | some p => exact h.hasRoom hs hlock size

theorem liveOffsets_of_length_le {b : Bytes} (h : b.length ≤ 8) (now : ℤ) :
    EventFile.liveOffsets now b = [] := by
  rw [EventFile.liveOffsets]
  split
  · cases b.length with
    | zero => rfl
    | succ n =>
      rw [EventFile.liveFrom, if_neg]
      intro hv
      have := hv.1
      omega
  · rfl

/-- What `truncate()` does to a file whose object is new. -/
theorem truncate_new {index : ℕ} (hf : s.file p = { index }) :
    (s.truncate p).disk index = s.disk index ∨
      ∀ b, (s.truncate p).disk index = some b → b.length ≤ 8 := by
  have hresize : ∀ b, (s.modify p (resizeFile · 8)).disk index = some b → b.length ≤ 8 := by
    intro b hb
    rw [modify, hf] at hb
    change Function.update s.disk index ((s.disk index).map (resizeFile · 8)) index = some b at hb
    rw [Function.update_self, Option.map_eq_some_iff] at hb
    obtain ⟨b', -, rfl⟩ := hb
    rw [resizeFile, List.length_append, List.length_take, List.length_replicate]
    omega
  unfold truncate
  rw [hf]
  dsimp only
  split
  · rw [if_neg (by simp)]
    exact .inl rfl
  · exact .inr hresize
  · rw [if_pos (by simp)]
    refine .inr fun b hb => ?_
    change Function.update s.disk index none index = some b at hb
    rw [Function.update_self] at hb
    cases hb

theorem isOpen_nextFile (s : Journal) : s.nextFile.isOpen = s.isOpen := rfl

theorem Sound.nextFile (h : s.Sound) : s.nextFile.Sound := ⟨⟨h.length, h.linked, h.fresh, h.inj⟩,
  ⟨h.locations, h.ids, h.times, h.counts, h.disjoint, h.below⟩, h.index, h.stored⟩

/-- The loop of `add_event()` goes on to the next file. -/
theorem Sound.retry (h : s.Sound) (hcurrent : s.currentFileIndex < s.options.maximumNumberOfFiles)
    {s₁ : Journal} (ho : s.openFile s.currentFileIndex true = (some p, s₁)) :
    Tried s (s₁.nextFile.drop p) ∧ (s₁.nextFile.drop p).currentFileIndex =
      (s.currentFileIndex + 1) % s.options.maximumNumberOfFiles := by
  have hnext : s.nextFile.currentFileIndex =
      (s.currentFileIndex + 1) % s.options.maximumNumberOfFiles := by
    change (if s.options.maximumNumberOfFiles ≤ s.currentFileIndex + 1 then 0
      else s.currentFileIndex + 1) = _
    split
    · rw [show s.currentFileIndex + 1 = s.options.maximumNumberOfFiles by omega, Nat.mod_self]
    · rw [Nat.mod_eq_of_lt (by omega)]
  obtain ⟨q, hlock, heq⟩ | ⟨-, -, hcreate, -⟩ | ⟨hlock, b, hb, heq⟩ :=
    s.openFile_cases s.currentFileIndex true
  · -- the file is open
    rw [heq] at ho
    cases ho
    rw [Journal.lock, Option.filter_eq_some_iff] at hlock
    rw [drop_of_isOpen (by rw [isOpen_nextFile]; exact hlock.2)]
    exact ⟨⟨h.nextFile, rfl, rfl, rfl, rfl, rfl, fun _ _ => rfl, fun _ => rfl, fun _ => .inl rfl⟩,
      hnext⟩
  · cases hcreate
  · -- an object is made for the file and goes away again
    rw [heq] at ho
    cases ho
    have hopened := h.opened hcurrent hlock b
    have hclosed : (s.opened s.currentFileIndex b).isOpen s.files.length = false := by
      rw [Bool.eq_false_iff]
      intro hopen
      obtain ⟨l, hl, hfile⟩ := hopened.exists_of_isOpen hopen
      exact absurd (h.file_lt hl) (by omega)
    have hself : (s.opened s.currentFileIndex b).nextFile.file s.files.length =
        { index := s.currentFileIndex } := file_opened_self s s.currentFileIndex b
    have hsound := hopened.nextFile.drop_closed hclosed fun l hl => by
      rw [hself]
      exact h.fileIndex_ne_of_lock hlock hl
    have hcase := truncate_new hself
    rw [drop, if_neg (by rw [isOpen_nextFile, hclosed]; decide)] at hsound ⊢
    obtain ⟨f, d, hf, htrunc⟩ :=
      (s.opened s.currentFileIndex b).nextFile.truncate_eq s.files.length
    rw [hself] at htrunc
    rw [htrunc] at hsound hcase ⊢
    refine ⟨⟨hsound, rfl, rfl, rfl, rfl, rfl, fun l hl => ?_, fun index => ?_, fun index => ?_⟩,
      hnext⟩
    · have hne : s.files.length ≠ l.file := by have := h.file_lt hl; omega
      change ((s.opened s.currentFileIndex b).files.set s.files.length f).getD l.file default = _
      rw [List.getD_set_ne hne.symm]
      exact file_opened s (h.file_lt hl) s.currentFileIndex b
    · change ((s.eventFiles.set s.currentFileIndex (some s.files.length)).getD index none).filter
        (s.opened s.currentFileIndex b).isOpen = s.lock index
      by_cases hindex : index = s.currentFileIndex
      · subst hindex
        have hlen : s.currentFileIndex < s.eventFiles.length := by rw [h.length]; exact hcurrent
        rw [List.getD_set_self hlen, Option.filter_some, if_neg (by rw [hclosed]; decide), hlock]
      · rw [List.getD_set_ne hindex]
        rfl
    · by_cases hindex : index = s.currentFileIndex
      · subst hindex
        change Function.update (Function.update s.disk s.currentFileIndex (some b))
          s.currentFileIndex d s.currentFileIndex = Function.update s.disk s.currentFileIndex
          (some b) s.currentFileIndex ∨ _ at hcase
        change Function.update (Function.update s.disk s.currentFileIndex (some b))
          s.currentFileIndex d s.currentFileIndex = _ ∨ _
        rcases hcase with hcase | hcase
        · rw [hcase, Function.update_self]
          rcases hb with hb | ⟨-, -, rfl⟩
          · exact .inl hb.symm
          · refine .inr ⟨fun l hl => h.fileIndex_ne_of_lock hlock hl, fun b' hb' now => ?_⟩
            change Function.update (Function.update s.disk s.currentFileIndex (some []))
              s.currentFileIndex d s.currentFileIndex = some b' at hb'
            rw [hcase, Function.update_self] at hb'
            cases Option.some.inj hb'
            exact liveOffsets_of_length_le (by decide) now
        · exact .inr ⟨fun l hl => h.fileIndex_ne_of_lock hlock hl,
            fun b' hb' now => liveOffsets_of_length_le (hcase b' hb') now⟩
      · left
        change Function.update (Function.update s.disk s.currentFileIndex (some b))
          s.currentFileIndex d index = _
        rw [Function.update_of_ne hindex, Function.update_of_ne hindex]

/-! ### A new event -/

theorem length_offsets (offsets : List ℕ) :
    (offsets.flatMap (toBytes 4)).length = 4 * offsets.length := by
  induction offsets with
  | nil => rfl
  | cons o os ih =>
    rw [List.flatMap_cons, List.length_append, ih, UInt512.length_toBytes, List.length_cons]
    omega

theorem length_eventBytes (event : InEvent) (size : ℕ) (time : ℤ) {offsets : List ℕ} (data : Bytes)
    (ho : offsets.length = event.attachments.length) :
    (eventBytes event size time offsets data).length = baseSize event + data.length := by
  rw [eventBytes, List.length_append, List.length_append, List.length_append, length_eventHeader,
    length_offsets, ho, baseSize]
  omega

theorem length_placeAttachments (threshold : ℕ) (as : List Bytes) (size : ℕ)
    (external : ExternalFiles) :
    (placeAttachments threshold as size external).1.length = as.length := by
  induction as generalizing size external with
  | nil => rfl
  | cons a as ih =>
    rw [placeAttachments]
    split
    · exact congrArg (· + 1) (ih _ _)
    · exact congrArg (· + 1) (ih _ _)

/-- A new event is read back. -/
theorem holds_new {b : Bytes} {event : InEvent} {l : Location} {offsets : List ℕ} {data : Bytes}
    (ho : offsets.length = event.attachments.length) (hid : l.requestId = event.requestId)
    (hidLen : event.requestId.length ≤ 255) (hstatus : l.status = .ready)
    (hcount : l.attachmentCount = event.attachments.length)
    (hsize : l.size = baseSize event + data.length) (hlt : l.size < 2 ^ 32)
    (htime : Timespec.Fits l.eventTime) (hb : l.offset ≤ b.length) :
    Holds (b.overwrite l.offset (eventBytes event l.size l.eventTime offsets data)) l := by
  have hlen := length_eventBytes event l.size l.eventTime data ho
  rw [← hsize] at hlen
  have hslice : (b.overwrite l.offset (eventBytes event l.size l.eventTime offsets data)).slice
      l.offset l.size = (eventBytes event l.size l.eventTime offsets data).slice 0 l.size := by
    rw [List.slice_overwrite_start hb (by omega), List.slice, List.drop_zero]
  have hbase : 32 ≤ l.size := by rw [hsize, baseSize]; omega
  have hsame := EventFile.sameHeader hslice hbase
  have hcount' : event.attachments.length < 256 := by have := event.count_le; omega
  have hcountRead : EventFile.attachmentCount
      (eventBytes event l.size l.eventTime offsets data) 0 = event.attachments.length :=
    EventFile.attachmentCount_eventHeader _ hcount'
  have hidRead : EventFile.requestIdSize
      (eventBytes event l.size l.eventTime offsets data) 0 = event.requestId.length :=
    EventFile.requestIdSize_eventHeader _ (by omega)
  have hrequestId : EventFile.requestId (eventBytes event l.size l.eventTime offsets data) 0 =
      event.requestId := by
    have hmiddle := List.slice_append_middle
      (eventHeader .ready event.requestId.length l.size l.eventTime event.attachments.length ++
        offsets.flatMap (toBytes 4)) event.requestId data
    have hflat : (eventHeader .ready event.requestId.length l.size l.eventTime
        event.attachments.length ++ offsets.flatMap (toBytes 4)).length =
        0 + 32 + 4 * event.attachments.length := by
      rw [List.length_append, length_eventHeader, length_offsets, ho]
    rw [hflat, List.append_assoc] at hmiddle
    rw [EventFile.requestId, hcountRead, hidRead]
    exact hmiddle
  exact
    { within := by rw [List.length_overwrite hb]; omega
      magic₀ := hsame.magic₀
      magic₁ := hsame.magic₁
      status := by rw [hsame.status, hstatus]; rfl
      requestIdSize := by rw [hsame.requestIdSize, hidRead, hid]
      size := hsame.size.trans (EventFile.size_eventHeader _ hlt)
      time := hsame.time.trans (EventFile.time_eventHeader _ htime)
      attachmentCount := by rw [hsame.attachmentCount, hcountRead, hcount]
      requestId := by
        rw [hsame.requestId hslice, hrequestId, hid]
        rw [hsame.prefixSize, EventFile.prefixSize, hcountRead, hidRead, hsize, baseSize]
        omega
      prefixed := by rw [hcount, hid, hsize, baseSize]; omega }

/-- The loop finds a time that no event has, after at most one step for each event. -/
theorem uniqueTime_spec (replay : List Location) (fuel : ℕ) (t : ℤ)
    (h : (replay.filter fun r => t ≤ r.eventTime).length ≤ fuel) :
    (∀ r ∈ replay, r.eventTime ≠ uniqueTime replay fuel t) ∧
      t ≤ uniqueTime replay fuel t ∧ uniqueTime replay fuel t ≤ t + fuel := by
  induction fuel generalizing t with
  | zero =>
    have hnil := List.filter_eq_nil_iff.1 (List.length_eq_zero_iff.1 (Nat.le_zero.1 h))
    refine ⟨fun r hr heq => ?_, le_rfl, by rw [uniqueTime]; omega⟩
    rw [uniqueTime] at heq
    exact hnil r hr (decide_eq_true heq.ge)
  | succ fuel ih =>
    rw [uniqueTime]
    split
    · next hany =>
      obtain ⟨r, hr, heq⟩ := List.any_eq_true.1 hany
      have heq' : r.eventTime = t := of_decide_eq_true heq
      -- the event with this time is not later than it
      have hlt : (replay.filter fun r => t + 1 ≤ r.eventTime).length <
          (replay.filter fun r => t ≤ r.eventTime).length := by
        have hsub : (replay.filter fun r => t + 1 ≤ r.eventTime) =
            (replay.filter fun r => t ≤ r.eventTime).filter fun r => t + 1 ≤ r.eventTime := by
          rw [List.filter_filter]
          refine List.filter_congr fun x _ => ?_
          rw [Bool.eq_iff_iff, Bool.and_eq_true, decide_eq_true_iff, decide_eq_true_iff]
          omega
        rw [hsub]
        refine List.length_filter_lt_length_iff_exists.2 ⟨r, ?_, ?_⟩
        · exact List.mem_filter.2 ⟨hr, decide_eq_true heq'.ge⟩
        · rw [decide_eq_true_iff]
          omega
      obtain ⟨hne, hle, hub⟩ := ih (t + 1) (by omega)
      exact ⟨hne, by omega, by push_cast; omega⟩
    · next hany =>
      refine ⟨fun r hr heq => hany (List.any_eq_true.2 ⟨r, hr, decide_eq_true heq⟩), le_rfl, ?_⟩
      push_cast
      omega

/-- The time under which an event is saved is new. -/
theorem savedTime_spec (s : Journal) (t : ℤ) :
    (∀ r ∈ s.timebasedReplay, r.eventTime ≠ s.savedTime t) ∧
      t ≤ s.savedTime t ∧ s.savedTime t ≤ t + s.timebasedReplay.length :=
  uniqueTime_spec s.timebasedReplay _ t (List.length_filter_le _ _)

/-- The loop over the files finds one with room, or there is none. -/
theorem Sound.tryFiles (h : s.Sound)
    (hcurrent : s.currentFileIndex < s.options.maximumNumberOfFiles) (event : InEvent) (time : ℤ)
    (count : ℕ) :
    (∃ s', tryFiles event time count s = (.ok none, s') ∧ Tried s s' ∧
      s'.currentFileIndex < s'.options.maximumNumberOfFiles ∧
      ∀ j < count, s.roomAt ((s.currentFileIndex + j) % s.options.maximumNumberOfFiles)
        (s.eventSize event) = false) ∨
    (∃ s' p s₁, Tried s s' ∧ s'.currentFileIndex < s'.options.maximumNumberOfFiles ∧
      s'.openFile s'.currentFileIndex true = (some p, s₁) ∧
      s₁.hasRoom p (s₁.eventSize event) = true ∧
      Journal.tryFiles event time count s = (.ok (some true), s₁.writeNewEvent p event time)) := by
  induction count generalizing s with
  | zero => exact .inl ⟨s, rfl, .refl h, hcurrent, fun j hj => by omega⟩
  | succ count ih =>
    have hunfold : ∀ p s₁, s.openFile s.currentFileIndex true = (some p, s₁) →
        Journal.tryFiles event time (count + 1) s =
          if s₁.hasRoom p (s₁.eventSize event) then
            (.ok (some true), s₁.writeNewEvent p event time)
          else Journal.tryFiles event time count (s₁.nextFile.drop p) := by
      intro p s₁ ho
      rw [Journal.tryFiles, getEventFile, if_neg (by omega), ho]
    -- `true`: the file is created
    have hopened : ∃ p s₁, s.openFile s.currentFileIndex true = (some p, s₁) ∧
        s₁.hasRoom p (s₁.eventSize event) =
          s.roomAt s.currentFileIndex (s.eventSize event) := by
      obtain ⟨p, hlock, heq⟩ | ⟨-, -, hcreate, -⟩ | ⟨hlock, b, -, heq⟩ :=
        s.openFile_cases s.currentFileIndex true
      · exact ⟨p, s, heq, by rw [roomAt, hlock]⟩
      · cases hcreate
      · refine ⟨_, _, heq, ?_⟩
        have hevents := s.options.events_mem.1
        rw [roomAt, hlock, hasRoom, file_opened_self]
        change decide (0 + s.eventSize event < s.options.maximumFileSize ∧
          0 < s.options.maximumEvents) = decide (s.eventSize event < s.options.maximumFileSize)
        rw [Nat.zero_add, Bool.eq_iff_iff, decide_eq_true_iff, decide_eq_true_iff]
        omega
    obtain ⟨p, s₁, ho, hroom⟩ := hopened
    rw [hunfold p s₁ ho]
    split
    · next htrue => exact .inr ⟨s, p, s₁, .refl h, hcurrent, ho, htrue, rfl⟩
    · next hfalse =>
      obtain ⟨htried, hindex⟩ := h.retry hcurrent ho
      have hmax : 0 < s.options.maximumNumberOfFiles := by omega
      have hcurrent' : (s₁.nextFile.drop p).currentFileIndex <
          (s₁.nextFile.drop p).options.maximumNumberOfFiles := by
        rw [hindex, htried.options]
        exact Nat.mod_lt _ hmax
      have hsize : (s₁.nextFile.drop p).eventSize event = s.eventSize event := by
        rw [eventSize, eventSize, htried.options]
      rcases ih htried.sound hcurrent' with
        ⟨s', heq, htried', hcur', hfull⟩ | ⟨s', q, s₂, htried', hcur', ho', hroom', heq⟩
      · refine .inl ⟨s', heq, htried.trans htried', hcur', fun j hj => ?_⟩
        cases j with
        | zero =>
          rw [Nat.add_zero, Nat.mod_eq_of_lt hcurrent, ← hroom]
          exact Bool.eq_false_iff.2 hfalse
        | succ j =>
          have hj' := hfull j (by omega)
          rwa [htried.roomAt h, hindex, htried.options, hsize, Nat.mod_add_mod, Nat.add_assoc,
            Nat.add_comm 1 j] at hj'
      · exact .inr ⟨s', q, s₂, htried.trans htried', hcur', ho', hroom', heq⟩

/-- The loop over all the files. -/
theorem full_of_roomAt
    (hcurrent : s.currentFileIndex < s.options.maximumNumberOfFiles) {size : ℕ}
    (hroom : ∀ j < s.options.maximumNumberOfFiles,
      s.roomAt ((s.currentFileIndex + j) % s.options.maximumNumberOfFiles) size = false) :
    s.Full size := by
  intro index hi
  have hmax : 0 < s.options.maximumNumberOfFiles := by omega
  -- how far the index is from the current one
  have hj := hroom ((index + s.options.maximumNumberOfFiles - s.currentFileIndex) %
    s.options.maximumNumberOfFiles) (Nat.mod_lt _ hmax)
  rwa [Nat.add_mod_mod, show s.currentFileIndex +
    (index + s.options.maximumNumberOfFiles - s.currentFileIndex) =
    index + s.options.maximumNumberOfFiles by omega, Nat.add_mod_right,
    Nat.mod_eq_of_lt hi] at hj

/-- The object `p` can append an event to its file, which has the bytes `b`. -/
structure Ready (s : Journal) (p : ℕ) (b : Bytes) : Prop where
  made : p < s.files.length
  disk : s.disk (s.file p).index = some b
  header : EventFile.HasHeader b
  append : 8 ≤ (s.file p).nextAppend ∧ (s.file p).nextAppend ≤ b.length
  count : (s.file p).eventCount = (s.eventLocations.filter (·.file = p)).length
  only : ∀ l ∈ s.eventLocations, l.file = p ↔ l.fileIndex = (s.file p).index

theorem hasHeader_overwrite_zero (b : Bytes) :
    EventFile.HasHeader (b.overwrite 0 journalHeader) := by
  refine ⟨?_, ?_⟩
  · rw [List.length_overwrite (by omega)]
    exact le_max_of_le_right (by decide)
  · rw [List.overwrite, List.take_zero, List.nil_append,
      List.take_append_of_le_length (by decide)]

theorem hasHeader_overwrite {b : Bytes} {offset : ℕ} (h : EventFile.HasHeader b) (data : Bytes)
    (hle : 8 ≤ offset) (hb : offset ≤ b.length) : EventFile.HasHeader (b.overwrite offset data) := by
  refine ⟨?_, ?_⟩
  · rw [List.length_overwrite hb]
    exact le_max_of_le_left h.1
  · rw [List.take_overwrite_of_le (by omega) hb, h.2]

/-- A file that was opened to append an event. -/
theorem Sound.ready (h : s.Sound) (hcurrent : s.currentFileIndex < s.options.maximumNumberOfFiles)
    {s₁ : Journal} (ho : s.openFile s.currentFileIndex true = (some p, s₁)) :
    ∃ b, (s₁.writeJournalHeader p).Sound ∧ Ready (s₁.writeJournalHeader p) p b ∧
      ((s₁.writeJournalHeader p).file p).index = s.currentFileIndex ∧
      (s₁.writeJournalHeader p).eventLocations = s.eventLocations ∧
      (s₁.writeJournalHeader p).timebasedReplay = s.timebasedReplay ∧
      (s₁.writeJournalHeader p).options = s.options ∧
      (s₁.writeJournalHeader p).currentFileIndex = s.currentFileIndex ∧
      (s₁.writeJournalHeader p).eventFiles.getD s.currentFileIndex none = some p := by
  have hget := (h.toLinked.openFile hcurrent true).2.2 p (by rw [ho])
  rw [ho] at hget
  obtain ⟨q, hlock, heq⟩ | ⟨-, -, hcreate, -⟩ | ⟨hlock, b, -, heq⟩ :=
    s.openFile_cases s.currentFileIndex true
  · -- there is an event in the file already
    rw [heq] at ho
    cases ho
    have hopen : s.isOpen p = true := by
      rw [Journal.lock, Option.filter_eq_some_iff] at hlock
      exact hlock.2
    obtain ⟨l, hl, rfl⟩ := h.exists_of_isOpen hopen
    obtain ⟨b, hb, hheader, hle, -, hoffset⟩ := h.stored l hl
    have hbelow := h.below l hl
    have hindex : l.fileIndex = s.currentFileIndex := h.inj _ _ _ (h.linked l hl).2 hget
    rw [writeJournalHeader, if_neg (by omega)]
    refine ⟨b, h, ⟨h.file_lt hl, ?_, hheader, ⟨by omega, hle⟩, h.counts _ hopen, fun m hm => ?_⟩,
      (h.index l hl).trans hindex, rfl, rfl, rfl, rfl, hget⟩
    · rw [h.index l hl]
      exact hb
    · rw [h.index l hl]
      exact h.file_eq_iff hm hl
  · cases hcreate
  · -- the file is empty, or its events are dead
    rw [heq] at ho
    cases ho
    have hself := file_opened_self s s.currentFileIndex b
    have hfiles : s.files.length < (s.opened s.currentFileIndex b).files.length := by
      rw [Journal.opened, List.length_append, List.length_singleton]
      omega
    have hsound := h.opened hcurrent hlock b
    have hne : ∀ l ∈ s.eventLocations, l.file ≠ s.files.length := fun l hl => by
      have := h.file_lt hl
      omega
    set s₂ := (s.opened s.currentFileIndex b).writeJournalHeader s.files.length with hs₂
    have hfile : s₂.file s.files.length =
        { index := s.currentFileIndex, eventCount := 0, nextAppend := 8 } := by
      rw [hs₂, writeJournalHeader, hself, if_pos rfl, file, setFile, List.getD_eq_getElem?_getD]
      exact congrArg (·.getD default) (List.getElem?_set_self hfiles)
    have hdisk : s₂.disk = Function.update s.disk s.currentFileIndex
        (some (b.overwrite 0 journalHeader)) := by
      rw [hs₂, writeJournalHeader, hself, if_pos rfl]
      change Function.update (s.opened s.currentFileIndex b).disk
        ((s.opened s.currentFileIndex b).file s.files.length).index _ = _
      rw [hself, Journal.opened]
      simp only [Function.update_self, Function.update_idem, Option.map_some,
        writeAt_of_le journalHeader (Nat.zero_le _)]
    have hmaps : s₂.eventLocations = s.eventLocations ∧ s₂.timebasedReplay = s.timebasedReplay ∧
        s₂.options = s.options ∧ s₂.currentFileIndex = s.currentFileIndex ∧
        s₂.eventFiles = (s.opened s.currentFileIndex b).eventFiles ∧
        s₂.files.length = (s.opened s.currentFileIndex b).files.length := by
      rw [hs₂, writeJournalHeader, hself, if_pos rfl]
      exact ⟨rfl, rfl, rfl, rfl, rfl, List.length_set ..⟩
    obtain ⟨hlocations, hreplay, hoptions, hcur, heventFiles, hlength⟩ := hmaps
    have hlinked : s₂.Linked := (hsound.toLinked.like hoptions hcur heventFiles hlength
      (by rw [hlocations]; exact hsound.linked)).toLinked
    have hsound₂ : s₂.Sound := by
      refine h.aside hlinked hlocations hreplay (fun l hl => ?_) hdisk
        fun l hl => h.fileIndex_ne_of_lock hlock hl
      have hother : s₂.file l.file = (s.opened s.currentFileIndex b).file l.file := by
        rw [hs₂, writeJournalHeader, hself, if_pos rfl]
        exact List.getD_set_ne (hne l hl) _ _ _
      rw [hother, file_opened s (h.file_lt hl)]
    refine ⟨b.overwrite 0 journalHeader, hsound₂, ⟨by omega, ?_, hasHeader_overwrite_zero b, ?_, ?_,
      fun l hl => ?_⟩, by rw [hfile], hlocations, hreplay, hoptions, hcur, ?_⟩
    · rw [hfile, hdisk, Function.update_self]
    · rw [hfile]
      exact ⟨le_rfl, (hasHeader_overwrite_zero b).1⟩
    · rw [hfile, hlocations, List.filter_eq_nil_iff.2 fun l hl => by simpa using hne l hl]
      rfl
    · rw [hlocations] at hl
      rw [hfile]
      exact iff_of_false (hne l hl) (h.fileIndex_ne_of_lock hlock hl)
    · rw [heventFiles]
      exact hget

/-- A key that no location has. -/
theorem nodup_map_append {β : Type} {key : Location → β} {ls : List Location} {l : Location}
    (h : (ls.map key).Nodup) (hl : ∀ m ∈ ls, key m ≠ key l) : ((ls ++ [l]).map key).Nodup := by
  rw [List.map_append, List.map_singleton]
  refine List.nodup_append.2 ⟨h, List.nodup_singleton _, ?_⟩
  rintro x hx y hy rfl
  obtain ⟨m, hm, heq⟩ := List.mem_map.1 hx
  exact hl m hm (heq.trans (List.mem_singleton.1 hy))

/-- An event is written at the end of the events of a file. -/
theorem Sound.append {b data : Bytes} {l : Location} (h : s.Sound) (hr : Ready s p b)
    (hfile : l.file = p) (hindex : l.fileIndex = (s.file p).index)
    (hoffset : l.offset = (s.file p).nextAppend) (hlen : data.length = l.size)
    (hholds : Holds (b.overwrite l.offset data) l)
    (hid : ∀ m ∈ s.eventLocations, m.requestId ≠ l.requestId)
    (htime : ∀ m ∈ s.timebasedReplay, m.eventTime ≠ l.eventTime)
    (hget : s.eventFiles.getD l.fileIndex none = some p)
    (hmax : l.fileIndex < s.options.maximumNumberOfFiles) (external : ExternalFiles) :
    Sound ((({ s with external }.write p l.offset data).countEvent p (l.offset + l.size)).insertLocation
      l) := by
  subst hfile
  obtain ⟨happend, hle⟩ := hr.append
  have hsize : 32 ≤ l.size := by have := hholds.prefixed; omega
  -- the journal without the new location
  set s₁ := ({ s with external }.write l.file l.offset data).countEvent l.file (l.offset + l.size)
    with hs₁
  have hself : s₁.file l.file = { s.file l.file with
      eventCount := (s.file l.file).eventCount + 1, nextAppend := l.offset + l.size } :=
    List.getD_set_self hr.made _ _
  have hother : ∀ q, q ≠ l.file → s₁.file q = s.file q := fun q hq => List.getD_set_ne hq _ _ _
  have hdisk : s₁.disk = Function.update s.disk l.fileIndex
      (some (b.overwrite l.offset data)) := by
    change Function.update s.disk (s.file l.file).index
      ((s.disk (s.file l.file).index).map fun b => writeAt b l.offset data) = _
    rw [hr.disk, ← hindex, Option.map_some, writeAt_of_le data (by omega)]
  have hkept : (s.timebasedReplay.filter fun r => r.eventTime ≠ l.eventTime) = s.timebasedReplay :=
    List.filter_eq_self.2 fun m hm => by simpa using htime m hm
  have heq : s₁.insertLocation l = { s₁ with
      eventLocations := s.eventLocations ++ [l]
      timebasedReplay := s.timebasedReplay ++ [l] } := by
    have hinsert := insertLocation_eq (s := s₁) (l := l) hid fun r hr heq => absurd heq (htime r hr)
    rw [hinsert]
    change ({ s₁ with
      eventLocations := s.eventLocations ++ [l]
      timebasedReplay := (s.timebasedReplay.filter fun r => r.eventTime ≠ l.eventTime) ++ [l] }
        : Journal) = _
    rw [hkept]
  have hlinked : (s₁.insertLocation l).Linked := by
    have hexternal : LinkedLike s { s with external } :=
      h.toLinked.like rfl rfl rfl rfl h.linked
    have hwrite := hexternal.trans (hexternal.toLinked.modify l.file fun b => writeAt b l.offset data)
    have hcount := hwrite.trans (hwrite.toLinked.countEvent l.file (l.offset + l.size))
    exact (hcount.toLinked.insertLocation hmax hget).1.toLinked
  have hsum : l.offset + l.size ≤ (b.overwrite l.offset data).length := hholds.within
  -- what `s₁` has for the events that were there
  have hold : ∀ m ∈ s.eventLocations, (s₁.file m.file).index = m.fileIndex ∧
      m.offset + m.size ≤ (s₁.file m.file).nextAppend ∧
      ∃ b, s₁.disk m.fileIndex = some b ∧ EventFile.HasHeader b ∧
        (s₁.file m.file).nextAppend ≤ b.length ∧ Holds b m ∧ 8 ≤ m.offset := by
    intro m hm
    have hbelow := h.below m hm
    obtain ⟨b', hb', hheader', hle', hholds', hoffset'⟩ := h.stored m hm
    by_cases hmp : m.file = l.file
    · have hmi : m.fileIndex = (s.file l.file).index := (hr.only m hm).1 hmp
      rw [hmi, hr.disk] at hb'
      cases Option.some.inj hb'
      rw [hmp] at hbelow
      rw [hmp, hself, hdisk, hmi, ← hindex, Function.update_self]
      refine ⟨rfl, ?_, _, rfl, hasHeader_overwrite hr.header data (by omega) (by omega), hsum, ?_,
        hoffset'⟩
      · change m.offset + m.size ≤ l.offset + l.size
        omega
      · exact hholds'.of_slice (List.slice_overwrite_of_le (by omega) (by omega))
          (by rw [List.length_overwrite (by omega)]; exact le_max_of_le_left hholds'.within) m.file
    · have hne : m.fileIndex ≠ l.fileIndex := fun heq =>
        hmp ((hr.only m hm).2 (heq.trans hindex))
      rw [hother _ hmp, hdisk, Function.update_of_ne hne]
      exact ⟨h.index m hm, hbelow, b', hb', hheader', hle', hholds', hoffset'⟩
  rw [heq] at hlinked ⊢
  have hmem : ∀ m, m ∈ s.eventLocations ++ [l] ↔ m ∈ s.eventLocations ∨ m = l := fun m => by
    rw [List.mem_append, List.mem_singleton]
  refine { toLinked := hlinked, locations := ?_, ids := ?_, times := ?_, counts := ?_,
           disjoint := ?_, below := ?_, index := ?_, stored := ?_ }
  · intro m
    rw [hmem, List.mem_append, List.mem_singleton, h.locations]
  · exact nodup_map_append h.ids hid
  · exact nodup_map_append h.times htime
  · intro q hq
    change (s₁.file q).eventCount = ((s.eventLocations ++ [l]).filter (·.file = q)).length
    rw [List.filter_append, List.length_append]
    by_cases hqp : q = l.file
    · subst hqp
      rw [hself, List.filter_singleton, decide_eq_true (rfl : l.file = l.file)]
      change (s.file l.file).eventCount + 1 = _ + 1
      rw [hr.count]
    · have hopen : s.isOpen q = true := by
        rcases isOpen_iff.1 hq with ⟨m, hm, hmq⟩ | ⟨m, hm, hmq⟩
        · rcases (hmem m).1 hm with hm | rfl
          · exact isOpen_iff.2 (.inl ⟨m, hm, hmq⟩)
          · exact absurd hmq.symm hqp
        · rcases List.mem_append.1 hm with hm | hm
          · exact isOpen_iff.2 (.inr ⟨m, hm, hmq⟩)
          · cases List.mem_singleton.1 hm
            exact absurd hmq.symm hqp
      rw [hother q hqp, h.counts q hopen, List.filter_singleton,
        decide_eq_false (fun heq => hqp heq.symm)]
      rfl
  · have hlast : ∀ m ∈ s.eventLocations, m.file = l.file → m.offset + m.size ≤ l.offset := by
      intro m hm heq
      have hbelow := h.below m hm
      rw [heq] at hbelow
      omega
    intro m hm m' hm' hne hfile
    rcases (hmem m).1 hm with hm₁ | hm₁
    · rcases (hmem m').1 hm' with hm₂ | rfl
      · exact h.disjoint m hm₁ m' hm₂ hne hfile
      · exact .inl (hlast m hm₁ hfile)
    · rcases (hmem m').1 hm' with hm₂ | hm₂
      · rw [hm₁] at hfile ⊢
        exact .inr (hlast m' hm₂ hfile.symm)
      · exact absurd (hm₁.trans hm₂.symm) hne
  · intro m hm
    rcases (hmem m).1 hm with hm | rfl
    · exact (hold m hm).2.1
    · change _ ≤ (s₁.file m.file).nextAppend
      rw [hself]
  · intro m hm
    rcases (hmem m).1 hm with hm | rfl
    · exact (hold m hm).1
    · change (s₁.file m.file).index = _
      rw [hself, hindex]
  · intro m hm
    rcases (hmem m).1 hm with hm | rfl
    · exact (hold m hm).2.2
    · change ∃ b, s₁.disk m.fileIndex = some b ∧ EventFile.HasHeader b ∧
        (s₁.file m.file).nextAppend ≤ b.length ∧ Holds b m ∧ 8 ≤ m.offset
      rw [hself, hdisk, Function.update_self]
      exact ⟨_, rfl, hasHeader_overwrite hr.header data (by omega) (by omega), hsum, hholds,
        by omega⟩

/-- The new event of `add_event()`. -/
theorem Sound.writeNewEvent (h : s.Sound)
    (hcurrent : s.currentFileIndex < s.options.maximumNumberOfFiles) {s₁ : Journal}
    (ho : s.openFile s.currentFileIndex true = (some p, s₁)) {event : InEvent} {time : ℤ}
    (hroom : s₁.hasRoom p (s₁.eventSize event) = true)
    (hid : ∀ m ∈ s.eventLocations, m.requestId ≠ event.requestId)
    (hidLen : event.requestId.length ≤ 255)
    (htime : ∀ m ∈ s.timebasedReplay, m.eventTime ≠ time) (hfits : Timespec.Fits time) :
    (s₁.writeNewEvent p event time).Sound := by
  obtain ⟨b, hsound, hready, hindex, hlocations, hreplay, hoptions, hcur, hget⟩ :=
    h.ready hcurrent ho
  have hsize : (s₁.writeJournalHeader p).eventSize event = s.eventSize event := by
    rw [eventSize, eventSize, hoptions]
  have hlt : s.eventSize event < 2 ^ 32 := by
    have hoptions₁ := (h.toLinked.openFile hcurrent true).1.options
    rw [ho] at hoptions₁
    have hsize₁ : s₁.eventSize event = s.eventSize event := by
      rw [eventSize, eventSize, show s₁.options = s.options from hoptions₁]
    rw [Journal.hasRoom, decide_eq_true_iff, hsize₁, show s₁.options = s.options from hoptions₁]
      at hroom
    have := s.options.fileSize_mem.2
    omega
  have hbytes := length_placeAttachments s₁.options.inlineAttachmentSizeThreshold
    event.attachments (baseSize event) (s₁.writeJournalHeader p).external
  unfold Journal.writeNewEvent
  dsimp only
  generalize placeAttachments s₁.options.inlineAttachmentSizeThreshold event.attachments
    (baseSize event) (s₁.writeJournalHeader p).external = placed at hbytes
  obtain ⟨offsets, external⟩ := placed
  have hoptions₁ : s₁.options = s.options := by
    have hlike := (h.toLinked.openFile hcurrent true).1.options
    rwa [ho] at hlike
  have hdata : ((s₁.writeJournalHeader p).newLocation p event time).size =
      baseSize event + (inlineData s₁.options.inlineAttachmentSizeThreshold event).length := by
    change (s₁.writeJournalHeader p).eventSize event = _
    rw [hsize, eventSize, hoptions₁]
  refine hsound.append hready rfl ?_ rfl ?_ ?_ ?_ ?_ ?_ ?_ external
  · change (s₁.writeJournalHeader p).currentFileIndex = _
    rw [hcur, hindex]
  · rw [length_eventBytes _ _ _ _ hbytes, hdata]
  · refine holds_new hbytes rfl hidLen rfl rfl hdata ?_ hfits hready.append.2
    change (s₁.writeJournalHeader p).eventSize event < 2 ^ 32
    rw [hsize]
    exact hlt
  · rw [hlocations]
    exact hid
  · rw [hreplay]
    exact htime
  · change (s₁.writeJournalHeader p).eventFiles.getD (s₁.writeJournalHeader p).currentFileIndex none
      = some p
    rw [hcur]
    exact hget
  · change (s₁.writeJournalHeader p).currentFileIndex < _
    rw [hcur, hoptions]
    exact hcurrent

/-! ### A new status -/

theorem getD_overwrite_ne {b : Bytes} {i offset : ℕ} {x : UInt8} (hb : offset < b.length)
    (hi : i ≠ offset) : (b.overwrite offset [x]).getD i 0 = b.getD i 0 := by
  rw [List.getD_eq_getElem?_getD, List.getD_eq_getElem?_getD, List.getElem?_overwrite (by omega)]
  split
  · rfl
  · rw [if_neg (by rw [List.length_singleton]; omega)]

/-- Only the status of an event changes. -/
theorem Holds.setStatus {b : Bytes} {l : Location} (h : Holds b l) (status : Status) :
    Holds (b.overwrite (l.offset + 2) [status.code]) { l with status } := by
  have hsize : 32 ≤ l.size := by have := h.prefixed; omega
  have hwithin := h.within
  have hlt : l.offset + 2 < b.length := by omega
  have hfit : l.offset + 2 + [status.code].length ≤ b.length := by
    rw [List.length_singleton]; omega
  have hget : ∀ i, i ≠ l.offset + 2 → (b.overwrite (l.offset + 2) [status.code]).getD i 0 =
      b.getD i 0 := fun i hi => getD_overwrite_ne hlt hi
  have hslice : ∀ i n, l.offset + 3 ≤ i →
      (b.overwrite (l.offset + 2) [status.code]).slice i n = b.slice i n := fun i n hi =>
    List.slice_overwrite_of_disjoint hfit (.inr (by rw [List.length_singleton]; omega))
  have hstatus : EventFile.status (b.overwrite (l.offset + 2) [status.code]) l.offset =
      status.code := by
    rw [EventFile.status, List.getD_eq_getElem?_getD, List.getElem?_overwrite (by omega),
      if_neg (by omega), if_pos (by rw [List.length_singleton]; omega), Nat.sub_self]
    rfl
  have hcount : EventFile.attachmentCount (b.overwrite (l.offset + 2) [status.code]) l.offset =
      l.attachmentCount := by
    rw [← h.attachmentCount, EventFile.attachmentCount, hget _ (by omega)]
    rfl
  have hidSize : EventFile.requestIdSize (b.overwrite (l.offset + 2) [status.code]) l.offset =
      l.requestId.length := by
    rw [← h.requestIdSize, EventFile.requestIdSize, hget _ (by omega)]
    rfl
  exact
    { within := by rw [List.length_overwrite_of_le hfit]; exact hwithin
      magic₀ := (hget l.offset (by omega)).trans h.magic₀
      magic₁ := (hget (l.offset + 1) (by omega)).trans h.magic₁
      status := hstatus
      requestIdSize := hidSize
      size := (congrArg ofBytes (hslice (l.offset + 4) 4 (by omega))).trans h.size
      time := (congrArg₂ Timespec.ofWords (congrArg ofBytes (hslice (l.offset + 8) 8 (by omega)))
        (congrArg ofBytes (hslice (l.offset + 16) 8 (by omega)))).trans h.time
      attachmentCount := hcount
      requestId := by
        rw [EventFile.requestId, hcount, hidSize]
        refine (hslice (l.offset + 32 + 4 * l.attachmentCount) _ (by omega)).trans ?_
        rw [← h.attachmentCount, ← h.requestIdSize]
        exact h.requestId
      prefixed := h.prefixed }

/-- The files after the status of an event was written. -/
theorem Sound.write_status (h : s.Sound) {l : Location} (hl : l ∈ s.eventLocations)
    (status : Status) {m : Location} (hm : m ∈ s.eventLocations) :
    ∃ b, (s.write l.file (l.offset + 2) [status.code]).disk m.fileIndex = some b ∧
      EventFile.HasHeader b ∧ (s.file m.file).nextAppend ≤ b.length ∧
      Holds b (if m = l then { l with status } else m) ∧ 8 ≤ m.offset := by
  obtain ⟨b, hb, hheader, hle, hholds, hoffset⟩ := h.stored m hm
  obtain ⟨b₁, hb₁, -, -, hholds₁, hoffset₁⟩ := h.stored l hl
  have hsize : 32 ≤ l.size := by have := hholds₁.prefixed; omega
  change ∃ b, Function.update s.disk (s.file l.file).index
    ((s.disk (s.file l.file).index).map fun b => writeAt b (l.offset + 2) [status.code])
      m.fileIndex = some b ∧ _
  rw [h.index l hl, hb₁, Option.map_some]
  by_cases hindex : m.fileIndex = l.fileIndex
  · -- the same file
    rw [hindex, hb₁] at hb
    cases Option.some.inj hb
    have hwithin := hholds₁.within
    have hfit : l.offset + 2 + [status.code].length ≤ b.length := by
      rw [List.length_singleton]; omega
    rw [hindex, Function.update_self, writeAt_of_le _ (by omega)]
    refine ⟨_, rfl, hasHeader_overwrite hheader _ (by omega) (by omega), ?_, ?_, hoffset⟩
    · rw [List.length_overwrite_of_le hfit]
      exact hle
    · split
      · next heq =>
        subst heq
        exact hholds.setStatus status
      · next hne =>
        have hapart := h.disjoint m hm l hl hne ((h.file_eq_iff hm hl).2 hindex)
        refine hholds.of_slice (List.slice_overwrite_of_disjoint hfit ?_)
          (by rw [List.length_overwrite_of_le hfit]; exact hholds.within) m.file
        rw [List.length_singleton]
        omega
  · rw [Function.update_of_ne hindex, if_neg fun heq => hindex (by rw [heq])]
    exact ⟨b, hb, hheader, hle, hholds, hoffset⟩

theorem Sound.setStatus (h : s.Sound) {l : Location} (hl : l ∈ s.eventLocations)
    (status : Status) : ((s.write l.file (l.offset + 2) [status.code]).setStatus l status).Sound := by
  set change := fun m : Location => if m = l then { l with status } else m with hchange
  have hkeep : ∀ m, (change m).requestId = m.requestId ∧ (change m).eventTime = m.eventTime ∧
      (change m).file = m.file ∧ (change m).fileIndex = m.fileIndex ∧
      (change m).offset = m.offset ∧ (change m).size = m.size := by
    intro m
    rw [hchange]
    dsimp only
    split
    · next heq => subst heq; exact ⟨rfl, rfl, rfl, rfl, rfl, rfl⟩
    · exact ⟨rfl, rfl, rfl, rfl, rfl, rfl⟩
  have hlinked := ((h.toLinked.modify l.file fun b =>
    writeAt b (l.offset + 2) [status.code]).toLinked.setStatus (l := l) hl status).toLinked
  have hopen : ∀ p, ((s.write l.file (l.offset + 2) [status.code]).setStatus l status).isOpen p =
      s.isOpen p := by
    intro p
    change ((s.eventLocations.map change).any (·.file = p) ||
      (s.timebasedReplay.map change).any (·.file = p)) = _
    rw [List.any_map, List.any_map, isOpen]
    simp only [Function.comp_def, (hkeep _).2.2.1]
  have hexists : ∀ m ∈ s.eventLocations.map change, ∃ m' ∈ s.eventLocations, m = change m' := by
    intro m hm
    obtain ⟨m', hm', heq⟩ := List.mem_map.1 hm
    exact ⟨m', hm', heq.symm⟩
  refine { toLinked := hlinked, locations := ?_, ids := ?_, times := ?_, counts := ?_,
           disjoint := ?_, below := ?_, index := ?_, stored := ?_ }
  · intro m
    change m ∈ s.eventLocations.map change ↔ m ∈ s.timebasedReplay.map change
    simp only [List.mem_map, h.locations]
  · change ((s.eventLocations.map change).map (·.requestId)).Nodup
    rw [List.map_map]
    simpa only [Function.comp_def, (hkeep _).1] using h.ids
  · change ((s.timebasedReplay.map change).map (·.eventTime)).Nodup
    rw [List.map_map]
    simpa only [Function.comp_def, (hkeep _).2.1] using h.times
  · intro p hp
    rw [hopen] at hp
    change (s.file p).eventCount = ((s.eventLocations.map change).filter (·.file = p)).length
    rw [List.filter_map, List.length_map, h.counts p hp]
    simp only [Function.comp_def, (hkeep _).2.2.1]
  · intro m hm m' hm' hne hfile
    obtain ⟨m₀, hm₀, rfl⟩ := hexists m hm
    obtain ⟨m₁, hm₁, rfl⟩ := hexists m' hm'
    obtain ⟨-, -, hf, -, ho, hs⟩ := hkeep m₀
    obtain ⟨-, -, hf', -, ho', hs'⟩ := hkeep m₁
    rw [ho, hs, ho', hs']
    rw [hf, hf'] at hfile
    exact h.disjoint m₀ hm₀ m₁ hm₁ (fun heq => hne (by rw [heq])) hfile
  · intro m hm
    obtain ⟨m₀, hm₀, rfl⟩ := hexists m hm
    obtain ⟨-, -, hf, -, ho, hs⟩ := hkeep m₀
    rw [ho, hs, hf]
    exact h.below m₀ hm₀
  · intro m hm
    obtain ⟨m₀, hm₀, rfl⟩ := hexists m hm
    obtain ⟨-, -, hf, hi, -, -⟩ := hkeep m₀
    rw [hf, hi]
    exact h.index m₀ hm₀
  · intro m hm
    obtain ⟨m₀, hm₀, rfl⟩ := hexists m hm
    obtain ⟨-, -, hf, hi, ho, -⟩ := hkeep m₀
    rw [hf, hi, ho]
    exact h.write_status hl status hm₀

/-- A file has one event less, if it is the one of the event. -/
theorem Sound.length_filter_erase (h : s.Sound) {l : Location} (hl : l ∈ s.eventLocations) (q : ℕ) :
    ((s.eventLocations.filter fun m => m.requestId ≠ l.requestId).filter (·.file = q)).length =
      if q = l.file then (s.eventLocations.filter (·.file = q)).length - 1
      else (s.eventLocations.filter (·.file = q)).length := by
  have hnodup : s.eventLocations.Nodup := List.Nodup.of_map _ h.ids
  have herase : (s.eventLocations.filter fun m => m.requestId ≠ l.requestId) =
      s.eventLocations.erase l := by
    rw [hnodup.erase_eq_filter]
    refine List.filter_congr fun m hm => ?_
    rw [Bool.eq_iff_iff, decide_eq_true_iff, bne_iff_ne]
    refine not_congr ⟨fun heq => h.eq_of_requestId hm hl heq, fun heq => by rw [heq]⟩
  rw [herase, ← List.countP_eq_length_filter, ← List.countP_eq_length_filter, List.countP_erase]
  by_cases hq : q = l.file
  · rw [if_pos hq, if_pos ⟨hl, decide_eq_true hq.symm⟩]
  · rw [if_neg hq, if_neg fun hmem => hq (of_decide_eq_true hmem.2).symm, Nat.sub_zero]

/-- The map by time has the location of the event for its time, so no file is closed yet. -/
theorem Sound.eraseReplay_eq (h : s.Sound) {l : Location} (hl : l ∈ s.eventLocations)
    (status : Status) : (s.write l.file (l.offset + 2) [status.code]).eraseReplay l =
      { s.write l.file (l.offset + 2) [status.code] with
        canBeCompressed := true
        timebasedReplay := s.timebasedReplay.filter fun m => m.eventTime ≠ l.eventTime } := by
  set s₁ := s.write l.file (l.offset + 2) [status.code] with hs₁
  rw [eraseReplay]
  refine dropAll_of_isOpen fun m hm => ?_
  obtain ⟨hm, htime⟩ := List.mem_filter.1 hm
  have heq : m = l := h.eq_of_eventTime hm ((h.locations l).1 hl) (of_decide_eq_true htime)
  rw [heq]
  exact isOpen_of_mem (s := { s₁ with
    canBeCompressed := true
    timebasedReplay := s.timebasedReplay.filter fun m => m.eventTime ≠ l.eventTime }) hl

/-- The event is not live any more. -/
theorem Sound.erase (h : s.Sound) {l : Location} (hl : l ∈ s.eventLocations) (status : Status) :
    ((((s.write l.file (l.offset + 2) [status.code]).eraseReplay l).eraseLocation
      l.requestId).uncountEvent l.file).Sound ∧
    (((((s.write l.file (l.offset + 2) [status.code]).eraseReplay l).eraseLocation
      l.requestId).uncountEvent l.file).file l.file).index = l.fileIndex ∧
    ((((s.write l.file (l.offset + 2) [status.code]).eraseReplay l).eraseLocation
      l.requestId).uncountEvent l.file).eventFiles.getD l.fileIndex none = some l.file := by
  set s₁ := s.write l.file (l.offset + 2) [status.code] with hs₁
  have hreplay := h.eraseReplay_eq hl status
  have hlinked := h.toLinked.modify l.file fun b => writeAt b (l.offset + 2) [status.code]
  have hlinked₁ := hlinked.toLinked.eraseReplay l
  have hlinked₂ := (hlinked₁.toLinked.eraseLocation l.requestId).toLinked.uncountEvent l.file
  have hlinked₃ : ((s₁.eraseReplay l).eraseLocation l.requestId |>.uncountEvent l.file).Linked :=
    hlinked₂.toLinked
  rw [hreplay] at hlinked₃ ⊢
  set s₂ : Journal := { s₁ with
    canBeCompressed := true
    timebasedReplay := s.timebasedReplay.filter fun m => m.eventTime ≠ l.eventTime } with hs₂
  set s₃ := (s₂.eraseLocation l.requestId).uncountEvent l.file with hs₃
  have hlocations : ∀ m, m ∈ s₃.eventLocations ↔ m ∈ s.eventLocations ∧ m ≠ l := by
    intro m
    change m ∈ s.eventLocations.filter (fun m => m.requestId ≠ l.requestId) ↔ _
    rw [List.mem_filter, decide_eq_true_iff]
    refine and_congr_right fun hm => not_congr ⟨fun heq => h.eq_of_requestId hm hl heq, fun heq => ?_⟩
    rw [heq]
  have hreplayMem : ∀ m, m ∈ s₃.timebasedReplay ↔ m ∈ s.timebasedReplay ∧ m ≠ l := by
    intro m
    change m ∈ s.timebasedReplay.filter (fun m => m.eventTime ≠ l.eventTime) ↔ _
    rw [List.mem_filter, decide_eq_true_iff]
    refine and_congr_right fun hm => not_congr
      ⟨fun heq => h.eq_of_eventTime hm ((h.locations l).1 hl) heq, fun heq => ?_⟩
    rw [heq]
  have hself : s₃.file l.file = { s.file l.file with
      eventCount := sub32 (s.file l.file).eventCount 1
      nextAppend := if (s₂.eraseLocation l.requestId).eventLocations.isEmpty then 8
        else (s.file l.file).nextAppend } := List.getD_set_self (h.file_lt hl) _ _
  have hother : ∀ q, q ≠ l.file → s₃.file q = s.file q := fun q hq => List.getD_set_ne hq _ _ _
  -- the object of an event that is left
  have hfile : ∀ m ∈ s₃.eventLocations, (s₃.file m.file).index = (s.file m.file).index ∧
      (s₃.file m.file).nextAppend = (s.file m.file).nextAppend := by
    intro m hm
    by_cases hmp : m.file = l.file
    · have hne : (s₂.eraseLocation l.requestId).eventLocations.isEmpty = false := by
        rw [List.isEmpty_eq_false_iff_exists_mem]
        exact ⟨m, hm⟩
      rw [hmp, hself, hne]
      exact ⟨rfl, rfl⟩
    · rw [hother _ hmp]
      exact ⟨rfl, rfl⟩
  have hopen : ∀ q, s₃.isOpen q = true → ∃ m ∈ s₃.eventLocations, m.file = q := by
    intro q hq
    rcases isOpen_iff.1 hq with hm | ⟨m, hm, hmq⟩
    · exact hm
    · obtain ⟨hm, hne⟩ := (hreplayMem m).1 hm
      exact ⟨m, (hlocations m).2 ⟨(h.locations m).2 hm, hne⟩, hmq⟩
  refine ⟨{ toLinked := hlinked₃, locations := ?_, ids := ?_, times := ?_, counts := ?_,
            disjoint := ?_, below := ?_, index := ?_, stored := ?_ },
    by rw [hself]; exact h.index l hl, (h.linked l hl).2⟩
  · intro m
    rw [hlocations, hreplayMem, h.locations]
  · exact (List.filter_sublist.map _).nodup h.ids
  · exact (List.filter_sublist.map _).nodup h.times
  · intro q hq
    obtain ⟨m, hm, rfl⟩ := hopen q hq
    obtain ⟨hmem, hne⟩ := (hlocations m).1 hm
    have hcount := h.counts m.file (isOpen_of_mem hmem)
    change (s₃.file m.file).eventCount =
      ((s.eventLocations.filter fun m => m.requestId ≠ l.requestId).filter
        (·.file = m.file)).length
    rw [h.length_filter_erase hl m.file]
    by_cases hmp : m.file = l.file
    · have hpos : 0 < (s.eventLocations.filter (·.file = l.file)).length :=
        List.length_pos_of_mem (List.mem_filter.2 ⟨hl, decide_eq_true rfl⟩)
      rw [if_pos hmp, ← hcount, hmp, hself]
      rw [← hmp, ← hcount, hmp] at hpos
      exact sub32_of_le hpos
    · rw [if_neg hmp, hother _ hmp, hcount]
  · intro m hm m' hm'
    exact h.disjoint m ((hlocations m).1 hm).1 m' ((hlocations m').1 hm').1
  · intro m hm
    rw [(hfile m hm).2]
    exact h.below m ((hlocations m).1 hm).1
  · intro m hm
    rw [(hfile m hm).1]
    exact h.index m ((hlocations m).1 hm).1
  · intro m hm
    obtain ⟨hmem, hne⟩ := (hlocations m).1 hm
    have hstored := h.write_status hl status hmem
    rw [if_neg hne] at hstored
    rw [(hfile m hm).2]
    exact hstored

theorem Sound.updateEventStatus (h : s.Sound) (requestId : Bytes) (status : Status) :
    (s.updateEventStatus requestId status).2.Sound := by
  unfold Journal.updateEventStatus
  cases hfind : s.eventLocations.find? fun l => l.requestId = requestId with
  | none => exact h
  | some l =>
    have hl : l ∈ s.eventLocations := List.mem_of_find?_eq_some hfind
    have hid : l.requestId = requestId := by simpa using List.find?_some hfind
    dsimp only
    split
    · split
      · exact h.setStatus hl status
      · subst hid
        obtain ⟨herase, hindex, hget⟩ := h.erase hl status
        dsimp only
        set s₁ := (((s.write l.file (l.offset + 2) [status.code]).eraseReplay l).eraseLocation
          l.requestId).uncountEvent l.file with hs₁
        cases hopen : s₁.isOpen l.file with
        | true =>
          rw [drop_of_isOpen hopen]
          exact herase
        | false =>
          refine herase.drop_closed hopen fun m hm heq => ?_
          -- another event of the file would keep it open
          have hfile := (herase.linked m hm).2
          rw [heq, hindex, hget] at hfile
          rw [Option.some.inj hfile, isOpen_of_mem hm] at hopen
          cases hopen
    · exact h

end Journal

end Prinbee
