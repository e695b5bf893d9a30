import Prinbee.Journal.Loading
import Prinbee.Lib.Run

/-!
# The file index of a journal

`add_event()` starts at `f_current_file_index` and `get_event_file()` throws when an index is not
less than the maximum number of files.  `set_maximum_number_of_files()` refuses a maximum when an
event lives in a file over it, but it does not look at the current index.

## Main definitions

* `EventCall`, `JournalCall` — the calls of a run.
* `Journal.FileIndexValid` — the current index and those of the live events are in range, and
  `add_event()` does not throw.
* `JournalCall.KeepsIndex` — the current index is below the new maximum.

## Main results

* `Journal.fileIndexValid_iff` — the index stays valid exactly in the runs that reduce the maximum
  number of files only to values above the current index.
-/

namespace Prinbee

open UInt512 (toBytes)

/-- The calls that add an event and change its status. -/
inductive EventCall
  | addEvent (now : ℤ) (event : InEvent) (eventTime : ℤ)
  | eventForwarded (requestId : Bytes)
  | eventAcknowledged (requestId : Bytes)
  | eventCompleted (requestId : Bytes)
  | eventFailed (requestId : Bytes)

namespace EventCall

/-- What the call returns or throws, and the state it leaves. -/
def run (s : Journal) : EventCall → Except Failure Bool × Journal
  | addEvent now event eventTime => s.addEvent now event eventTime
  | eventForwarded requestId => s.updateEventStatus requestId .forwarded
  | eventAcknowledged requestId => s.updateEventStatus requestId .acknowledged
  | eventCompleted requestId => s.updateEventStatus requestId .completed
  | eventFailed requestId => s.updateEventStatus requestId .failed

/-- The state that the call leaves. -/
def step (s : Journal) (c : EventCall) : Journal := (c.run s).2

end EventCall

/-- The calls that change events or limits. -/
inductive JournalCall
  | event (c : EventCall)
  | setMaximumNumberOfFiles (n : ℕ)
  | setMaximumFileSize (n : ℕ)

namespace JournalCall

/-- What the call returns or throws, and the state it leaves. -/
def run (s : Journal) : JournalCall → Except Failure Bool × Journal
  | event c => c.run s
  | setMaximumNumberOfFiles n => s.setMaximumNumberOfFiles n
  | setMaximumFileSize n => s.setMaximumFileSize n

/-- The state that the call leaves. -/
def step (s : Journal) (c : JournalCall) : Journal := (c.run s).2

/-- A maximum number of files that is accepted, being in range and above the files of the live
events, is above the current file too. -/
def KeepsIndex (s : Journal) : JournalCall → Prop
  | setMaximumNumberOfFiles n =>
    2 ≤ n → n ≤ 255 → (∀ l ∈ s.eventLocations, l.fileIndex < n) → s.currentFileIndex < n
  | _ => True

end JournalCall

namespace Journal

/-- The current file index is less than the maximum number of files, the file of each live event is
reached with its index, and adding an event does not throw. -/
def FileIndexValid (s : Journal) : Prop :=
  s.currentFileIndex < s.options.maximumNumberOfFiles ∧
    (∀ l ∈ s.eventLocations, l.fileIndex < s.options.maximumNumberOfFiles ∧
      s.lock l.fileIndex = some l.file) ∧
    ∀ now event eventTime, ∃ r, (s.addEvent now event eventTime).1 = .ok r

/-! ### The links between the events and the files -/

/-- The weak pointers have the file of each live event under its index, and each object under one
index only. -/
structure Linked (s : Journal) : Prop where
  length : s.eventFiles.length = s.options.maximumNumberOfFiles
  linked : ∀ l ∈ s.eventLocations, l.fileIndex < s.options.maximumNumberOfFiles ∧
    s.eventFiles.getD l.fileIndex none = some l.file
  fresh : ∀ i p, s.eventFiles.getD i none = some p → p < s.files.length
  inj : ∀ i j p, s.eventFiles.getD i none = some p → s.eventFiles.getD j none = some p → i = j

/-- The current index is in range too. -/
structure Indexed (s : Journal) : Prop extends Linked s where
  current : s.currentFileIndex < s.options.maximumNumberOfFiles

/-- `s'` has the links of its live events, and the limits and the current index of `s`. -/
structure LinkedLike (s s' : Journal) : Prop extends Linked s' where
  options : s'.options = s.options
  current : s'.currentFileIndex = s.currentFileIndex

variable {s s' : Journal} {p : ℕ}

theorem LinkedLike.trans {s'' : Journal} (h : LinkedLike s s') (h' : LinkedLike s' s'') :
    LinkedLike s s'' :=
  ⟨h'.toLinked, h'.options.trans h.options, h'.current.trans h.current⟩

theorem LinkedLike.indexed (h : LinkedLike s s')
    (hs : s.currentFileIndex < s.options.maximumNumberOfFiles) : s'.Indexed :=
  ⟨h.toLinked, by rw [h.current, h.options]; exact hs⟩

theorem Linked.lock (h : s.Linked) {l : Location} (hl : l ∈ s.eventLocations) :
    s.lock l.fileIndex = some l.file := by
  rw [Journal.lock, (h.linked l hl).2, Option.filter_some, if_pos (isOpen_of_mem hl)]

/-- A journal with other maps, whose live events are linked. -/
theorem Linked.like (h : s.Linked) (hoptions : s'.options = s.options)
    (hcurrent : s'.currentFileIndex = s.currentFileIndex)
    (heventFiles : s'.eventFiles = s.eventFiles) (hfiles : s'.files.length = s.files.length)
    (hlinked : ∀ l ∈ s'.eventLocations, l.fileIndex < s.options.maximumNumberOfFiles ∧
      s.eventFiles.getD l.fileIndex none = some l.file) : LinkedLike s s' where
  length := by rw [heventFiles, hoptions]; exact h.length
  linked := by rw [heventFiles, hoptions]; exact hlinked
  fresh := by rw [heventFiles, hfiles]; exact h.fresh
  inj := by rw [heventFiles]; exact h.inj
  options := hoptions
  current := hcurrent

theorem Linked.drop (h : s.Linked) (p : ℕ) : LinkedLike s (s.drop p) := by
  obtain ⟨files, disk, hlen, hs⟩ := s.drop_frame p
  rw [hs]
  exact h.like rfl rfl rfl hlen h.linked

theorem Linked.dropAll (h : s.Linked) (ls : List Location) : LinkedLike s (s.dropAll ls) := by
  obtain ⟨files, disk, hlen, hs⟩ := s.dropAll_frame ls
  rw [hs]
  exact h.like rfl rfl rfl hlen h.linked

/-- A new object under an index that no live event has. -/
theorem Linked.opened (h : s.Linked) {index : ℕ} (hi : index < s.options.maximumNumberOfFiles)
    (hlock : s.lock index = none) (b : Bytes) :
    LinkedLike s (s.opened index b) ∧
      (s.opened index b).eventFiles.getD index none = some s.files.length := by
  have hlen : index < s.eventFiles.length := by rw [h.length]; exact hi
  have hself : (s.eventFiles.set index (some s.files.length)).getD index none =
      some s.files.length := List.getD_set_self hlen _ _
  have hother : ∀ i, i ≠ index →
      (s.eventFiles.set index (some s.files.length)).getD i none = s.eventFiles.getD i none :=
    fun i hne => List.getD_set_ne hne _ _ _
  have hnew : ∀ i p, (s.opened index b).eventFiles.getD i none = some p →
      i = index ∧ p = s.files.length ∨ i ≠ index ∧ s.eventFiles.getD i none = some p := by
    intro i p hp
    change (s.eventFiles.set index (some s.files.length)).getD i none = some p at hp
    by_cases hne : i = index
    · subst hne
      rw [hself] at hp
      exact .inl ⟨rfl, (Option.some.inj hp).symm⟩
    · rw [hother i hne] at hp
      exact .inr ⟨hne, hp⟩
  refine ⟨{ length := ?_, linked := ?_, fresh := ?_, inj := ?_, options := rfl, current := rfl },
    hself⟩
  · exact (List.length_set ..).trans h.length
  · intro l hl
    have hne : l.fileIndex ≠ index := by
      rintro rfl
      rw [h.lock hl] at hlock
      cases hlock
    exact ⟨(h.linked l hl).1, (hother l.fileIndex hne).trans (h.linked l hl).2⟩
  · intro i p hp
    have hfiles : (s.opened index b).files.length = s.files.length + 1 := List.length_append ..
    rw [hfiles]
    rcases hnew i p hp with ⟨-, rfl⟩ | ⟨-, hp⟩
    · omega
    · have := h.fresh i p hp
      omega
  · intro i j p hp hp'
    rcases hnew i p hp with ⟨hi, hn⟩ | ⟨-, hp⟩ <;> rcases hnew j p hp' with ⟨hj, hn'⟩ | ⟨-, hp'⟩
    · exact hi.trans hj.symm
    · exact absurd (h.fresh j p hp') (by omega)
    · exact absurd (h.fresh i p hp) (by omega)
    · exact h.inj i j p hp hp'

/-- Opening a file: its object is then the one of its index. -/
theorem Linked.openFile (h : s.Linked) {index : ℕ}
    (hi : index < s.options.maximumNumberOfFiles) (create : Bool) :
    LinkedLike s (s.openFile index create).2 ∧
      (s.openFile index create).2.eventLocations = s.eventLocations ∧
      ∀ p, (s.openFile index create).1 = some p →
        (s.openFile index create).2.eventFiles.getD index none = some p := by
  obtain ⟨p, hlock, ho⟩ | ⟨-, -, -, ho⟩ | ⟨hlock, b, -, ho⟩ := s.openFile_cases index create
  · rw [ho]
    refine ⟨⟨h, rfl, rfl⟩, rfl, fun q hq => ?_⟩
    cases Option.some.inj hq
    rw [Journal.lock, Option.filter_eq_some_iff] at hlock
    exact hlock.1
  · rw [ho]
    exact ⟨⟨h, rfl, rfl⟩, rfl, fun p hp => by cases hp⟩
  · rw [ho]
    obtain ⟨hlike, hself⟩ := h.opened hi hlock b
    refine ⟨hlike, rfl, fun p hp => ?_⟩
    cases Option.some.inj hp
    exact hself

/-- A location of the file at its index is entered. -/
theorem Linked.insertLocation (h : s.Linked) {l : Location}
    (hi : l.fileIndex < s.options.maximumNumberOfFiles)
    (hl : s.eventFiles.getD l.fileIndex none = some l.file) :
    LinkedLike s (s.insertLocation l) ∧ (s.insertLocation l).eventFiles = s.eventFiles := by
  obtain ⟨files, disk, hlen, hs⟩ := s.insertLocation_frame l
  rw [hs]
  refine ⟨h.like rfl rfl rfl hlen fun m hm => ?_, rfl⟩
  rcases List.mem_append.1 hm with hm | hm
  · exact h.linked m (List.mem_of_mem_filter hm)
  · cases List.mem_singleton.1 hm
    exact ⟨hi, hl⟩

/-- The objects and the bytes of the files do not matter. -/
theorem Linked.countEvent (h : s.Linked) (p offset : ℕ) : LinkedLike s (s.countEvent p offset) :=
  h.like rfl rfl rfl (List.length_set ..) h.linked

theorem Linked.modify (h : s.Linked) (p : ℕ) (f : Bytes → Bytes) : LinkedLike s (s.modify p f) :=
  h.like rfl rfl rfl rfl h.linked

theorem Linked.setFile (h : s.Linked) (p : ℕ) (f : JournalFile) : LinkedLike s (s.setFile p f) :=
  h.like rfl rfl rfl (List.length_set ..) h.linked

/-! ### Reading the files -/

/-- The events of a file are entered under its index. -/
theorem Linked.loadEvents (now : ℤ) (compress : Bool) {index : ℕ} (fuel : ℕ) {s : Journal}
    (offset : ℕ) (tellp : Option ℕ) (h : s.Linked)
    (hi : index < s.options.maximumNumberOfFiles)
    (hp : s.eventFiles.getD index none = some p) :
    LinkedLike s (loadEvents now compress index p fuel s offset tellp) := by
  induction fuel generalizing s offset tellp with
  | zero => exact ⟨h, rfl, rfl⟩
  | succ fuel ih =>
    have hnext : ∀ s', LinkedLike s s' → s'.eventFiles = s.eventFiles → ∀ offset tellp,
        LinkedLike s (Journal.loadEvents now compress index p fuel s' offset tellp) := by
      intro s' hs' hfiles offset tellp
      exact hs'.trans (ih offset tellp hs'.toLinked (by rw [hs'.options]; exact hi)
        (by rw [hfiles]; exact hp))
    rw [Journal.loadEvents]
    split
    · split
      · split
        · next target _ =>
          obtain ⟨hlike, hfiles⟩ :=
            h.insertLocation (l := locationAt (s.content p) p index offset target) hi hp
          have hmove := hlike.toLinked.modify p fun b => moveEvent b offset target
          exact hnext _ ((hlike.trans hmove).trans (hmove.toLinked.countEvent p _)) hfiles _ _
        · obtain ⟨hlike, hfiles⟩ :=
            h.insertLocation (l := locationAt (s.content p) p index offset offset) hi hp
          exact hnext _ (hlike.trans (hlike.toLinked.countEvent p _)) hfiles _ _
      · exact hnext { s with canBeCompressed := true } (h.like rfl rfl rfl rfl h.linked) rfl _ _
    · exact ⟨h, rfl, rfl⟩

theorem Linked.loadFile (h : s.Linked) (now : ℤ) (compress : Bool) {index : ℕ}
    (hi : index < s.options.maximumNumberOfFiles) :
    LinkedLike s (loadFile now compress s index) := by
  obtain ⟨hopen, -, hfile⟩ := h.openFile hi false
  unfold Journal.loadFile
  split
  · next s' ho => rw [ho] at hopen; exact hopen
  · next p s' ho =>
    rw [ho] at hopen hfile
    have hlike := hopen.trans (hopen.toLinked.setFile p { s'.file p with eventCount := 0 })
    dsimp only
    split
    · have hload := hlike.toLinked.loadEvents now compress
        ((s'.setFile p { s'.file p with eventCount := 0 }).content p).length 8 none
        (by rw [hlike.options]; exact hi) (hfile p rfl)
      exact (hlike.trans hload).trans (hload.toLinked.drop p)
    · exact hlike.trans (hlike.toLinked.drop p)

theorem Linked.loadFiles (h : s.Linked) (now : ℤ) (compress : Bool) {indexes : List ℕ}
    (hi : ∀ index ∈ indexes, index < s.options.maximumNumberOfFiles) :
    LinkedLike s (indexes.foldl (Journal.loadFile now compress) s) := by
  induction indexes generalizing s with
  | nil => exact ⟨h, rfl, rfl⟩
  | cons index indexes ih =>
    have hlike := h.loadFile now compress (hi index List.mem_cons_self)
    exact hlike.trans (ih hlike.toLinked fun i hmem => by
      rw [hlike.options]; exact hi i (List.mem_cons_of_mem _ hmem))

/-- Reading the files again links the live events, whatever the files hold. -/
theorem Linked.loadEventLocations (h : s.Linked) (now : ℤ) (compress : Bool) :
    LinkedLike s (s.loadEventLocations now compress) := by
  have hclear : LinkedLike s { s with canBeCompressed := false, eventLocations := [] } :=
    h.like rfl rfl rfl rfl fun l hl => by cases hl
  have hlike := hclear.trans (hclear.toLinked.dropAll s.eventLocations)
  exact hlike.trans (hlike.toLinked.loadFiles now compress fun i hi => by
    rw [hlike.options]; exact List.mem_range.1 hi)

/-! ### Adding an event -/

theorem Linked.writeNewEvent (h : s.Linked)
    (hcurrent : s.currentFileIndex < s.options.maximumNumberOfFiles)
    (hp : s.eventFiles.getD s.currentFileIndex none = some p) (event : InEvent) (time : ℤ) :
    LinkedLike s (s.writeNewEvent p event time) := by
  have hheader : LinkedLike s (s.writeJournalHeader p) ∧
      (s.writeJournalHeader p).eventFiles = s.eventFiles := by
    unfold writeJournalHeader
    split
    · exact ⟨(h.modify p _).trans ((h.modify p _).toLinked.setFile p _), rfl⟩
    · exact ⟨⟨h, rfl, rfl⟩, rfl⟩
  obtain ⟨hlike, hfiles⟩ := hheader
  unfold Journal.writeNewEvent
  dsimp only
  generalize hplace : placeAttachments _ _ _ _ = placed
  obtain ⟨offsets, external⟩ := placed
  dsimp only
  have hexternal : LinkedLike s { s.writeJournalHeader p with external } :=
    hlike.trans (hlike.toLinked.like rfl rfl rfl rfl hlike.linked)
  have hwrite := hexternal.trans (hexternal.toLinked.modify p fun b => writeAt b
    ((s.writeJournalHeader p).newLocation p event time).offset
    (eventBytes event ((s.writeJournalHeader p).newLocation p event time).size time offsets
      (inlineData s.options.inlineAttachmentSizeThreshold event)))
  have hcount := hwrite.trans (hwrite.toLinked.countEvent p
    (((s.writeJournalHeader p).newLocation p event time).offset +
      ((s.writeJournalHeader p).newLocation p event time).size))
  refine hcount.trans (hcount.toLinked.insertLocation
    (l := (s.writeJournalHeader p).newLocation p event time) ?_ ?_).1
  · rw [hcount.options]
    change (s.writeJournalHeader p).currentFileIndex < _
    rw [hlike.current]
    exact hcurrent
  · change (s.writeJournalHeader p).eventFiles.getD (s.writeJournalHeader p).currentFileIndex none
      = some p
    rw [hfiles, hlike.current]
    exact hp

theorem Indexed.nextFile (h : s.Indexed) : s.nextFile.Indexed := by
  refine ⟨⟨h.length, h.linked, h.fresh, h.inj⟩, ?_⟩
  change (if s.options.maximumNumberOfFiles ≤ s.currentFileIndex + 1 then 0
    else s.currentFileIndex + 1) < s.options.maximumNumberOfFiles
  have := s.options.numberOfFiles_mem.1
  split <;> omega

/-- The loop over the files never leaves the range. -/
theorem Indexed.tryFiles (h : s.Indexed) (event : InEvent) (time : ℤ) (count : ℕ) :
    (∃ r, (tryFiles event time count s).1 = .ok r) ∧ (tryFiles event time count s).2.Indexed ∧
      (tryFiles event time count s).2.options = s.options := by
  induction count generalizing s with
  | zero => exact ⟨⟨none, rfl⟩, h, rfl⟩
  | succ count ih =>
    obtain ⟨hopen, -, hfile⟩ := h.openFile h.current true
    rw [Journal.tryFiles, getEventFile, if_neg (by have := h.current; omega)]
    generalize hopened : s.openFile s.currentFileIndex true = o at hopen hfile
    obtain ⟨_ | p, s'⟩ := o
    · exact ⟨⟨_, rfl⟩, hopen.indexed h.current, hopen.options⟩
    · dsimp only
      split
      · have hlike := hopen.toLinked.writeNewEvent
          (by rw [hopen.current, hopen.options]; exact h.current)
          (by rw [hopen.current]; exact hfile p rfl) event time
        exact ⟨⟨_, rfl⟩, (hopen.trans hlike).indexed h.current, (hopen.trans hlike).options⟩
      · have hnext := (hopen.indexed h.current).nextFile
        have hdrop := hnext.toLinked.drop p
        obtain ⟨hok, hindexed, hoptions⟩ := ih (hdrop.indexed hnext.current)
        exact ⟨hok, hindexed, hoptions.trans (hdrop.options.trans hopen.options)⟩

theorem Indexed.addEvent (h : s.Indexed) (now : ℤ) (event : InEvent) (eventTime : ℤ) :
    (∃ r, (s.addEvent now event eventTime).1 = .ok r) ∧
      (s.addEvent now event eventTime).2.Indexed := by
  unfold Journal.addEvent
  split
  · exact ⟨⟨_, rfl⟩, h⟩
  · obtain ⟨⟨r, hr⟩, hindexed, -⟩ :=
      h.tryFiles event (s.savedTime eventTime) s.options.maximumNumberOfFiles
    dsimp only
    generalize Journal.tryFiles event (s.savedTime eventTime) s.options.maximumNumberOfFiles s = t
      at hr hindexed
    obtain ⟨r', s'⟩ := t
    cases hr
    cases r with
    | some r => exact ⟨⟨r, rfl⟩, hindexed⟩
    | none =>
      dsimp only
      split
      · have hload := hindexed.toLinked.loadEventLocations now true
        obtain ⟨⟨r, hr⟩, hindexed', -⟩ := (hload.indexed hindexed.current).tryFiles event
          (s.savedTime eventTime) (s'.loadEventLocations now true).options.maximumNumberOfFiles
        generalize Journal.tryFiles event (s.savedTime eventTime) _
          (s'.loadEventLocations now true) = t at hr hindexed'
        obtain ⟨r', s''⟩ := t
        cases hr
        exact ⟨⟨_, rfl⟩, hindexed'⟩
      · exact ⟨⟨_, rfl⟩, hindexed⟩

/-! ### Changing the status of an event -/

/-- A new status changes neither the file nor the index. -/
theorem Linked.setStatus (h : s.Linked) {l : Location} (hl : l ∈ s.eventLocations)
    (status : Status) : LinkedLike s (s.setStatus l status) := by
  refine h.like rfl rfl rfl rfl fun m hm => ?_
  obtain ⟨m', hm', rfl⟩ := List.mem_map.1 hm
  by_cases heq : m' = l
  · rw [if_pos heq]
    exact h.linked l hl
  · rw [if_neg heq]
    exact h.linked m' hm'

theorem Linked.eraseReplay (h : s.Linked) (l : Location) : LinkedLike s (s.eraseReplay l) := by
  have hlike : LinkedLike s { s with
      canBeCompressed := true
      timebasedReplay := s.timebasedReplay.filter fun m => m.eventTime ≠ l.eventTime } :=
    h.like rfl rfl rfl rfl h.linked
  exact hlike.trans (hlike.toLinked.dropAll _)

theorem Linked.eraseLocation (h : s.Linked) (requestId : Bytes) :
    LinkedLike s (s.eraseLocation requestId) :=
  h.like rfl rfl rfl rfl fun m hm => h.linked m (List.mem_of_mem_filter hm)

theorem Linked.uncountEvent (h : s.Linked) (p : ℕ) : LinkedLike s (s.uncountEvent p) :=
  h.setFile p _

theorem Linked.updateEventStatus (h : s.Linked) (requestId : Bytes) (status : Status) :
    LinkedLike s (s.updateEventStatus requestId status).2 := by
  unfold Journal.updateEventStatus
  cases hfind : s.eventLocations.find? fun l => l.requestId = requestId with
  | none => exact ⟨h, rfl, rfl⟩
  | some l =>
    dsimp only
    split
    · have hwrite := h.modify l.file fun b => writeAt b (l.offset + 2) [status.code]
      split
      · exact hwrite.trans (hwrite.toLinked.setStatus (List.mem_of_find?_eq_some hfind) status)
      · have hreplay := hwrite.trans (hwrite.toLinked.eraseReplay l)
        have herase := hreplay.trans (hreplay.toLinked.eraseLocation requestId)
        have hcount := herase.trans (herase.toLinked.uncountEvent l.file)
        exact hcount.trans (hcount.toLinked.drop l.file)
    · exact ⟨h, rfl, rfl⟩

/-! ### Changing the limits -/

/-- The check of the files over a new maximum passes exactly when no live event is in them. -/
theorem Linked.checkUnused (h : s.Linked) (count index : ℕ)
    (hle : 0 < count → index + count ≤ s.options.maximumNumberOfFiles) :
    LinkedLike s (checkUnused count index s).2 ∧
      (checkUnused count index s).2.eventLocations = s.eventLocations ∧
      ((checkUnused count index s).1 = .ok () ↔
        ∀ l ∈ s.eventLocations, l.fileIndex < index ∨ index + count ≤ l.fileIndex) := by
  induction count generalizing s index with
  | zero => exact ⟨⟨h, rfl, rfl⟩, rfl, iff_of_true rfl fun l _ => by omega⟩
  | succ count ih =>
    have hi : index < s.options.maximumNumberOfFiles := by omega
    obtain ⟨hopen, hlocations, hfile⟩ := h.openFile hi false
    rw [Journal.checkUnused, if_neg (by rw [h.length]; omega), getEventFile, if_neg (by omega)]
    -- the files after this one, once this one is known to be unused
    have hrest : ∀ s', LinkedLike s s' → s'.eventLocations = s.eventLocations →
        (∀ l ∈ s.eventLocations, l.fileIndex ≠ index) →
        LinkedLike s (Journal.checkUnused count (index + 1) s').2 ∧
          (Journal.checkUnused count (index + 1) s').2.eventLocations = s.eventLocations ∧
          ((Journal.checkUnused count (index + 1) s').1 = .ok () ↔
            ∀ l ∈ s.eventLocations, l.fileIndex < index ∨ index + (count + 1) ≤ l.fileIndex) := by
      intro s' hs' hl' hne
      obtain ⟨hlike, heq, hiff⟩ := ih hs'.toLinked (index + 1) (by rw [hs'.options]; omega)
      refine ⟨hs'.trans hlike, heq.trans hl', hiff.trans ?_⟩
      rw [hl']
      refine forall₂_congr fun l hl => ?_
      have := hne l hl
      omega
    generalize hopened : s.openFile index false = o at hopen hlocations hfile
    obtain ⟨_ | p, s'⟩ := o
    · refine hrest s' hopen hlocations fun l hl hindex => ?_
      -- the file of a live event is open
      have hlock := h.lock hl
      rw [hindex] at hlock
      rw [Journal.openFile, hlock] at hopened
      cases hopened
    · have hsame : ∀ l ∈ s.eventLocations, l.file = p ↔ l.fileIndex = index := by
        intro l hl
        rw [← show s'.eventLocations = s.eventLocations from hlocations] at hl
        have hget := (hopen.linked l hl).2
        have hpget : s'.eventFiles.getD index none = some p := hfile p rfl
        constructor
        · rintro rfl
          exact hopen.inj _ _ _ hget hpget
        · rintro rfl
          exact Option.some.inj (hget.symm.trans hpget)
      have hlocations' : s'.eventLocations = s.eventLocations := hlocations
      dsimp only
      obtain ⟨files, disk, hlen, hdrop⟩ := s'.drop_frame p
      have hdropped : (s'.drop p).eventLocations = s.eventLocations := by rw [hdrop]; exact hlocations
      split
      · next hany =>
        rw [hlocations', List.any_eq_true] at hany
        obtain ⟨l, hl, hlp⟩ := hany
        have hindex := (hsame l hl).1 (of_decide_eq_true hlp)
        refine ⟨hopen.trans (hopen.toLinked.drop p), hdropped, iff_of_false (by simp) fun hall => ?_⟩
        have := hall l hl
        omega
      · next hany =>
        rw [hlocations', List.any_eq_true] at hany
        refine hrest (s'.drop p) (hopen.trans (hopen.toLinked.drop p)) hdropped
          fun l hl hindex => hany ⟨l, hl, decide_eq_true ((hsame l hl).2 hindex)⟩

theorem getD_resize (l : List (Option ℕ)) (n i : ℕ) :
    (l.take n ++ List.replicate (n - l.length) none).getD i none =
      if i < n then l.getD i none else none := by
  rw [List.getD_eq_getElem?_getD, List.getD_eq_getElem?_getD, List.getElem?_append,
    List.getElem?_take, List.getElem?_replicate, List.length_take]
  by_cases hi : i < l.length
  · by_cases hn : i < n
    · rw [if_pos (by omega), if_pos hn, if_pos hn]
    · rw [if_neg (by omega), if_neg (by omega), if_neg hn, Option.getD_none]
  · rw [if_neg (by omega), List.getElem?_eq_none (by omega), Option.getD_none, ite_self]
    split <;> rfl

/-- The weak pointers of the files below the new maximum are kept. -/
theorem Linked.resize (h : s.Linked) {n : ℕ} (hn : 2 ≤ n ∧ n ≤ 255)
    (hbelow : ∀ l ∈ s.eventLocations, l.fileIndex < n) :
    Linked { s with
      options := { s.options with maximumNumberOfFiles := n, numberOfFiles_mem := hn }
      eventFiles := s.eventFiles.take n ++ List.replicate (n - s.eventFiles.length) none } := by
  have hget : ∀ i p, (s.eventFiles.take n ++
      List.replicate (n - s.eventFiles.length) none).getD i none = some p →
      s.eventFiles.getD i none = some p := by
    intro i p hp
    rw [getD_resize] at hp
    split at hp
    · exact hp
    · cases hp
  refine ⟨?_, fun l hl => ⟨hbelow l hl, ?_⟩, fun i p hp => h.fresh i p (hget i p hp),
    fun i j p hp hp' => h.inj i j p (hget i p hp) (hget j p hp')⟩
  · change (s.eventFiles.take n ++ List.replicate (n - s.eventFiles.length) none).length = n
    rw [List.length_append, List.length_take, List.length_replicate]
    omega
  · change (s.eventFiles.take n ++ List.replicate (n - s.eventFiles.length) none).getD _ none = _
    rw [getD_resize, if_pos (hbelow l hl)]
    exact (h.linked l hl).2

/-- A call that is made keeps the index when the maximum it sets is above the current one, and
loses it otherwise. -/
theorem Indexed.setMaximumNumberOfFiles (h : s.Indexed) (n : ℕ) :
    (JournalCall.KeepsIndex s (.setMaximumNumberOfFiles n) ↔
      (s.setMaximumNumberOfFiles n).2.currentFileIndex <
        (s.setMaximumNumberOfFiles n).2.options.maximumNumberOfFiles) ∧
      (s.setMaximumNumberOfFiles n).2.Linked := by
  unfold Journal.setMaximumNumberOfFiles
  split
  · next hn =>
    split
    · next heq =>
      refine ⟨iff_of_true (fun _ _ _ => ?_) h.current, h.toLinked⟩
      have := h.current
      omega
    · obtain ⟨hlike, hlocations, hiff⟩ := h.toLinked.checkUnused
        (s.options.maximumNumberOfFiles - n) n (by omega)
      generalize Journal.checkUnused (s.options.maximumNumberOfFiles - n) n s = r
        at hlike hlocations hiff
      obtain ⟨e | u, s'⟩ := r
      · -- the call is refused
        have hnot : ¬ ∀ l ∈ s.eventLocations, l.fileIndex < n := fun hall => by
          simpa using hiff.2 fun l hl => .inl (hall l hl)
        refine ⟨iff_of_true (fun _ _ hall => absurd hall hnot) ?_, hlike.toLinked⟩
        exact (hlike.indexed h.current).current
      · have hbelow : ∀ l ∈ s.eventLocations, l.fileIndex < n := fun l hl => by
          have := hiff.1 rfl l hl
          have := (h.linked l hl).1
          omega
        refine ⟨⟨fun hk => ?_, fun hlt _ _ _ => ?_⟩, ?_⟩
        · exact hlike.current.trans_lt (hk hn.1 hn.2 hbelow)
        · exact hlike.current.symm.trans_lt hlt
        · exact hlike.toLinked.resize hn fun l hl => hbelow l (hlocations ▸ hl)
  · next hn =>
    exact ⟨iff_of_true (fun h₁ h₂ => absurd ⟨h₁, h₂⟩ hn) h.current, h.toLinked⟩

/-! ### Runs -/

theorem Indexed.valid (h : s.Indexed) : s.FileIndexValid :=
  ⟨h.current, fun l hl => ⟨(h.linked l hl).1, h.toLinked.lock hl⟩,
    fun now event eventTime => (h.addEvent now event eventTime).1⟩

theorem Indexed.event (h : s.Indexed) (c : EventCall) : (c.step s).Indexed := by
  have hstatus : ∀ requestId status, (s.updateEventStatus requestId status).2.Indexed :=
    fun requestId status =>
      (h.toLinked.updateEventStatus requestId status).indexed h.current
  cases c with
  | addEvent now event eventTime => exact (h.addEvent now event eventTime).2
  | eventForwarded requestId => exact hstatus requestId .forwarded
  | eventAcknowledged requestId => exact hstatus requestId .acknowledged
  | eventCompleted requestId => exact hstatus requestId .completed
  | eventFailed requestId => exact hstatus requestId .failed

/-- One call keeps the links, and the range of the current index when it meets its condition. -/
theorem Indexed.step (h : s.Indexed) (c : JournalCall) :
    (c.KeepsIndex s ↔
      (c.step s).currentFileIndex < (c.step s).options.maximumNumberOfFiles) ∧
      (c.step s).Linked := by
  cases c with
  | event c => exact ⟨iff_of_true trivial (h.event c).current, (h.event c).toLinked⟩
  | setMaximumNumberOfFiles n => exact h.setMaximumNumberOfFiles n
  | setMaximumFileSize n =>
    exact ⟨iff_of_true trivial h.current, ⟨h.length, h.linked, h.fresh, h.inj⟩⟩

/-- No file is open in a new journal. -/
theorem getD_replicate_none (n i : ℕ) : (List.replicate n (none : Option ℕ)).getD i none = none := by
  rw [List.getD_eq_getElem?_getD, List.getElem?_replicate]
  split <;> rfl

theorem indexed_construct (options : JournalOptions) (disk : ℕ → Option Bytes)
    (external : ExternalFiles) (now : ℤ) : (construct options disk external now).Indexed := by
  have hempty : Linked
      { options, eventFiles := List.replicate options.maximumNumberOfFiles none, disk, external } :=
    { length := List.length_replicate
      linked := fun l hl => by cases hl
      fresh := fun i p hp => by rw [getD_replicate_none] at hp; cases hp
      inj := fun i j p hp => by rw [getD_replicate_none] at hp; cases hp }
  refine (hempty.loadEventLocations now false).indexed ?_
  change 0 < options.maximumNumberOfFiles
  have := options.numberOfFiles_mem.1
  omega

/-- **The file index stays valid exactly while the maximum number of files stays above it.**  For
every directory and every run of calls: in every state of the run the current file index is less
than the maximum number of files, the files of the live events are reached with their indexes and
`add_event()` does not throw, if and only if each accepted maximum number of files is greater than
the current file index when it is set. -/
theorem fileIndexValid_iff (options : JournalOptions) (disk : ℕ → Option Bytes)
    (external : ExternalFiles) (now : ℤ) (calls : List JournalCall) :
    Run.Always FileIndexValid JournalCall.step (construct options disk external now) calls ↔
      Run.Each JournalCall.KeepsIndex JournalCall.step (construct options disk external now)
        calls := by
  refine Run.always_iff (fun s h => Indexed.valid h) (fun s c h hok => ?_) (fun s c h hvalid => ?_)
    calls _ (indexed_construct options disk external now)
  · obtain ⟨hiff, hlinked⟩ := h.step c
    exact ⟨hlinked, hiff.1 hok⟩
  · exact (h.step c).1.2 hvalid.1

/-! ### A maximum that is not above the current index -/

/-- Three files of 64 KiB, none of them compressed. -/
def threeFiles : JournalOptions where
  compressWhenFull := false
  fileManagement := .keep
  maximumNumberOfFiles := 3
  maximumFileSize := 64 * 1024
  maximumEvents := 4096
  inlineAttachmentSizeThreshold := 16 * 1024
  numberOfFiles_mem := by decide
  fileSize_mem := by decide
  events_mem := by decide
  threshold_mem := by decide

/-- A file that has one event, with four attachments, and no room for another one. -/
def fullFile (requestId : UInt8) : Bytes :=
  journalHeader ++ (eventHeader .ready 1 65528 requestId.toNat 4 ++
    ([49, 16419, 32789, 49159].flatMap (toBytes 4) ++ requestId :: List.replicate 65479 0))

/-- The first two files are full. -/
def fullDisk (index : ℕ) : Option Bytes :=
  if index = 0 then some (fullFile 65) else if index = 1 then some (fullFile 66) else none

theorem length_fullFile (requestId : UInt8) : (fullFile requestId).length = 65536 := by
  rw [fullFile, List.length_append, List.length_append, length_eventHeader, List.length_append,
    List.length_cons, List.length_replicate]
  rfl

/-- The loop on a file that has one event. -/
theorem loadEvents_one (index fuel : ℕ) {now : ℤ} {b : Bytes} (hs : s.content p = b)
    (hvalid : EventFile.Valid now b 8) (hlive : EventFile.Live b 8)
    (hsize : 8 + EventFile.size b 8 = b.length)
    (hcontent : ((s.insertLocation (locationAt b p index 8 8)).countEvent p b.length).content p =
      b) :
    loadEvents now false index p (fuel + 2) s 8 none =
      (s.insertLocation (locationAt b p index 8 8)).countEvent p b.length := by
  have hend : ¬ EventFile.Valid now b b.length := fun h => by have := h.1; omega
  rw [loadEvents, hs, if_pos hvalid, if_pos hlive]
  dsimp only
  rw [loadEvents, hsize, hcontent, if_neg hend]
  rfl

/-- A file that is not open and has one event, with an identifier and a time of its own. -/
theorem loadFile_one (index : ℕ) {now : ℤ} {b : Bytes} (hdisk : s.disk index = some b)
    (hlock : s.lock index = none) (hheader : EventFile.HasHeader b)
    (hvalid : EventFile.Valid now b 8) (hlive : EventFile.Live b 8)
    (hsize : 8 + EventFile.size b 8 = b.length)
    (hid : ∀ e ∈ s.eventLocations, e.requestId ≠ EventFile.requestId b 8)
    (htime : ∀ r ∈ s.timebasedReplay, r.eventTime ≠ EventFile.time b 8) :
    loadFile now false s index = { s with
      files := s.files ++ [{ index, eventCount := 1, nextAppend := b.length }]
      eventFiles := s.eventFiles.set index (some s.files.length)
      eventLocations := s.eventLocations ++ [locationAt b s.files.length index 8 8]
      timebasedReplay := s.timebasedReplay ++ [locationAt b s.files.length index 8 8] } := by
  set l := locationAt b s.files.length index 8 8 with hl
  set opened : Journal := { s with
    files := s.files ++ [{ index }]
    eventFiles := s.eventFiles.set index (some s.files.length) } with hopened
  have hopen : s.openFile index false = (some s.files.length, opened) := by
    rw [openFile, hlock]
    simp only [Bool.false_eq_true, false_and, if_false, hdisk, hopened]
  have hfile : opened.file s.files.length = { index } := by
    simp [file, hopened]
  have hset : opened.setFile s.files.length { opened.file s.files.length with eventCount := 0 } =
      opened := by
    rw [hfile]
    simp [setFile, hopened]
  have hcontent : opened.content s.files.length = b := by
    rw [content, hfile]
    exact congrArg (·.getD []) hdisk
  -- the event is entered in the two maps and replaces nothing there
  have hkept : (s.timebasedReplay.filter fun r => r.eventTime ≠ l.eventTime) = s.timebasedReplay :=
    List.filter_eq_self.2 fun r hr => decide_eq_true (htime r hr)
  have hinsert : opened.insertLocation l = { opened with
      eventLocations := s.eventLocations ++ [l]
      timebasedReplay := s.timebasedReplay ++ [l] } := by
    rw [insertLocation_eq (s := opened) (l := l) hid fun r hr heq => absurd heq (htime r hr)]
    exact congrArg (fun replay => { opened with
      eventLocations := s.eventLocations ++ [l], timebasedReplay := replay ++ [l] }) hkept
  have hcount : (opened.insertLocation l).countEvent s.files.length b.length = { s with
      files := s.files ++ [{ index, eventCount := 1, nextAppend := b.length }]
      eventFiles := s.eventFiles.set index (some s.files.length)
      eventLocations := s.eventLocations ++ [l]
      timebasedReplay := s.timebasedReplay ++ [l] } := by
    rw [hinsert]
    simp [countEvent, setFile, file, hopened]
  have hfuel : b.length = (b.length - 2) + 2 := by have := hvalid.1; omega
  have hloop := loadEvents_one index (b.length - 2) hcontent hvalid hlive hsize
  rw [← hl, hcount, ← hfuel] at hloop
  rw [loadFile, hopen]
  dsimp only
  rw [hset, hcontent, if_pos hheader, hloop]
  · exact drop_of_isOpen (isOpen_of_mem (l := l)
      (List.mem_append_right _ (List.mem_singleton_self l)))
  · simp [content, file, hdisk]

/-- The first two files are read; the third one is not there. -/
theorem construct_fullDisk : construct threeFiles fullDisk ⟨0, fun _ => none⟩ 100 =
    { options := threeFiles
      files := [⟨0, 1, 65536⟩, ⟨1, 1, 65536⟩]
      eventFiles := [some 0, some 1, none]
      eventLocations := [locationAt (fullFile 65) 0 0 8 8, locationAt (fullFile 66) 1 1 8 8]
      timebasedReplay := [locationAt (fullFile 65) 0 0 8 8, locationAt (fullFile 66) 1 1 8 8]
      disk := fullDisk
      external := ⟨0, fun _ => none⟩ } := by
  have hheader : ∀ requestId, EventFile.HasHeader (fullFile requestId) := fun requestId =>
    ⟨by rw [length_fullFile]; omega, rfl⟩
  have hone : ∀ requestId ∈ [65, 66], EventFile.Valid 100 (fullFile requestId) 8 ∧
      EventFile.Live (fullFile requestId) 8 ∧
      8 + EventFile.size (fullFile requestId) 8 = (fullFile requestId).length := by
    -- the length is a lemma: it is not counted again for each field that is read
    simp only [EventFile.Valid, length_fullFile]
    decide +kernel
  obtain ⟨hvalid, hlive, hsize⟩ := hone 65 (by decide)
  obtain ⟨hvalid', hlive', hsize'⟩ := hone 66 (by decide)
  have hfirst := loadFile_one (s := ⟨threeFiles, false, 0, [], [none, none, none], [], [], fullDisk,
    ⟨0, fun _ => none⟩⟩) 0 rfl rfl (hheader 65) hvalid hlive hsize (by simp) (by simp)
  have hsecond := loadFile_one (s := ⟨threeFiles, false, 0, [⟨0, 1, (fullFile 65).length⟩],
    [some 0, none, none], [locationAt (fullFile 65) 0 0 8 8], [locationAt (fullFile 65) 0 0 8 8],
    fullDisk, ⟨0, fun _ => none⟩⟩) 1 rfl rfl (hheader 66) hvalid' hlive' hsize'
    (by decide) (by decide)
  have hthird : ∀ s : Journal, s.disk 2 = none → s.lock 2 = none →
      loadFile 100 false s 2 = s := by
    intro s hdisk hlock
    simp only [loadFile, openFile, hlock, hdisk, Bool.false_eq_true, false_and, if_false]
  have hrange : List.range threeFiles.maximumNumberOfFiles = [0, 1, 2] := rfl
  have hnone : List.replicate threeFiles.maximumNumberOfFiles (none : Option ℕ) =
      [none, none, none] := rfl
  unfold construct loadEventLocations
  dsimp only [dropAll, List.foldl_nil]
  rw [hrange, hnone, List.foldl_cons, List.foldl_cons, List.foldl_cons, List.foldl_nil, hfirst]
  dsimp only [List.nil_append, List.length_nil, List.set_cons_zero]
  rw [hsecond]
  dsimp only [List.cons_append, List.nil_append, List.length_cons, List.length_nil,
    List.set_cons_zero, List.set_cons_succ]
  rw [hthird _ rfl rfl]
  simp only [length_fullFile]

/-- The third file is used, its event completed, and the maximum reduced to two. -/
theorem not_fileIndexValid : ¬ ∀ options disk external now calls,
    Run.Always FileIndexValid JournalCall.step (construct options disk external now) calls := by
  intro h
  have hrun := h threeFiles fullDisk ⟨0, fun _ => none⟩ 100
    [.event (.addEvent 100 ⟨[67], [], by decide⟩ 90), .event (.eventCompleted [67]),
      .setMaximumNumberOfFiles 2]
  rw [construct_fullDisk] at hrun
  exact absurd hrun.2.2.2.1 (by decide)

end Journal

end Prinbee
