import Prinbee.Journal.Compaction

/-!
# The index of a journal in every run

Adding events and changing their status keep the two maps, the counters and the extents in step, as
long as a compression finds the live events of the journal and no other in its files.  It does not
where the chain of headers is broken before a live event, nor where the copy of an event that was
moved down is still there.

## Main definitions

* `EventCall.Safe` — what a run needs of each of its calls.

## Main results

* `Journal.indexConsistent_run` — the index is consistent in every state of a run.
* `Journal.not_indexConsistent` — a live event is lost from one of the maps.
-/

namespace Prinbee

/-- The time of an event that is added has room for one step for each event, and when the files have
to be compressed, the live headers in them are those of the live events. -/
def EventCall.Safe (s : Journal) : EventCall → Prop
  | addEvent now event eventTime => s.refuses now event eventTime = false →
    Timespec.Fits eventTime ∧ Timespec.Fits (eventTime + s.timebasedReplay.length) ∧
      (s.options.compressWhenFull = true → s.canBeCompressed = true →
        s.Full (s.eventSize event) → s.Scannable now)
  | _ => True

namespace Journal

variable {s s' : Journal}

theorem fits_between {t u v : ℤ} (ht : Timespec.Fits t) (hv : Timespec.Fits v) (htu : t ≤ u)
    (huv : u ≤ v) : Timespec.Fits u := by
  unfold Timespec.Fits at *
  omega

/-- What `add_event()` has checked of an event that it does not refuse. -/
theorem refuses_eq_false {now : ℤ} {event : InEvent} {eventTime : ℤ}
    (h : s.refuses now event eventTime = false) :
    (∀ m ∈ s.eventLocations, m.requestId ≠ event.requestId) ∧ event.requestId ≠ [] ∧
      event.requestId.length ≤ 255 := by
  simp only [refuses, Bool.or_eq_false_iff, List.any_eq_false, decide_eq_false_iff_not] at h
  obtain ⟨⟨⟨hid, -⟩, hnil⟩, hlen⟩ := h
  exact ⟨fun m hm heq => hid m hm (decide_eq_true heq), List.isEmpty_eq_false_iff.1 hnil, by omega⟩

/-- The journal that `add_event()` looks for room in the last time: as it was, or compressed. -/
inductive Compressed (now : ℤ) (s : Journal) : Journal → Prop
  | no : Compressed now s s
  | once {s₁ : Journal} (ht : Tried s s₁) (hs : s₁.Scannable now)
      (hcurrent : s₁.currentFileIndex < s₁.options.maximumNumberOfFiles) :
      Compressed now s (s₁.loadEventLocations now true)

section Compressed

variable {now : ℤ} {s₀ : Journal}

theorem Compressed.sound (hc : Compressed now s s₀) (h : s.Sound) : s₀.Sound := by
  cases hc with
  | no => exact h
  | once ht hs _ => exact (ht.sound.loadEventLocations hs true).1

/-- Each live event was there before. -/
theorem Compressed.exists_old (hc : Compressed now s s₀) {m : Location}
    (hm : m ∈ s₀.eventLocations) :
    ∃ l ∈ s.eventLocations, m.requestId = l.requestId ∧ m.eventTime = l.eventTime := by
  cases hc with
  | no => exact ⟨m, hm, rfl, rfl⟩
  | once ht hs _ =>
    obtain ⟨-, ⟨olds, hperm, hsame⟩, -⟩ := ht.sound.loadEventLocations hs true
    obtain ⟨l, hl, heq, -⟩ := exists_of_mem_right hsame hm
    rw [← ht.eventLocations]
    exact ⟨l, hperm.mem_iff.1 hl, by rw [heq], by rw [heq]⟩

/-- A new event is still new. -/
theorem Compressed.new (hc : Compressed now s s₀) (h : s.Sound) {s' : Journal} (ht : Tried s₀ s')
    {requestId : Bytes} {time : ℤ} (hid : ∀ m ∈ s.eventLocations, m.requestId ≠ requestId)
    (htime : ∀ m ∈ s.timebasedReplay, m.eventTime ≠ time) :
    (∀ m ∈ s'.eventLocations, m.requestId ≠ requestId) ∧
      ∀ m ∈ s'.timebasedReplay, m.eventTime ≠ time := by
  constructor
  · rw [ht.eventLocations]
    intro m hm
    obtain ⟨l, hl, hidEq, -⟩ := hc.exists_old hm
    rw [hidEq]
    exact hid l hl
  · rw [ht.timebasedReplay]
    intro m hm
    obtain ⟨l, hl, -, htimeEq⟩ := hc.exists_old (((hc.sound h).locations m).2 hm)
    rw [htimeEq]
    exact htime l ((h.locations l).1 hl)

end Compressed

/-- **What `add_event()` can do**: refuse the event, find no room for it, or write it in a file with
room, once the files were compressed or without that. -/
theorem Sound.addEvent_cases (h : s.Sound)
    (hcurrent : s.currentFileIndex < s.options.maximumNumberOfFiles) {now : ℤ} {event : InEvent}
    {eventTime : ℤ} (hsafe : EventCall.Safe s (.addEvent now event eventTime)) :
    s.addEvent now event eventTime = (.ok false, s) ∨
    s.refuses now event eventTime = false ∧ ∃ s₀, Compressed now s s₀ ∧
      ((∃ s', Tried s₀ s' ∧ s.addEvent now event eventTime = (.ok false, s')) ∨
      ∃ s' p s₁, Tried s₀ s' ∧ s'.currentFileIndex < s'.options.maximumNumberOfFiles ∧
        s'.openFile s'.currentFileIndex true = (some p, s₁) ∧
        s₁.hasRoom p (s₁.eventSize event) = true ∧
        s.addEvent now event eventTime =
          (.ok true, s₁.writeNewEvent p event (s.savedTime eventTime))) := by
  unfold Journal.addEvent
  cases hrefuses : s.refuses now event eventTime with
  | true => exact .inl rfl
  | false =>
    obtain ⟨-, -, hscan⟩ := hsafe hrefuses
    rw [if_neg Bool.false_ne_true]
    dsimp only
    refine .inr ⟨rfl, ?_⟩
    rcases h.tryFiles hcurrent event (s.savedTime eventTime) s.options.maximumNumberOfFiles with
      ⟨s₁, heq, htried, hcurrent₁, hroom⟩ | ⟨s', p, s₁, htried, hcurrent', ho, hroom, heq⟩
    · -- no file has room
      rw [heq]
      dsimp only
      split
      · next hcompress =>
        obtain ⟨hwhenFull, hcan⟩ := Bool.and_eq_true_iff.1 hcompress
        have hscan₁ := htried.scannable (hscan hwhenFull hcan (full_of_roomAt hcurrent hroom))
        obtain ⟨hloaded, -, hoptions, -, hcur⟩ := htried.sound.loadEventLocations hscan₁ true
        refine ⟨_, .once htried hscan₁ hcurrent₁, ?_⟩
        rcases hloaded.tryFiles (by rw [hcur, hoptions]; exact hcurrent₁) event
          (s.savedTime eventTime) (s₁.loadEventLocations now true).options.maximumNumberOfFiles with
          ⟨s₂, heq', htried', -, -⟩ | ⟨s', p, s₂, htried', hcurrent', ho, hroom', heq'⟩
        · rw [heq']
          exact .inl ⟨s₂, htried', rfl⟩
        · rw [heq']
          exact .inr ⟨s', p, s₂, htried', hcurrent', ho, hroom', rfl⟩
      · exact ⟨s, .no, .inl ⟨s₁, htried, rfl⟩⟩
    · rw [heq]
      exact ⟨s, .no, .inr ⟨s', p, s₁, htried, hcurrent', ho, hroom, rfl⟩⟩

/-- The time under which a new event is saved has 64-bit seconds. -/
theorem fits_savedTime {now : ℤ} {event : InEvent} {eventTime : ℤ}
    (hsafe : EventCall.Safe s (.addEvent now event eventTime))
    (hrefuses : s.refuses now event eventTime = false) : Timespec.Fits (s.savedTime eventTime) := by
  obtain ⟨hfits, hfits', -⟩ := hsafe hrefuses
  obtain ⟨-, hle, hle'⟩ := s.savedTime_spec eventTime
  exact fits_between hfits hfits' hle hle'

theorem Sound.addEvent (h : s.Sound) (hcurrent : s.currentFileIndex < s.options.maximumNumberOfFiles)
    {now : ℤ} {event : InEvent} {eventTime : ℤ}
    (hsafe : EventCall.Safe s (.addEvent now event eventTime)) :
    (s.addEvent now event eventTime).2.Sound := by
  rcases h.addEvent_cases hcurrent hsafe with
    heq | ⟨hrefuses, s₀, hc, ⟨s', ht, heq⟩ | ⟨s', p, s₁, ht, hcurrent', ho, hroom, heq⟩⟩
  · rw [heq]
    exact h
  · rw [heq]
    exact ht.sound
  · obtain ⟨hid, -, hidLen⟩ := refuses_eq_false hrefuses
    obtain ⟨hid', htime'⟩ := hc.new h ht hid (s.savedTime_spec eventTime).1
    rw [heq]
    exact ht.sound.writeNewEvent hcurrent' ho hroom hid' hidLen htime' (fits_savedTime hsafe hrefuses)

/-- One call keeps the journal sound. -/
theorem Sound.event (h : s.Sound) (hcurrent : s.currentFileIndex < s.options.maximumNumberOfFiles)
    {c : EventCall} (hsafe : c.Safe s) : (c.step s).Sound := by
  cases c with
  | addEvent now event eventTime => exact h.addEvent hcurrent hsafe
  | eventForwarded requestId => exact h.updateEventStatus requestId .forwarded
  | eventAcknowledged requestId => exact h.updateEventStatus requestId .acknowledged
  | eventCompleted requestId => exact h.updateEventStatus requestId .completed
  | eventFailed requestId => exact h.updateEventStatus requestId .failed

/-- A journal that has not read its directory yet. -/
theorem sound_empty (options : JournalOptions) (external : ExternalFiles) : Sound
    { options, eventFiles := List.replicate options.maximumNumberOfFiles none
      disk := fun _ => none, external } where
  length := List.length_replicate
  linked l hl := by cases hl
  fresh i p hp := by rw [getD_replicate_none] at hp; cases hp
  inj i j p hp := by rw [getD_replicate_none] at hp; cases hp
  locations l := Iff.rfl
  ids := List.nodup_nil
  times := List.nodup_nil
  counts p hp := by cases hp
  disjoint l hl := by cases hl
  below l hl := by cases hl
  index l hl := by cases hl
  stored l hl := by cases hl

/-- A journal in an empty directory. -/
theorem sound_construct (options : JournalOptions) (external : ExternalFiles) (now : ℤ) :
    (construct options (fun _ => none) external now).Sound :=
  ((sound_empty options external).loadEventLocations (fun _ _ b hb => by cases hb) false).1

/-- **The index of a journal is consistent** in every state of a run from an empty directory whose
calls are safe. -/
theorem indexConsistent_run (options : JournalOptions) (external : ExternalFiles) (now : ℤ)
    (calls : List EventCall)
    (h : Run.Each EventCall.Safe EventCall.step (construct options (fun _ => none) external now)
      calls) :
    Run.Always IndexConsistent EventCall.step (construct options (fun _ => none) external now)
      calls :=
  Run.always
    (fun s (hs : s.Sound ∧ s.currentFileIndex < s.options.maximumNumberOfFiles) =>
      hs.1.toIndexConsistent)
    (fun _ c hs hsafe =>
      ⟨hs.1.event hs.2 hsafe, (Indexed.event ⟨hs.1.toLinked, hs.2⟩ c).current⟩)
    calls _ ⟨sound_construct options external now, (indexed_construct options _ external now).current⟩
    h

/-- Two files of 64 KiB that are compressed when they are full. -/
def twoFiles : JournalOptions :=
  { threeFiles with
    compressWhenFull := true
    maximumNumberOfFiles := 2
    numberOfFiles_mem := by decide }

/-- An event is added, completed and another one is added. -/
theorem indexConsistent_run_two : Run.Always IndexConsistent EventCall.step
    (construct twoFiles (fun _ => none) ⟨0, fun _ => none⟩ 100)
    [.addEvent 100 ⟨[65], [[1, 2]], by decide⟩ 90, .eventCompleted [65],
      .addEvent 100 ⟨[66], [], by decide⟩ 90] := by
  refine indexConsistent_run twoFiles ⟨0, fun _ => none⟩ 100 _ ⟨fun _ => ⟨?_, ?_, ?_⟩, trivial,
    fun _ => ⟨?_, ?_, ?_⟩, trivial⟩
  · unfold Timespec.Fits; decide
  · unfold Timespec.Fits; decide
  · exact fun _ hcan => absurd hcan (by decide)
  · unfold Timespec.Fits; decide
  · unfold Timespec.Fits; decide
  · -- there is room in the first file
    exact fun _ _ hfull => absurd (hfull 0 (by decide)) (by decide)

/-! ### A compression that loses an event -/

/-- Go to the next file, `count` times. -/
def skipFiles : ℕ → Journal → Journal
  | 0, s => s
  | count + 1, s =>
    match s.getEventFile s.currentFileIndex true with
    | (.ok (some p), s) => skipFiles count (s.nextFile.drop p)
    | (_, s) => s

/-- No file has room for an event that is larger than a file. -/
theorem tryFiles_of_too_large (h : s.Indexed) (event : InEvent)
    (hsize : s.options.maximumFileSize ≤ s.eventSize event) (time : ℤ) (count : ℕ) :
    Journal.tryFiles event time count s = (.ok none, skipFiles count s) := by
  induction count generalizing s with
  | zero => rfl
  | succ count ih =>
    have hcurrent := h.current
    have hlike := (h.toLinked.openFile hcurrent true).1
    obtain ⟨p, s₁, ho⟩ : ∃ p s₁, s.openFile s.currentFileIndex true = (some p, s₁) := by
      obtain ⟨p, -, heq⟩ | ⟨-, -, hcreate, -⟩ | ⟨-, b, -, heq⟩ :=
        s.openFile_cases s.currentFileIndex true
      · exact ⟨p, s, heq⟩
      · cases hcreate
      · exact ⟨_, _, heq⟩
    rw [ho] at hlike
    have hoptions : s₁.options = s.options := hlike.options
    have hsize₁ : s₁.options.maximumFileSize ≤ s₁.eventSize event := by
      rwa [eventSize, hoptions]
    have hroom : s₁.hasRoom p (s₁.eventSize event) = false := by
      rw [Journal.hasRoom, decide_eq_false_iff_not]
      omega
    have hnext := (hlike.indexed hcurrent).nextFile
    have hdrop := hnext.toLinked.drop p
    rw [Journal.tryFiles, skipFiles, getEventFile, if_neg (by omega), ho]
    dsimp only
    rw [hroom, if_neg Bool.false_ne_true]
    refine ih (hdrop.indexed hnext.current) ?_
    rw [eventSize, hdrop.options]
    exact hsize₁

/-- No file has room for it after a compression either. -/
theorem tryFiles_of_too_large_loaded (h : s.Indexed) (event : InEvent)
    (hsize : s.options.maximumFileSize ≤ s.eventSize event) (now time : ℤ) :
    let s₁ := (skipFiles s.options.maximumNumberOfFiles s).loadEventLocations now true
    Journal.tryFiles event time s₁.options.maximumNumberOfFiles s₁ =
      (.ok none, skipFiles s₁.options.maximumNumberOfFiles s₁) := by
  intro s₁
  obtain ⟨-, hskipped, hoptions⟩ := h.tryFiles event time s.options.maximumNumberOfFiles
  rw [tryFiles_of_too_large h event hsize] at hskipped hoptions
  have hload := hskipped.toLinked.loadEventLocations now true
  refine tryFiles_of_too_large (hload.indexed hskipped.current) event ?_ time _
  rw [eventSize, hload.options, hoptions]
  exact hsize

/-- Adding an event that is larger than a file compresses the files for nothing. -/
theorem addEvent_of_too_large (h : s.Indexed) {now : ℤ} {event : InEvent} {eventTime : ℤ}
    (hsize : s.options.maximumFileSize ≤ s.eventSize event)
    (hrefuses : s.refuses now event eventTime = false)
    (hcompress : (s.options.compressWhenFull && s.canBeCompressed) = true) :
    s.addEvent now event eventTime =
      let s₁ := (skipFiles s.options.maximumNumberOfFiles s).loadEventLocations now true
      (.ok false, skipFiles s₁.options.maximumNumberOfFiles s₁) := by
  have htry := tryFiles_of_too_large h event hsize (s.savedTime eventTime)
    s.options.maximumNumberOfFiles
  have htry' := tryFiles_of_too_large_loaded h event hsize now (s.savedTime eventTime)
  rw [Journal.addEvent, hrefuses, if_neg Bool.false_ne_true]
  dsimp only
  rw [htry]
  dsimp only
  rw [hcompress, if_pos rfl, htry']
  rfl

/-- An event with five attachments that does not fit in a file. -/
def largeEvent : InEvent := ⟨[67], List.replicate 5 (List.replicate 13107 0), by decide⟩

theorem eventSize_largeEvent (h : s.options = twoFiles) :
    s.options.maximumFileSize ≤ s.eventSize largeEvent := by
  have hinline : ∀ n : ℕ, (inlineData (16 * 1024)
      ⟨[67], List.replicate 5 (List.replicate n 0), by simp⟩).length =
        if n < 16 * 1024 then 5 * n else 0 := by
    intro n
    rw [inlineData, List.filter_replicate, List.length_replicate]
    split
    · next hn => rw [if_pos (of_decide_eq_true hn), List.flatten_replicate_replicate,
        List.length_replicate]
    · next hn => rw [if_neg (fun hlt => hn (decide_eq_true hlt))]; rfl
  rw [eventSize, h]
  refine (?_ : 64 * 1024 ≤ 5 * 13107 + 1).trans ?_
  · decide
  · exact (Nat.add_comm ..).trans_le (Nat.add_le_add (by rw [baseSize]; decide)
      (le_of_le_of_eq (by decide) (hinline 13107).symm))

/-- The calls before the compression: the first of two events without attachments is completed. -/
def twoEvents : List EventCall :=
  [.addEvent 100 ⟨[65], [], by decide⟩ 90, .addEvent 100 ⟨[66], [], by decide⟩ 91,
    .eventCompleted [65]]

/-- The compression stops at an event without attachments: the second event is live, is not in the
map by identifier any more and still in the map by time. -/
theorem not_indexConsistent : ¬ ∀ options external now calls,
    Run.Always IndexConsistent EventCall.step (construct options (fun _ => none) external now)
      calls := by
  intro h
  have hindexed : (twoEvents.foldl EventCall.step
      (construct twoFiles (fun _ => none) ⟨0, fun _ => none⟩ 100)).Indexed := by
    have hstart := indexed_construct twoFiles (fun _ => none) ⟨0, fun _ => none⟩ 100
    exact ((hstart.event _).event _).event _
  have hoptions : (twoEvents.foldl EventCall.step
      (construct twoFiles (fun _ => none) ⟨0, fun _ => none⟩ 100)).options = twoFiles := rfl
  have hlost := (h twoFiles ⟨0, fun _ => none⟩ 100
    (twoEvents ++ [.addEvent 100 largeEvent 92])).foldl
  rw [List.foldl_append, List.foldl_cons, List.foldl_nil, EventCall.step, EventCall.run,
    addEvent_of_too_large hindexed (eventSize_largeEvent hoptions) (by decide)
      (by decide)] at hlost
  exact absurd (fun l hl => (hlost.locations l).2 hl) (by decide +kernel)

end Journal

end Prinbee
