import Prinbee.Journal.Objects

/-!
# The size of the files of a journal

`add_event()` takes a file whose next append offset and the size of the event are together less
than the maximum file size.  A file that has no header yet has the offset 0, and `write_new_event()`
writes the 8 bytes of the header before the event: these bytes are in no test.

## Main definitions

* `Journal.SizeBounded` — no next append offset exceeds the maximum.
* `EventCall.FitsNewFile` — a file with nothing but its header has room for the event.

## Main results

* `Journal.sizeBounded_iff` — the offsets stay within the maximum exactly when each event leaves room
  for the header of a file.
-/

namespace Prinbee

namespace Journal

variable {s s' : Journal} {o : JournalOptions} {x : ExternalFiles}

/-- No next append offset of a file of the journal is past the maximum size of a file. -/
def SizeBounded (s : Journal) : Prop :=
  ∀ index p, s.lock index = some p → (s.file p).nextAppend ≤ s.options.maximumFileSize

theorem Bounded.sizeBounded (h : s.Bounded o x (some o.maximumFileSize)) : s.SizeBounded := by
  intro index p _
  rw [h.options]
  exact (h.file p).1 o.maximumFileSize rfl

/-- The bound holds after an event was written exactly when a file with nothing but its header has
room for the event: all other files have their header in the offset that was tested. -/
theorem Written.fits_iff {event : InEvent} (h : Written o x (some o.maximumFileSize) event s') :
    (SizeBounded s' → 8 + (baseSize event +
        (inlineData o.inlineAttachmentSizeThreshold event).length) ≤ o.maximumFileSize) ∧
      (8 + (baseSize event +
        (inlineData o.inlineAttachmentSizeThreshold event).length) ≤ o.maximumFileSize →
        ∃ x', s'.Bounded o x' (some o.maximumFileSize)) := by
  obtain ⟨s, p, i, time, hs, hp, hthere, hroom, rfl⟩ := h.exists_file
  have hsize : s.eventSize event =
      baseSize event + (inlineData o.inlineAttachmentSizeThreshold event).length := by
    rw [eventSize, hs.options]
  obtain ⟨hlock, hoptions, hoffset, -⟩ := hs.toRegistered.writeNewEvent hp event time
  rw [hasRoom, decide_eq_true_eq, hs.options] at hroom
  rw [← hsize]
  refine ⟨fun hbounded => ?_, fun hfits => ?_⟩
  · have hle := hbounded i p hlock
    rw [hoffset, hoptions, hs.options] at hle
    have hfile := (hs.file p).2
    split at hle <;> omega
  · refine ⟨_, hs.writeNewEvent hp hthere event time ?_⟩
    rintro _ ⟨⟩
    split <;> omega

end Journal

namespace EventCall

/-- A file that has nothing but its header has room for the event. -/
def FitsNewFile (o : JournalOptions) : EventCall → Prop
  | addEvent _ event _ => 8 + (Journal.baseSize event +
      (Journal.inlineData o.inlineAttachmentSizeThreshold event).length) ≤ o.maximumFileSize
  | _ => True

/-- An event that is added is accepted. -/
def Succeeds (s : Journal) : EventCall → Prop
  | addEvent now event eventTime => (s.addEvent now event eventTime).1 = .ok true
  | _ => True

end EventCall

namespace Journal

/-! ### Runs -/

/-- The offsets and the bytes of the files are within the maximum size of a file. -/
def Capped (o : JournalOptions) (s : Journal) : Prop := ∃ x, s.Bounded o x (some o.maximumFileSize)

variable {s : Journal} {o : JournalOptions}

theorem Capped.status (h : s.Capped o) (requestId : Bytes) (status : Status) :
    (s.updateEventStatus requestId status).2.Capped o := by
  obtain ⟨x, h⟩ := h
  exact ⟨x, h.updateEventStatus requestId status⟩

/-- One call: it keeps the bound when its event, if it is accepted, fits in a new file, and only
then. -/
theorem Capped.step (h : s.Capped o) (c : EventCall) :
    ((c.Succeeds s → c.FitsNewFile o) → (c.step s).Capped o) ∧
      ((c.step s).SizeBounded → c.Succeeds s → c.FitsNewFile o) := by
  cases c with
  | addEvent now event eventTime =>
    obtain ⟨x, h⟩ := h
    obtain ⟨hfailed, hbounded⟩ | ⟨hadded, hwritten⟩ := h.addEvent now event eventTime
    · exact ⟨fun _ => ⟨x, hbounded⟩, fun _ hsucceeds => absurd hsucceeds hfailed⟩
    · exact ⟨fun hfits => hwritten.fits_iff.2 (hfits hadded),
        fun hbounded _ => hwritten.fits_iff.1 hbounded⟩
  | eventForwarded requestId => exact ⟨fun _ => h.status requestId .forwarded, fun _ _ => trivial⟩
  | eventAcknowledged requestId =>
    exact ⟨fun _ => h.status requestId .acknowledged, fun _ _ => trivial⟩
  | eventCompleted requestId => exact ⟨fun _ => h.status requestId .completed, fun _ _ => trivial⟩
  | eventFailed requestId => exact ⟨fun _ => h.status requestId .failed, fun _ _ => trivial⟩

theorem capped_construct (options : JournalOptions) {disk : ℕ → Option Bytes}
    (external : ExternalFiles) (now : ℤ)
    (hdisk : ∀ i b, disk i = some b → b.length ≤ options.maximumFileSize) :
    (construct options disk external now).Capped options := by
  refine ⟨external, bounded_construct options external now ?_ fun i b hb => ?_⟩
  · rintro _ ⟨⟩
    exact options.fileSize_mem.1
  · rintro _ ⟨⟩
    exact hdisk i b hb

/-- **The next append offsets stay within the maximum exactly when each event leaves room for the
header of a file.**  For every directory whose files are within the maximum size and every run of
calls in which each event that is added is accepted. -/
theorem sizeBounded_iff (options : JournalOptions) (disk : ℕ → Option Bytes)
    (external : ExternalFiles) (now : ℤ) (calls : List EventCall)
    (hdisk : ∀ i b, disk i = some b → b.length ≤ options.maximumFileSize)
    (hcalls : Run.Each EventCall.Succeeds EventCall.step (construct options disk external now)
      calls) :
    Run.Always SizeBounded EventCall.step (construct options disk external now) calls ↔
      ∀ c ∈ calls, c.FitsNewFile options := by
  have hrun := Run.always_iff
    (fun (s : Journal) (h : s.Capped options) => h.elim fun x h => h.sizeBounded)
    (fun s c h hok => (h.step c).1 hok) (fun s c h hbounded => (h.step c).2 hbounded) calls _
    (capped_construct options external now hdisk)
  rw [hrun, ← Run.each_const _ EventCall.step _ (construct options disk external now)]
  constructor
  · intro hfits
    exact (hfits.and hcalls).mono fun s c h => h.1 h.2
  · intro hfits
    refine Run.Each.mono (fun s c h _ => ?_) hfits
    exact h

theorem sizeBounded_iff_small :
    Run.Always SizeBounded EventCall.step
        (construct threeFiles (fun _ => none) ⟨0, fun _ => none⟩ 100)
        [.addEvent 100 ⟨[65], [[1, 2]], by decide⟩ 90] ↔
      ∀ c ∈ [EventCall.addEvent 100 ⟨[65], [[1, 2]], by decide⟩ 90], c.FitsNewFile threeFiles := by
  refine sizeBounded_iff threeFiles (fun _ => none) ⟨0, fun _ => none⟩ 100
    [.addEvent 100 ⟨[65], [[1, 2]], by decide⟩ 90] (fun i b hb => by cases hb) ⟨?_, trivial⟩
  change (addEvent _ _ _ _).1 = _
  decide

/-- An event that is written without a compression. -/
theorem addEvent_of_tried {now : ℤ} {event : InEvent} {eventTime : ℤ} {r : Bool} {s' : Journal}
    (hrefuses : s.refuses now event eventTime = false)
    (htry : Journal.tryFiles event (s.savedTime eventTime) s.options.maximumNumberOfFiles s =
      (.ok (some r), s')) : s.addEvent now event eventTime = (.ok r, s') := by
  rw [Journal.addEvent, hrefuses, if_neg Bool.false_ne_true]
  dsimp only
  rw [htry]

/-- An event that takes a whole file but three bytes. -/
def wideEvent : InEvent := ⟨[65], List.replicate 4 (List.replicate 16371 0), by decide⟩

theorem size_wideEvent : baseSize wideEvent +
    (inlineData threeFiles.inlineAttachmentSizeThreshold wideEvent).length = 65533 := by
  have hinline : ∀ n < 16 * 1024, ∀ hcount, (inlineData (16 * 1024)
      ⟨[65], List.replicate 4 (List.replicate n 0), hcount⟩).length = 4 * n := by
    intro n hn hcount
    rw [inlineData, List.filter_replicate, List.length_replicate, if_pos (decide_eq_true hn),
      List.flatten_replicate_replicate, List.length_replicate]
  have hlength : (inlineData threeFiles.inlineAttachmentSizeThreshold wideEvent).length = 65484 :=
    hinline 16371 (by decide) wideEvent.count_le
  have hbase : baseSize wideEvent = 49 := by decide
  rw [hlength, hbase]

/-- A journal in an empty directory. -/
def emptyJournal : Journal := construct threeFiles (fun _ => none) ⟨0, fun _ => none⟩ 100

/-- The event is accepted in an empty file. -/
theorem addEvent_wideEvent : (emptyJournal.addEvent 100 wideEvent 90).1 = .ok true := by
  set s₁ := (emptyJournal.openFile 0 true).2
  have hroom : s₁.hasRoom 0 (s₁.eventSize wideEvent) = true := by
    have hsize : s₁.eventSize wideEvent = 65533 := size_wideEvent
    rw [hsize]
    decide
  have hrefuses : emptyJournal.refuses 100 wideEvent 90 = false := by decide
  have hget : emptyJournal.getEventFile emptyJournal.currentFileIndex true =
      (.ok (some 0), s₁) := rfl
  have htry : ∀ time, Journal.tryFiles wideEvent time (2 + 1) emptyJournal =
      (.ok (some true), s₁.writeNewEvent 0 wideEvent time) := by
    intro time
    rw [Journal.tryFiles, hget]
    dsimp only
    rw [if_pos hroom]
  exact congrArg Prod.fst (addEvent_of_tried hrefuses (htry (emptyJournal.savedTime 90)))

/-- The file gets its header before the event. -/
theorem not_sizeBounded : ¬ ∀ (options : JournalOptions) (disk : ℕ → Option Bytes)
    (external : ExternalFiles) (now : ℤ) (calls : List EventCall),
    (∀ i b, disk i = some b → b.length ≤ options.maximumFileSize) →
    Run.Each EventCall.Succeeds EventCall.step (construct options disk external now) calls →
      Run.Always SizeBounded EventCall.step (construct options disk external now) calls := by
  intro h
  have hempty : ∀ (i : ℕ) (b : Bytes), (fun _ => none : ℕ → Option Bytes) i = some b →
      b.length ≤ threeFiles.maximumFileSize := fun i b hb => by cases hb
  have hcapped : emptyJournal.Capped threeFiles :=
    capped_construct threeFiles ⟨0, fun _ => none⟩ 100 hempty
  have hrun : Run.Always SizeBounded EventCall.step emptyJournal [.addEvent 100 wideEvent 90] :=
    h threeFiles _ ⟨0, fun _ => none⟩ 100 _ hempty ⟨addEvent_wideEvent, trivial⟩
  have hfits := (hcapped.step (.addEvent 100 wideEvent 90)).2 hrun.2.head addEvent_wideEvent
  rw [EventCall.FitsNewFile, size_wideEvent] at hfits
  exact absurd hfits (by decide)

end Journal

end Prinbee
