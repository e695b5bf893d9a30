import Prinbee.Journal.EventRecord
import Prinbee.Journal.Replay

/-!
# The events of a journal as its clients see them

`location::read_data()` reads the offsets of the attachments of an event and goes from one to the
next.  The offsets that `write_new_event()` writes never lead it out of the event, so the attachments
are the same wherever the bytes of the event are.

## Main definitions

* `Journal.events` — the live events with their times, statuses and attachments.
* `Journal.AttachmentsWithin` — offsets that do not lead out of the event.
* `Journal.Intact` — the offsets of the live events do not.

## Main results

* `Journal.attachmentsWithin_placed` — those that are written do not.
* `Journal.outEvent_eq` — an event whose bytes are elsewhere.
-/

namespace Prinbee

open UInt512 (ofBytes toBytes)

namespace EventFile

/-- The offsets of the attachments of an event in a file. -/
def attachmentOffsets (b : Bytes) (offset count : ℕ) : List ℕ :=
  (List.range count).map fun i => ofBytes (b.slice (offset + 32 + 4 * i) 4)

theorem attachmentOffsets_eq {b b' : Bytes} {offset offset' count n : ℕ}
    (hs : b'.slice offset' n = b.slice offset n) (hn : 32 + 4 * count ≤ n) :
    attachmentOffsets b' offset' count = attachmentOffsets b offset count := by
  refine List.map_congr_left fun i hi => congrArg ofBytes ?_
  have hlt := List.mem_range.1 hi
  rw [Nat.add_assoc, Nat.add_assoc]
  exact slice_eq_of_slice hs (by omega)

end EventFile

namespace Journal

/-- The live events. -/
def events (s : Journal) : Set OutEvent := {e | ∃ l ∈ s.eventLocations, Replay.outEvent s l = e}

/-- The size that the reader gives to the inline attachment at `o`, when `os` are the offsets of the
attachments behind it. -/
def inlineSize (size o : ℕ) (os : List ℕ) : ℕ :=
  match os.find? (· < 2 ^ 31) with
  | some next => sub32 next o
  | none => sub32 size o

/-- The inline attachments at these offsets are in an event of that size. -/
def AttachmentsWithin (size : ℕ) : List ℕ → Prop
  | [] => True
  | o :: os => (o < 2 ^ 31 → o + inlineSize size o os ≤ size) ∧ AttachmentsWithin size os

/-- The attachments of the live events are in their bytes. -/
def Intact (s : Journal) (ls : List Location) : Prop :=
  ∀ l ∈ ls, ∀ b, s.disk l.fileIndex = some b →
    AttachmentsWithin l.size (EventFile.attachmentOffsets b l.offset l.attachmentCount)

variable {s s' : Journal} {l m : Location}

/-- A journal without live events does not have those of one that has some. -/
theorem events_ne (h' : s'.eventLocations.isEmpty = true) (h : s.eventLocations.isEmpty = false) :
    s'.events ≠ s.events := by
  intro heq
  obtain ⟨l, hl⟩ := List.isEmpty_eq_false_iff_exists_mem.1 h
  have hmem : Replay.outEvent s l ∈ s.events := ⟨l, hl, rfl⟩
  rw [← heq] at hmem
  obtain ⟨m, hm, -⟩ := hmem
  rw [List.isEmpty_iff.1 h'] at hm
  cases hm

/-! ### Reading from the bytes of the event -/

theorem readAttachments_eq (hsize : m.size = l.size) (hexternal : s'.external = s.external)
    (hslice : (s'.content m.file).slice m.offset l.size = (s.content l.file).slice l.offset l.size)
    {os : List ℕ} (h : AttachmentsWithin l.size os) :
    s'.readAttachments m os = s.readAttachments l os := by
  induction os with
  | nil => rfl
  | cons o os ih =>
    obtain ⟨hwithin, hrest⟩ := h
    rw [readAttachments, readAttachments, ih hrest, hexternal, hsize]
    refine congrArg (· :: s.readAttachments l os) ?_
    by_cases ho : 2 ^ 31 ≤ o
    · rw [if_pos ho, if_pos ho]
    · rw [if_neg ho, if_neg ho]
      exact congrArg some (EventFile.slice_eq_of_slice hslice (hwithin (by omega)))

/-- **An event is the same wherever its bytes are.** -/
theorem outEvent_eq (hm : m = { l with file := m.file, offset := m.offset })
    (hexternal : s'.external = s.external)
    (hslice : (s'.content m.file).slice m.offset l.size = (s.content l.file).slice l.offset l.size)
    (hheader : 32 + 4 * l.attachmentCount ≤ l.size)
    (h : AttachmentsWithin l.size
      (EventFile.attachmentOffsets (s.content l.file) l.offset l.attachmentCount)) :
    Replay.outEvent s' m = Replay.outEvent s l := by
  have hsize : m.size = l.size := by rw [hm]
  have hcount : m.attachmentCount = l.attachmentCount := by rw [hm]
  have hoffsets : s'.attachmentOffsets m =
      EventFile.attachmentOffsets (s.content l.file) l.offset l.attachmentCount := by
    rw [← EventFile.attachmentOffsets_eq hslice hheader, ← hcount]
    rfl
  have hdata : s'.readData m = s.readData l := by
    rw [readData, hoffsets]
    exact readAttachments_eq hsize hexternal hslice h
  have hid : m.requestId = l.requestId := by rw [hm]
  have hstatus : m.status = l.status := by rw [hm]
  have htime : m.eventTime = l.eventTime := by rw [hm]
  rw [Replay.outEvent, Replay.outEvent, hdata, hid, hstatus, htime]

/-- The bytes of the file of a live event. -/
theorem Sound.content_eq (h : s.Sound) (hl : l ∈ s.eventLocations) {b : Bytes}
    (hb : s.disk l.fileIndex = some b) : s.content l.file = b := by
  rw [content, h.index l hl, hb, Option.getD_some]

/-- Two live events are not seen as one. -/
theorem Sound.outEvent_inj (h : s.Sound) (hl : l ∈ s.eventLocations) (hm : m ∈ s.eventLocations)
    (heq : Replay.outEvent s l = Replay.outEvent s m) : l = m :=
  h.eq_of_requestId hl hm (congrArg OutEvent.requestId heq)

/-! ### The offsets that are written -/

/-- The offsets of a new event do not lead out of it. -/
theorem attachmentsWithin_placed {threshold : ℕ} (as : List Bytes) (size : ℕ) (x : ExternalFiles)
    {total : ℕ} (htotal : total = size + (inlined threshold as).length) (hlt : total < 2 ^ 31) :
    AttachmentsWithin total (placeAttachments threshold as size x).1 := by
  induction as generalizing size x with
  | nil => trivial
  | cons a as ih =>
    by_cases ha : threshold ≤ a.length
    · rw [placeAttachments_large ha]
      rw [inlined_large ha] at htotal
      exact ⟨fun ho => by omega, ih _ _ htotal⟩
    · have hsmall : a.length < threshold := by omega
      rw [placeAttachments_small hsmall]
      rw [inlined_small hsmall, List.length_append] at htotal
      refine ⟨fun _ => ?_, ih _ _ (by omega)⟩
      -- up to the next inline attachment, or to the end of the event
      obtain hnext | ⟨hnext, -⟩ := find?_placed threshold as (size + a.length) x (by omega)
      · rw [inlineSize, hnext]
        dsimp only
        rw [sub32_of_le (by omega)]
        omega
      · rw [inlineSize, hnext]
        dsimp only
        rw [sub32_of_le (by omega)]
        omega

/-- The offsets of a new event are read back. -/
theorem attachmentOffsets_new {b : Bytes} {event : InEvent} {offset size : ℕ} {time : ℤ}
    {offsets : List ℕ} {data : Bytes}
    (hb : eventBytes event size time offsets data <+: b.drop offset)
    (hlt : ∀ o ∈ offsets, o < 2 ^ 32) :
    EventFile.attachmentOffsets b offset offsets.length = offsets := by
  rw [eventBytes, List.append_prefix_drop, List.append_prefix_drop, length_eventHeader] at hb
  exact map_slice_offsets offsets (offset + 32) hb.2.1 hlt

end Journal

end Prinbee
