import Mathlib.Data.List.Lex
import Prinbee.Journal.Consistency
import Prinbee.Lib.Traversal

/-!
# Replaying a journal

`rewind()` puts an iterator at the start of each of the two maps and `next_event()` reads the event
of one of them and goes to the next.  The iterators of a `std::map` stay where they are when other
entries are added or erased; reading the files again, in the middle of `add_event()`, puts them back
at the start.

## Main definitions

* `Replay` — a journal and its iterators; `Replay.rewind`, `Replay.nextEvent`, `Replay.addEvent`.
* `Replayed` — a replay and what its calls answered.
* `Replayed.Complete` — each event is returned once before the end.
* `ReplayCall.Allowed`, `ReplayCall.Safe` — what a run needs of each of its calls.

## Main results

* `Replayed.complete_run` — a replay whose calls are safe is complete.
* `Replayed.not_complete` — an event is returned twice.
-/

namespace Prinbee

/-- `out_event`. -/
structure OutEvent where
  requestId : Bytes
  status : Status
  eventTime : ℤ
  attachments : List (Option Bytes)

/-- What tells the live events apart. -/
def OutEvent.ident (e : OutEvent) : Bytes × ℤ := (e.requestId, e.eventTime)

namespace Location

def ident (l : Location) : Bytes × ℤ := (l.requestId, l.eventTime)

/-- The strings are ordered by their unsigned bytes. -/
def nameKey (i : Bytes × ℤ) : List ℕ := i.1.map UInt8.toNat

end Location

/-- A journal and its two iterators; an iterator is the key of its entry, or `⊤` at the end. -/
structure Replay where
  journal : Journal
  eventLocationsIterator : WithTop (List ℕ)
  timebasedReplayIterator : WithTop ℤ

namespace Replay

/-- The keys of `f_event_locations`. -/
def names (s : Journal) : List (List ℕ) := s.eventLocations.map fun l => Location.nameKey l.ident

/-- The keys of `f_timebased_replay`. -/
def times (s : Journal) : List ℤ := s.timebasedReplay.map (·.eventTime)

/-- `rewind()`. -/
def rewind (s : Journal) : Replay where
  journal := s
  eventLocationsIterator := Traversal.first (names s)
  timebasedReplayIterator := Traversal.first (times s)

/-- The entry of an iterator, and the iterator behind it; an entry that was erased must not be
read. -/
def advance {κ : Type} [LinearOrder κ] (ls : List Location) (key : Location → κ) :
    WithTop κ → Except Failure (Option (Location × WithTop κ))
  | ⊤ => .ok none
  | (k : κ) =>
    match ls.find? (key · = k) with
    | none => .error .undefinedBehavior
    | some l => .ok (some (l, Traversal.next (ls.map key) k))

/-- `location::read_data()`. -/
def outEvent (s : Journal) (l : Location) : OutEvent where
  requestId := l.requestId
  status := l.status
  eventTime := l.eventTime
  attachments := s.readData l

/-- `next_event()`. -/
def nextEvent (r : Replay) (byTime : Bool) : Except Failure (Option OutEvent) × Replay :=
  if byTime then
    match advance r.journal.timebasedReplay (·.eventTime) r.timebasedReplayIterator with
    | .error e => (.error e, r)
    | .ok none => (.ok none, r)
    | .ok (some (l, it)) =>
      (.ok (some (outEvent r.journal l)), { r with timebasedReplayIterator := it })
  else
    match advance r.journal.eventLocations (fun l => Location.nameKey l.ident)
      r.eventLocationsIterator with
    | .error e => (.error e, r)
    | .ok none => (.ok none, r)
    | .ok (some (l, it)) =>
      (.ok (some (outEvent r.journal l)), { r with eventLocationsIterator := it })

/-- `add_event()`; the iterators are put back when the files were read again. -/
def addEvent (r : Replay) (now : ℤ) (event : InEvent) (eventTime : ℤ) :
    Except Failure Bool × Replay :=
  let s := r.journal
  if s.refuses now event eventTime then (.ok false, r)
  else
    let compress := s.options.compressWhenFull && s.canBeCompressed
    let time := s.savedTime eventTime
    match Journal.tryFiles event time s.options.maximumNumberOfFiles s with
    | (.error e, s) => (.error e, { r with journal := s })
    | (.ok (some x), s) => (.ok x, { r with journal := s })
    | (.ok none, s) =>
      if compress then
        let r := rewind (s.loadEventLocations now true)
        match Journal.tryFiles event time r.journal.options.maximumNumberOfFiles r.journal with
        | (.error e, s) => (.error e, { r with journal := s })
        | (.ok x, s) => (.ok (x.getD false), { r with journal := s })
      else (.ok false, { r with journal := s })

/-- The journal after the call is the one without iterators. -/
theorem addEvent_journal (r : Replay) (now : ℤ) (event : InEvent) (eventTime : ℤ) :
    (r.addEvent now event eventTime).1 = (r.journal.addEvent now event eventTime).1 ∧
      (r.addEvent now event eventTime).2.journal = (r.journal.addEvent now event eventTime).2 := by
  unfold addEvent Journal.addEvent
  dsimp only
  split
  · exact ⟨rfl, rfl⟩
  · generalize Journal.tryFiles event _ _ r.journal = tried
    obtain ⟨_ | _ | _, s⟩ := tried
    · exact ⟨rfl, rfl⟩
    · dsimp only
      split
      · dsimp only [rewind]
        generalize Journal.tryFiles event _ _ (s.loadEventLocations now true) = again
        obtain ⟨_ | _, s'⟩ := again <;> exact ⟨rfl, rfl⟩
      · exact ⟨rfl, rfl⟩
    · exact ⟨rfl, rfl⟩

end Replay

/-! ### Runs -/

/-- What happened since `rewind()`. -/
inductive ReplayRecord
  | returned (e : OutEvent)
  | ended
  | failed (e : Failure)
  | removed (requestId : Bytes)

namespace ReplayRecord

/-- The events that were returned. -/
def returned? : ReplayRecord → Option (Bytes × ℤ)
  | returned e => some e.ident
  | _ => none

/-- The events that were returned and are still live. -/
def note (seen : List (Bytes × ℤ)) : ReplayRecord → List (Bytes × ℤ)
  | returned e => seen ++ [e.ident]
  | removed requestId => seen.filter (·.1 ≠ requestId)
  | _ => seen

end ReplayRecord

/-- A replay and its history. -/
structure Replayed where
  replay : Replay
  history : List ReplayRecord := []

/-- The calls between two `rewind()`. -/
inductive ReplayCall
  | nextEvent
  | event (c : EventCall)

namespace Replayed

def returned (history : List ReplayRecord) : List (Bytes × ℤ) :=
  history.filterMap ReplayRecord.returned?

def seen (history : List ReplayRecord) : List (Bytes × ℤ) := history.foldl ReplayRecord.note []

/-- `update_event_status()`; it does not change the iterators. -/
def updateEventStatus (t : Replayed) (requestId : Bytes) (status : Status) : Replayed :=
  match t.replay.journal.updateEventStatus requestId status with
  | (.ok true, s) =>
    { replay := { t.replay with journal := s }
      history := if status.isLive then t.history else t.history ++ [.removed requestId] }
  | (_, s) => { t with replay := { t.replay with journal := s } }

/-- The state after a call; the events are replayed in one order. -/
def step (byTime : Bool) (t : Replayed) : ReplayCall → Replayed
  | .nextEvent =>
    match t.replay.nextEvent byTime with
    | (.error e, r) => ⟨r, t.history ++ [.failed e]⟩
    | (.ok none, r) => ⟨r, t.history ++ [.ended]⟩
    | (.ok (some e), r) => ⟨r, t.history ++ [.returned e]⟩
  | .event (.addEvent now event eventTime) =>
    { t with replay := (t.replay.addEvent now event eventTime).2 }
  | .event (.eventForwarded requestId) => t.updateEventStatus requestId .forwarded
  | .event (.eventAcknowledged requestId) => t.updateEventStatus requestId .acknowledged
  | .event (.eventCompleted requestId) => t.updateEventStatus requestId .completed
  | .event (.eventFailed requestId) => t.updateEventStatus requestId .failed

/-- An answer is the right one after what happened before: an event that is returned was not
returned since it is live, and by time it is later than those that were returned before, where both
were live at the start; and at the end they were all returned. -/
def Justified (byTime : Bool) (start : List (Bytes × ℤ)) (past : List ReplayRecord) :
    ReplayRecord → Prop
  | .returned e => e.ident ∉ seen past ∧
      (byTime = true → e.ident ∈ start → e.ident ∉ returned past →
        ∀ i ∈ returned past, i ∈ start → i.2 < e.eventTime)
  | .ended => ∀ i ∈ start, i ∈ returned past
  | .failed _ => False
  | .removed _ => True

/-- **The replay is complete**: all its answers are right. -/
def Complete (byTime : Bool) (start : List (Bytes × ℤ)) (t : Replayed) : Prop :=
  ∀ past record rest, t.history = past ++ record :: rest → Justified byTime start past record

/-- The events that are live. -/
def live (s : Journal) : List (Bytes × ℤ) := s.eventLocations.map Location.ident

end Replayed

namespace ReplayCall

/-- The event whose status is changed. -/
def changed : ReplayCall → Option Bytes
  | event (.eventForwarded requestId) => some requestId
  | event (.eventAcknowledged requestId) => some requestId
  | event (.eventCompleted requestId) => some requestId
  | event (.eventFailed requestId) => some requestId
  | _ => none

/-- The status is changed of events that were returned only. -/
def Allowed (t : Replayed) (c : ReplayCall) : Prop :=
  ∀ i ∈ Replayed.live t.replay.journal, c.changed = some i.1 → i ∈ Replayed.seen t.history

/-- An event can be added safely, and when the files have to be compressed no event that was
returned is still live. -/
def Safe (t : Replayed) : ReplayCall → Prop
  | .event (.addEvent now inEvent eventTime) =>
    EventCall.Safe t.replay.journal (.addEvent now inEvent eventTime) ∧
      (t.replay.journal.refuses now inEvent eventTime = false →
        t.replay.journal.options.compressWhenFull = true →
        t.replay.journal.canBeCompressed = true →
        t.replay.journal.Full (t.replay.journal.eventSize inEvent) →
        ∀ i ∈ Replayed.live t.replay.journal, i ∉ Replayed.seen t.history)
  | _ => True

end ReplayCall

/-! ### What the calls do to the live events -/

namespace Journal

open Replayed (live)

variable {s : Journal}

theorem mem_live {i : Bytes × ℤ} : i ∈ live s ↔ ∃ l ∈ s.eventLocations, l.ident = i := List.mem_map

/-- The new event of `add_event()`. -/
theorem live_writeNewEvent (h : s.Sound)
    (hcurrent : s.currentFileIndex < s.options.maximumNumberOfFiles) {s₁ : Journal} {p : ℕ}
    (ho : s.openFile s.currentFileIndex true = (some p, s₁)) {event : InEvent} {time : ℤ}
    (hid : ∀ m ∈ s.eventLocations, m.requestId ≠ event.requestId) :
    live (s₁.writeNewEvent p event time) = live s ++ [(event.requestId, time)] := by
  obtain ⟨b, -, -, -, hlocations, -⟩ := h.ready hcurrent ho
  have hwritten : ∃ l, (s₁.writeNewEvent p event time).eventLocations =
      (s.eventLocations.filter fun m => m.requestId ≠ event.requestId) ++ [l] ∧
        l.ident = (event.requestId, time) := by
    unfold writeNewEvent
    dsimp only
    obtain ⟨files, disk, -, heq⟩ := insertLocation_frame
      (({ s₁.writeJournalHeader p with
        external := (placeAttachments s₁.options.inlineAttachmentSizeThreshold event.attachments
          (baseSize event) (s₁.writeJournalHeader p).external).2 }.write p
        ((s₁.writeJournalHeader p).newLocation p event time).offset _).countEvent p _)
      ((s₁.writeJournalHeader p).newLocation p event time)
    rw [heq]
    refine ⟨(s₁.writeJournalHeader p).newLocation p event time, ?_, rfl⟩
    change ((s₁.writeJournalHeader p).eventLocations.filter _) ++ _ = _
    rw [hlocations]
    rfl
  obtain ⟨l, hl, hident⟩ := hwritten
  have hkept : (s.eventLocations.filter fun m => m.requestId ≠ event.requestId) =
      s.eventLocations := List.filter_eq_self.2 fun m hm => decide_eq_true (hid m hm)
  rw [live, hl, hkept, List.map_append, List.map_singleton, hident]
  rfl

/-- The loop over the files adds the event or does not change the live events. -/
theorem live_tryFiles (h : s.Sound)
    (hcurrent : s.currentFileIndex < s.options.maximumNumberOfFiles) {event : InEvent} (time : ℤ)
    (count : ℕ) (hid : ∀ m ∈ s.eventLocations, m.requestId ≠ event.requestId) :
    live (Journal.tryFiles event time count s).2 = live s ∨
      live (Journal.tryFiles event time count s).2 = live s ++ [(event.requestId, time)] := by
  rcases h.tryFiles hcurrent event time count with
    ⟨s', heq, htried, -, -⟩ | ⟨s', p, s₁, htried, hcurrent', ho, -, heq⟩
  · rw [heq, live, htried.eventLocations]
    exact .inl rfl
  · have hlive : live s' = live s := by rw [live, htried.eventLocations]; rfl
    rw [heq, ← hlive]
    refine .inr (live_writeNewEvent htried.sound hcurrent' ho ?_)
    rw [htried.eventLocations]
    exact hid

theorem map_ident_of_same {s' : Journal} {olds ms : List Location}
    (h : List.Forall₂ (SameEvent s s') olds ms) :
    olds.map Location.ident = ms.map Location.ident := by
  induction h with
  | nil => rfl
  | @cons l m _ _ hm _ ih =>
    have hident : m.ident = l.ident := by rw [hm.1]; rfl
    rw [List.map_cons, List.map_cons, ih, hident]

/-- A compression keeps the live events. -/
theorem mem_live_loadEventLocations {now : ℤ} (h : s.Sound) (hs : s.Scannable now)
    (compress : Bool) (i : Bytes × ℤ) :
    i ∈ live (s.loadEventLocations now compress) ↔ i ∈ live s := by
  obtain ⟨-, ⟨olds, hperm, hsame⟩, -⟩ := h.loadEventLocations hs compress
  rw [live, ← map_ident_of_same hsame, (hperm.map _).mem_iff]
  rfl

end Journal

/-! ### What the calls do to the iterators -/

namespace Replay

open Journal
open Replayed (live)

/-- The iterators stay; an event is added, or none. -/
structure Placed (r r' : Replay) (i : Bytes × ℤ) : Prop where
  eventLocationsIterator : r'.eventLocationsIterator = r.eventLocationsIterator
  timebasedReplayIterator : r'.timebasedReplayIterator = r.timebasedReplayIterator
  live : live r'.journal = live r.journal ∨
    i ∉ live r.journal ∧ live r'.journal = live r.journal ++ [i]

/-- What `add_event()` does: the event is added where there is room, or the files are read again
first. -/
theorem addEvent_cases {r : Replay} (h : r.journal.Sound)
    (hcurrent : r.journal.currentFileIndex < r.journal.options.maximumNumberOfFiles) {now : ℤ}
    {event : InEvent} {eventTime : ℤ}
    (hsafe : EventCall.Safe r.journal (.addEvent now event eventTime)) :
    Placed r (r.addEvent now event eventTime).2
        (event.requestId, r.journal.savedTime eventTime) ∨
      (r.journal.refuses now event eventTime = false ∧
        r.journal.options.compressWhenFull = true ∧ r.journal.canBeCompressed = true ∧
        r.journal.Full (r.journal.eventSize event) ∧
        ∃ s : Journal, s.Sound ∧ (∀ i, i ∈ live s ↔ i ∈ live r.journal) ∧
          Placed (rewind s) (r.addEvent now event eventTime).2
            (event.requestId, r.journal.savedTime eventTime)) := by
  have hnew : ∀ s : Journal, (∀ m ∈ s.eventLocations, m.requestId ≠ event.requestId) →
      ∀ time, (event.requestId, time) ∉ live s := by
    intro s hid time hmem
    obtain ⟨l, hl, hident⟩ := mem_live.1 hmem
    exact hid l hl (congrArg Prod.fst hident)
  have hplaced : ∀ (s s' : Journal) (time : ℤ),
      (∀ m ∈ s.eventLocations, m.requestId ≠ event.requestId) →
      (live s' = live s ∨ live s' = live s ++ [(event.requestId, time)]) →
      (live s' = live s ∨ (event.requestId, time) ∉ live s ∧
        live s' = live s ++ [(event.requestId, time)]) := fun s s' time hid hlive =>
    hlive.imp_right fun heq => ⟨hnew s hid time, heq⟩
  unfold addEvent
  dsimp only
  cases hrefuses : r.journal.refuses now event eventTime with
  | true => exact .inl ⟨rfl, rfl, .inl rfl⟩
  | false =>
    obtain ⟨-, -, hscan⟩ := hsafe hrefuses
    obtain ⟨hid, -⟩ := refuses_eq_false hrefuses
    rw [if_neg Bool.false_ne_true]
    have hlive := hplaced _ _ _ hid
      (live_tryFiles h hcurrent (r.journal.savedTime eventTime)
        r.journal.options.maximumNumberOfFiles hid)
    rcases h.tryFiles hcurrent event (r.journal.savedTime eventTime)
      r.journal.options.maximumNumberOfFiles with
      ⟨s₁, heq, htried, hcurrent₁, hroom⟩ | ⟨s₁, p, s₂, -, -, -, -, heq⟩
    · -- no file has room
      rw [heq] at hlive ⊢
      dsimp only at hlive ⊢
      split
      · next hcompress =>
        obtain ⟨hwhenFull, hcan⟩ := Bool.and_eq_true_iff.1 hcompress
        have hfull := full_of_roomAt hcurrent hroom
        have hscan₁ := htried.scannable (hscan hwhenFull hcan hfull)
        have hlive₁ : live s₁ = live r.journal := by
          rw [Replayed.live, htried.eventLocations]
          rfl
        obtain ⟨hloaded, -, hoptions, -, hcur⟩ := htried.sound.loadEventLocations hscan₁ true
        have hmem : ∀ i, i ∈ live (s₁.loadEventLocations now true) ↔ i ∈ live r.journal := by
          intro i
          rw [mem_live_loadEventLocations htried.sound hscan₁ true, hlive₁]
        refine .inr ⟨rfl, hwhenFull, hcan, hfull, _, hloaded, hmem, ?_⟩
        have hid₁ : ∀ m ∈ (s₁.loadEventLocations now true).eventLocations,
            m.requestId ≠ event.requestId := by
          intro m hm
          obtain ⟨l, hl, hident⟩ := mem_live.1 ((hmem m.ident).1 (mem_live.2 ⟨m, hm, rfl⟩))
          rw [← show l.requestId = m.requestId from congrArg Prod.fst hident]
          exact hid l hl
        have hagain := hplaced _ _ _ hid₁
          (live_tryFiles hloaded (by rw [hcur, hoptions]; exact hcurrent₁)
            (r.journal.savedTime eventTime)
            (s₁.loadEventLocations now true).options.maximumNumberOfFiles hid₁)
        dsimp only [rewind]
        generalize Journal.tryFiles event (r.journal.savedTime eventTime)
          (s₁.loadEventLocations now true).options.maximumNumberOfFiles
          (s₁.loadEventLocations now true) = again at hagain
        obtain ⟨_ | _, s₃⟩ := again <;> exact ⟨rfl, rfl, hagain⟩
      · exact .inl ⟨rfl, rfl, hlive⟩
    · rw [heq] at hlive ⊢
      exact .inl ⟨rfl, rfl, hlive⟩

end Replay

namespace Journal

open Replayed (live)

theorem eventLocations_drop (s : Journal) (p : ℕ) :
    (s.drop p).eventLocations = s.eventLocations := by
  obtain ⟨files, disk, -, heq⟩ := s.drop_frame p
  rw [heq]

theorem eventLocations_dropAll (s : Journal) (ls : List Location) :
    (s.dropAll ls).eventLocations = s.eventLocations := by
  obtain ⟨files, disk, -, heq⟩ := s.dropAll_frame ls
  rw [heq]

/-- What a change of a status does to the live events. -/
theorem updateEventStatus_cases (s : Journal) (requestId : Bytes) (status : Status) :
    (∃ e, s.updateEventStatus requestId status = (e, (s.updateEventStatus requestId status).2) ∧
      (e = .ok true → status.isLive = true) ∧
      live (s.updateEventStatus requestId status).2 = live s) ∨
    (∃ l ∈ s.eventLocations, l.requestId = requestId ∧ status.isLive = false ∧
      s.updateEventStatus requestId status =
        (.ok true, (s.updateEventStatus requestId status).2) ∧
      live (s.updateEventStatus requestId status).2 =
        (live s).filter (·.1 ≠ requestId)) := by
  unfold updateEventStatus
  cases hfind : s.eventLocations.find? fun l => l.requestId = requestId with
  | none => exact .inl ⟨.ok false, rfl, fun heq => (by cases heq), rfl⟩
  | some l =>
    have hl : l ∈ s.eventLocations := List.mem_of_find?_eq_some hfind
    have hid : l.requestId = requestId := by simpa using List.find?_some hfind
    dsimp only
    split
    · split
      · next hlive =>
        refine .inl ⟨.ok true, rfl, fun _ => hlive, ?_⟩
        change (s.eventLocations.map _).map Location.ident = s.eventLocations.map Location.ident
        rw [List.map_map]
        refine List.map_congr_left fun m _ => ?_
        simp only [Function.comp_apply]
        split
        · rename_i heq
          rw [heq]
          rfl
        · rfl
      · next hdead =>
        refine .inr ⟨l, hl, hid, Bool.eq_false_of_not_eq_true hdead, rfl, ?_⟩
        rw [live, eventLocations_drop]
        change (((s.write l.file (l.offset + 2) [status.code]).eraseReplay
          l).eventLocations.filter _).map Location.ident = _
        rw [eraseReplay, eventLocations_dropAll, live, List.filter_map]
        rfl
    · exact .inl ⟨.ok false, rfl, fun heq => (by cases heq), rfl⟩

end Journal

/-! ### The invariant -/

namespace Replayed

open Location (nameKey)
open Traversal (Follows IsKeys)

variable {byTime : Bool} {start : List (Bytes × ℤ)} {t t' : Replayed}

/-- The iterator that is used follows its map. -/
def Following (byTime : Bool) (start : List (Bytes × ℤ)) (t : Replayed) : Prop :=
  match byTime with
  | true => Follows Prod.snd {i | i ∈ start} {i | i ∈ live t.replay.journal}
      t.replay.timebasedReplayIterator (returned t.history) {i | i ∈ seen t.history}
  | false => Follows nameKey {i | i ∈ start} {i | i ∈ live t.replay.journal}
      t.replay.eventLocationsIterator (returned t.history) {i | i ∈ seen t.history}

/-- What an iterator that stays keeps. -/
theorem Following.lift (h : Following byTime start t)
    (hnames : t'.replay.eventLocationsIterator = t.replay.eventLocationsIterator)
    (htimes : t'.replay.timebasedReplayIterator = t.replay.timebasedReplayIterator)
    (hfollows : ∀ {κ : Type} [LinearOrder κ] (key : Bytes × ℤ → κ) (it : WithTop κ),
      Follows key {i | i ∈ start} {i | i ∈ live t.replay.journal} it (returned t.history)
        {i | i ∈ seen t.history} →
      Follows key {i | i ∈ start} {i | i ∈ live t'.replay.journal} it (returned t'.history)
        {i | i ∈ seen t'.history}) : Following byTime start t' := by
  cases byTime with
  | false =>
    rw [Following, hnames]
    exact hfollows _ _ h
  | true =>
    rw [Following, htimes]
    exact hfollows _ _ h

theorem isKeys_names (s : Journal) : IsKeys nameKey {i | i ∈ live s} (Replay.names s) := by
  intro k
  rw [Replay.names, List.mem_map]
  constructor
  · rintro ⟨l, hl, rfl⟩
    exact ⟨l.ident, Journal.mem_live.2 ⟨l, hl, rfl⟩, rfl⟩
  · rintro ⟨i, hi, rfl⟩
    obtain ⟨l, hl, rfl⟩ := Journal.mem_live.1 hi
    exact ⟨l, hl, rfl⟩

theorem isKeys_times {s : Journal} (h : s.Sound) :
    IsKeys Prod.snd {i | i ∈ live s} (Replay.times s) := by
  intro k
  rw [Replay.times, List.mem_map]
  constructor
  · rintro ⟨l, hl, rfl⟩
    exact ⟨l.ident, Journal.mem_live.2 ⟨l, (h.locations l).2 hl, rfl⟩, rfl⟩
  · rintro ⟨i, hi, rfl⟩
    obtain ⟨l, hl, rfl⟩ := Journal.mem_live.1 hi
    exact ⟨l, (h.locations l).1 hl, rfl⟩

theorem injOn_nameKey {s : Journal} (h : s.Sound) : Set.InjOn nameKey {i | i ∈ live s} := by
  intro i hi j hj heq
  obtain ⟨l, hl, rfl⟩ := Journal.mem_live.1 hi
  obtain ⟨m, hm, rfl⟩ := Journal.mem_live.1 hj
  have hid : l.requestId = m.requestId :=
    List.map_injective_iff.2 (fun a b hab => UInt8.toNat_inj.1 hab) heq
  rw [h.eq_of_requestId hl hm hid]

theorem injOn_snd {s : Journal} (h : s.Sound) : Set.InjOn Prod.snd {i | i ∈ live s} := by
  intro i hi j hj heq
  obtain ⟨l, hl, rfl⟩ := Journal.mem_live.1 hi
  obtain ⟨m, hm, rfl⟩ := Journal.mem_live.1 hj
  rw [h.eq_of_eventTime ((h.locations l).1 hl) ((h.locations m).1 hm) heq]

/-- The replay at its start. -/
def rewound (s : Journal) : Replayed where replay := Replay.rewind s

theorem following_rewound {s : Journal} (h : s.Sound) :
    Following byTime (live s) (rewound s) := by
  have hseen : {i | i ∈ seen (rewound s).history} = ∅ := Set.eq_empty_of_forall_notMem fun _ hi =>
    absurd hi List.not_mem_nil
  cases byTime with
  | false =>
    rw [Following, hseen]
    exact Traversal.follows_start (isKeys_names s)
  | true =>
    rw [Following, hseen]
    exact Traversal.follows_start (isKeys_times h)

/-- The iterators are put back where nothing that was returned is live. -/
theorem Following.rewind (h : Following byTime start t) {s : Journal} (hs : s.Sound)
    (hlive : ∀ i, i ∈ live s ↔ i ∈ live t.replay.journal)
    (hseen : ∀ i ∈ live t.replay.journal, i ∉ seen t.history) :
    Following byTime start { t with replay := Replay.rewind s } := by
  have hset : {i | i ∈ live s} = {i | i ∈ live t.replay.journal} := Set.ext hlive
  cases byTime with
  | false =>
    rw [Following] at h ⊢
    rw [← hset] at h
    exact h.rewind (isKeys_names s) fun i hi => hseen i ((hlive i).1 hi)
  | true =>
    rw [Following] at h ⊢
    rw [← hset] at h
    exact h.rewind (isKeys_times hs) fun i hi => hseen i ((hlive i).1 hi)

theorem Following.placed {r r' : Replay} {history : List ReplayRecord} {i : Bytes × ℤ}
    (h : Following byTime start ⟨r, history⟩) (hplaced : Replay.Placed r r' i) :
    Following byTime start ⟨r', history⟩ := by
  refine h.lift hplaced.eventLocationsIterator hplaced.timebasedReplayIterator
    fun key it hfollows => ?_
  rcases hplaced.live with heq | ⟨hnew, heq⟩
  · rw [heq]
    exact hfollows
  · have hset : {j | j ∈ live r'.journal} = insert i {j | j ∈ live r.journal} := by
      ext j
      rw [heq, Set.mem_ofPred_eq, List.mem_append, List.mem_singleton]
      exact or_comm
    rw [hset]
    exact hfollows.add hnew

/-! ### The history -/

theorem returned_append (history : List ReplayRecord) (r : ReplayRecord) :
    returned (history ++ [r]) = returned history ++ (returned [r]) := List.filterMap_append

theorem seen_append (history : List ReplayRecord) (r : ReplayRecord) :
    seen (history ++ [r]) = r.note (seen history) := by
  rw [seen, List.foldl_append]
  rfl

/-- An answer more. -/
theorem Complete.append {r r' : Replay} {history : List ReplayRecord} {record : ReplayRecord}
    (h : Complete byTime start ⟨r, history⟩) (hr : Justified byTime start history record) :
    Complete byTime start ⟨r', history ++ [record]⟩ := by
  intro past rec rest heq
  rcases List.eq_nil_or_concat rest with rfl | ⟨rest', last, rfl⟩
  · obtain ⟨rfl, hlast⟩ := List.append_inj' heq rfl
    obtain rfl := List.singleton_inj.1 hlast
    exact hr
  · rw [List.concat_eq_append, ← List.cons_append, ← List.append_assoc] at heq
    exact h past rec rest' (List.append_inj' heq rfl).1

/-! ### A call -/

theorem advance_of_mem {κ : Type} [LinearOrder κ] {ls : List Location} (key : Location → κ) {k : κ}
    (h : ∃ l ∈ ls, key l = k) : ∃ l ∈ ls, key l = k ∧
      Replay.advance ls key k = .ok (some (l, Traversal.next (ls.map key) k)) := by
  obtain ⟨m, hm, hmk⟩ := h
  cases hfind : ls.find? (key · = k) with
  | none => exact absurd (decide_eq_true hmk) (List.find?_eq_none.1 hfind m hm)
  | some l =>
    refine ⟨l, List.mem_of_find?_eq_some hfind, ?_, ?_⟩
    · simpa using List.find?_some hfind
    · simp only [Replay.advance, hfind]

section Reading

variable {κ : Type} [LinearOrder κ] {key : Bytes × ℤ → κ} {keys : List κ} {k : κ}
  {liveSet : Set (Bytes × ℤ)} {history : List ReplayRecord} {e : OutEvent}

/-- The iterator behind an event that is returned. -/
theorem follows_returned
    (h : Follows key {i | i ∈ start} liveSet k (returned history) {i | i ∈ seen history})
    (hinj : Set.InjOn key liveSet) (hkeys : IsKeys key liveSet keys) (he : e.ident ∈ liveSet)
    (hk : key e.ident = k) :
    Follows key {i | i ∈ start} liveSet (Traversal.next keys k)
      (returned (history ++ [.returned e])) {i | i ∈ seen (history ++ [.returned e])} := by
  have hseen : {i | i ∈ seen (history ++ [.returned e])} =
      insert e.ident {i | i ∈ seen history} := by
    ext i
    rw [seen_append, Set.mem_ofPred_eq, ReplayRecord.note, List.mem_append, List.mem_singleton]
    exact or_comm
  rw [hseen, returned_append]
  exact h.read hinj hkeys he hk

theorem justified_returned
    (h : Follows key {i | i ∈ start} liveSet k (returned history) {i | i ∈ seen history})
    (he : e.ident ∈ liveSet) (hk : key e.ident = k)
    (hkey : byTime = true → ∀ i j, key i < key j → i.2 < j.2) :
    Justified byTime start history (.returned e) :=
  ⟨h.notMem_seen he hk, fun hbyTime hstart hnot i hi hi' =>
    hkey hbyTime i e.ident (h.ordered e.ident hstart hnot i hi hi')⟩

/-- The end does not change what was returned. -/
theorem follows_ended {it : WithTop κ}
    (h : Follows key {i | i ∈ start} liveSet it (returned history) {i | i ∈ seen history}) :
    Follows key {i | i ∈ start} liveSet it (returned (history ++ [.ended]))
      {i | i ∈ seen (history ++ [.ended])} := by
  rw [returned_append, seen_append]
  exact (List.append_nil (returned history)).symm ▸ h

end Reading

/-- Reading an event leaves the journal alone. -/
theorem journal_nextEvent (byTime : Bool) (t : Replayed) :
    (t.step byTime .nextEvent).replay.journal = t.replay.journal := by
  have hnext : (t.replay.nextEvent byTime).2.journal = t.replay.journal := by
    unfold Replay.nextEvent
    split
    · split <;> rfl
    · split <;> rfl
  rw [← hnext]
  unfold step
  dsimp only
  generalize t.replay.nextEvent byTime = answer
  obtain ⟨_ | _ | _, r⟩ := answer <;> rfl

/-- `next_event()` answers right. -/
theorem Following.nextEvent (h : Following byTime start t) (hs : t.replay.journal.Sound)
    (hcomplete : Complete byTime start t) :
    Following byTime start (t.step byTime .nextEvent) ∧
      Complete byTime start (t.step byTime .nextEvent) := by
  obtain ⟨⟨s, names, times⟩, history⟩ := t
  cases byTime with
  | false =>
    cases names with
    | top => exact ⟨follows_ended h, hcomplete.append h.finished⟩
    | coe k =>
      obtain ⟨i, hi, hk⟩ := h.present k rfl
      obtain ⟨m, hm, rfl⟩ := Journal.mem_live.1 hi
      obtain ⟨l, hl, hlk, hadvance⟩ :=
        advance_of_mem (fun l => nameKey l.ident) ⟨m, hm, hk⟩
      have hmem : (Replay.outEvent s l).ident ∈ {i | i ∈ live s} := Journal.mem_live.2 ⟨l, hl, rfl⟩
      have hstep : step false ⟨⟨s, k, times⟩, history⟩ .nextEvent =
          ⟨⟨s, Traversal.next (Replay.names s) k, times⟩,
            history ++ [.returned (Replay.outEvent s l)]⟩ := by
        simp only [step, Replay.nextEvent, hadvance, Bool.false_eq_true, if_false]
        rfl
      rw [hstep]
      exact ⟨follows_returned h (injOn_nameKey hs) (isKeys_names s) hmem hlk,
        hcomplete.append (justified_returned h hmem hlk fun hno => (by cases hno))⟩
  | true =>
    cases times with
    | top => exact ⟨follows_ended h, hcomplete.append h.finished⟩
    | coe k =>
      obtain ⟨i, hi, hk⟩ := h.present k rfl
      obtain ⟨m, hm, rfl⟩ := Journal.mem_live.1 hi
      obtain ⟨l, hl, hlk, hadvance⟩ :=
        advance_of_mem Location.eventTime ⟨m, (hs.locations m).1 hm, hk⟩
      have hmem : (Replay.outEvent s l).ident ∈ {i | i ∈ live s} :=
        Journal.mem_live.2 ⟨l, (hs.locations l).2 hl, rfl⟩
      have hstep : step true ⟨⟨s, names, k⟩, history⟩ .nextEvent =
          ⟨⟨s, names, Traversal.next (Replay.times s) k⟩,
            history ++ [.returned (Replay.outEvent s l)]⟩ := by
        simp only [step, Replay.nextEvent, hadvance, if_true]
        rfl
      rw [hstep]
      exact ⟨follows_returned h (injOn_snd hs) (isKeys_times hs) hmem hlk,
        hcomplete.append (justified_returned h hmem hlk fun _ i j hlt => hlt)⟩

/-- A change of the status of an event that was returned. -/
theorem Following.updateEventStatus (h : Following byTime start t)
    (hs : t.replay.journal.Sound) (hcomplete : Complete byTime start t) {requestId : Bytes}
    (status : Status)
    (hallowed : ∀ i ∈ live t.replay.journal, i.1 = requestId → i ∈ seen t.history) :
    Following byTime start (t.updateEventStatus requestId status) ∧
      Complete byTime start (t.updateEventStatus requestId status) ∧
      (t.updateEventStatus requestId status).replay.journal =
        (t.replay.journal.updateEventStatus requestId status).2 := by
  obtain ⟨r, history⟩ := t
  unfold Replayed.updateEventStatus
  rcases r.journal.updateEventStatus_cases requestId status with
    ⟨e, heq, hkept, hlive⟩ | ⟨l, hl, hid, hdead, heq, hlive⟩
  · generalize (r.journal.updateEventStatus requestId status).2 = s' at heq hlive
    have hfollowing : Following byTime start ⟨{ r with journal := s' }, history⟩ :=
      h.lift rfl rfl fun key it hfollows => by
        rw [hlive]
        exact hfollows
    rw [heq]
    dsimp only
    split
    · next hok =>
      obtain ⟨rfl, rfl⟩ := Prod.mk.inj hok
      dsimp only
      rw [hkept rfl, if_pos rfl]
      exact ⟨hfollowing, hcomplete, rfl⟩
    · next hok =>
      obtain ⟨-, rfl⟩ := Prod.mk.inj hok
      exact ⟨hfollowing, hcomplete, rfl⟩
  · generalize (r.journal.updateEventStatus requestId status).2 = s' at heq hlive
    have hmem : l.ident ∈ live r.journal := Journal.mem_live.2 ⟨l, hl, rfl⟩
    -- the only live event with this identifier
    have honly : ∀ i ∈ live r.journal, (i.1 = requestId ↔ i = l.ident) := by
      intro i hi
      obtain ⟨m, hm, rfl⟩ := Journal.mem_live.1 hi
      refine ⟨fun heq => ?_, fun heq => by rw [heq]; exact hid⟩
      rw [hs.eq_of_requestId hm hl (heq.trans hid.symm)]
    have hseen : l.ident ∈ seen history := hallowed l.ident hmem hid
    rw [heq]
    dsimp only
    rw [hdead, if_neg Bool.false_ne_true]
    refine ⟨h.lift rfl rfl fun key it hfollows => ?_, hcomplete.append trivial, rfl⟩
    have hliveSet : {i | i ∈ live s'} = {i | i ∈ live r.journal} \ {l.ident} := by
      ext i
      rw [hlive, Set.mem_ofPred_eq, List.mem_filter, decide_eq_true_iff]
      exact and_congr_right fun hi => not_congr (honly i hi)
    have hseenSet : {i | i ∈ seen (history ++ [.removed requestId])} =
        {i | i ∈ seen history} \ {l.ident} := by
      ext i
      rw [seen_append, Set.mem_ofPred_eq, ReplayRecord.note, List.mem_filter, decide_eq_true_iff]
      exact and_congr_right fun hi => not_congr (honly i (hfollows.seen_subset hi))
    have hreturned : returned (history ++ [.removed requestId]) = returned history := by
      rw [returned_append]
      exact List.append_nil _
    change Follows key _ {i | i ∈ live s'} it (returned (history ++ [.removed requestId]))
      {i | i ∈ seen (history ++ [.removed requestId])}
    rw [hliveSet, hseenSet, hreturned]
    exact hfollows.remove hseen

/-! ### Runs of calls -/

/-- What every state of a replay keeps. -/
structure Replaying (byTime : Bool) (start : List (Bytes × ℤ)) (t : Replayed) : Prop where
  sound : t.replay.journal.Sound
  current : t.replay.journal.currentFileIndex < t.replay.journal.options.maximumNumberOfFiles
  following : Following byTime start t
  complete : Complete byTime start t

theorem Replaying.status (h : Replaying byTime start t) {requestId : Bytes} (status : Status)
    (hallowed : ∀ i ∈ live t.replay.journal, i.1 = requestId → i ∈ seen t.history) :
    Replaying byTime start (t.updateEventStatus requestId status) := by
  obtain ⟨hfollowing, hcomplete, hjournal⟩ :=
    h.following.updateEventStatus h.sound h.complete status hallowed
  have hindexed := (h.sound.toLinked.updateEventStatus requestId status).indexed h.current
  refine ⟨?_, ?_, hfollowing, hcomplete⟩
  · rw [hjournal]
    exact h.sound.updateEventStatus requestId status
  · rw [hjournal]
    exact hindexed.current

/-- One call. -/
theorem Replaying.step (h : Replaying byTime start t) {c : ReplayCall} (hallowed : c.Allowed t)
    (hsafe : c.Safe t) : Replaying byTime start (t.step byTime c) := by
  have hstatus : ∀ requestId status, c.changed = some requestId →
      Replaying byTime start (t.updateEventStatus requestId status) := fun requestId status hc =>
    h.status status fun i hi hid => hallowed i hi (by rw [hc, hid])
  cases c with
  | nextEvent =>
    obtain ⟨hfollowing, hcomplete⟩ := h.following.nextEvent h.sound h.complete
    have hjournal := journal_nextEvent byTime t
    exact ⟨hjournal ▸ h.sound, hjournal ▸ h.current, hfollowing, hcomplete⟩
  | event c =>
    cases c with
    | addEvent now event eventTime =>
      obtain ⟨hadd, hseen⟩ := hsafe
      have hjournal := (t.replay.addEvent_journal now event eventTime).2
      have hindexed : ((t.replay.addEvent now event eventTime).2.journal).Indexed := by
        rw [hjournal]
        exact Journal.Indexed.event ⟨h.sound.toLinked, h.current⟩ (.addEvent now event eventTime)
      refine ⟨?_, hindexed.current, ?_, h.complete⟩
      · change (t.replay.addEvent now event eventTime).2.journal.Sound
        rw [hjournal]
        exact h.sound.addEvent h.current hadd
      · rcases Replay.addEvent_cases h.sound h.current hadd with
          hplaced | ⟨hrefuses, hwhenFull, hcan, hfull, s, hs, hlive, hplaced⟩
        · exact h.following.placed hplaced
        · exact (h.following.rewind hs hlive
            (hseen hrefuses hwhenFull hcan hfull)).placed hplaced
    | eventForwarded requestId => exact hstatus requestId .forwarded rfl
    | eventAcknowledged requestId => exact hstatus requestId .acknowledged rfl
    | eventCompleted requestId => exact hstatus requestId .completed rfl
    | eventFailed requestId => exact hstatus requestId .failed rfl

/-- **A replay is complete**: in every run from an empty directory whose calls are safe, and in
either order, the events that are live at `rewind()` are returned once each before the end, by time
in the order of their times, and no event is returned twice. -/
theorem complete_run (options : JournalOptions) (external : ExternalFiles) (now : ℤ)
    (before : List EventCall) (byTime : Bool) (calls : List ReplayCall)
    (hbefore : Run.Each EventCall.Safe EventCall.step
      (Journal.construct options (fun _ => none) external now) before)
    (hcalls : Run.Each (fun t c => c.Allowed t ∧ c.Safe t) (step byTime)
      (rewound (before.foldl EventCall.step
        (Journal.construct options (fun _ => none) external now))) calls) :
    Complete byTime
      (live (before.foldl EventCall.step
        (Journal.construct options (fun _ => none) external now)))
      (calls.foldl (step byTime) (rewound (before.foldl EventCall.step
        (Journal.construct options (fun _ => none) external now)))) := by
  obtain ⟨hsound, hcurrent⟩ := (Run.always
    (fun s (hs : s.Sound ∧ s.currentFileIndex < s.options.maximumNumberOfFiles) => hs)
    (fun s c hs hsafe => ⟨hs.1.event hs.2 hsafe,
      (Journal.Indexed.event ⟨hs.1.toLinked, hs.2⟩ c).current⟩)
    before _ ⟨Journal.sound_construct options external now,
      (Journal.indexed_construct options _ external now).current⟩ hbefore).foldl
  have hstart : Replaying byTime _ (rewound (before.foldl EventCall.step
      (Journal.construct options (fun _ => none) external now))) :=
    ⟨hsound, hcurrent, following_rewound hsound, fun past record rest heq => by
      cases past <;> cases heq⟩
  exact (Run.always (fun t (ht : Replaying byTime _ t) => ht)
    (fun t c ht hc => ht.step hc.1 hc.2) calls _ hstart hcalls).foldl.complete

/-- An event that was returned is completed while the others are replayed. -/
theorem complete_run_two : Complete true
    [([65], 90), ([66], 91)]
    ([ReplayCall.nextEvent, .event (.eventCompleted [65]),
      .event (.addEvent 100 ⟨[67], [[3]], by decide⟩ 80), .nextEvent, .nextEvent].foldl (step true)
      (rewound ([EventCall.addEvent 100 ⟨[65], [[1, 2]], by decide⟩ 90,
        .addEvent 100 ⟨[66], [[3]], by decide⟩ 91].foldl EventCall.step
          (Journal.construct Journal.twoFiles (fun _ => none) ⟨0, fun _ => none⟩ 100)))) := by
  refine complete_run Journal.twoFiles ⟨0, fun _ => none⟩ 100
    [.addEvent 100 ⟨[65], [[1, 2]], by decide⟩ 90, .addEvent 100 ⟨[66], [[3]], by decide⟩ 91] true
    _ ?_ ?_
  · refine ⟨fun _ => ⟨?_, ?_, fun _ hcan => ?_⟩, fun _ => ⟨?_, ?_, fun _ hcan => ?_⟩, trivial⟩
    · unfold Timespec.Fits; decide
    · unfold Timespec.Fits; decide
    · exact absurd hcan (by decide)
    · unfold Timespec.Fits; decide
    · unfold Timespec.Fits; decide
    · exact absurd hcan (by decide)
  · refine ⟨⟨fun i hi hno => (by cases hno), trivial⟩, ⟨?_, trivial⟩,
      ⟨fun i hi hno => (by cases hno), fun _ => ⟨?_, ?_, fun _ _ hfull => ?_⟩,
        fun _ _ _ hfull => ?_⟩,
      ⟨fun i hi hno => (by cases hno), trivial⟩, ⟨fun i hi hno => (by cases hno), trivial⟩, trivial⟩
    · unfold ReplayCall.Allowed; decide
    · unfold Timespec.Fits; decide
    · unfold Timespec.Fits; decide
    · -- there is room in the first file
      exact absurd (hfull 0 (by decide)) (by decide)
    · exact absurd (hfull 0 (by decide)) (by decide)

/-! ### A compression in the middle of a replay -/

/-- Adding an event that is larger than a file puts the iterators back. -/
theorem addEvent_of_too_large {r : Replay} (h : r.journal.Indexed) (now : ℤ) {event : InEvent}
    (eventTime : ℤ) (hsize : r.journal.options.maximumFileSize ≤ r.journal.eventSize event)
    (hrefuses : r.journal.refuses now event eventTime = false)
    (hcompress : (r.journal.options.compressWhenFull && r.journal.canBeCompressed) = true) :
    (r.addEvent now event eventTime).2 =
      let s := (Journal.skipFiles r.journal.options.maximumNumberOfFiles
        r.journal).loadEventLocations now true
      { Replay.rewind s with journal := Journal.skipFiles s.options.maximumNumberOfFiles s } := by
  have htry := Journal.tryFiles_of_too_large h event hsize (r.journal.savedTime eventTime)
    r.journal.options.maximumNumberOfFiles
  have htry' := Journal.tryFiles_of_too_large_loaded h event hsize now
    (r.journal.savedTime eventTime)
  rw [Replay.addEvent, hrefuses, if_neg Bool.false_ne_true]
  dsimp only
  rw [htry]
  dsimp only
  rw [hcompress, if_pos rfl]
  dsimp only [Replay.rewind]
  rw [htry']

/-- The calls before `rewind()`: the first of two events is completed. -/
def twoEventsBefore : List EventCall :=
  [.addEvent 100 ⟨[65], [[1]], by decide⟩ 90, .addEvent 100 ⟨[66], [[2]], by decide⟩ 91,
    .eventCompleted [65]]

theorem Complete.not_twice (h : Complete byTime start t) (i : Bytes × ℤ) :
    t.history.map ReplayRecord.returned? ≠ [some i, some i] := by
  intro heq
  obtain ⟨r, rest, hhistory, hr, hrest⟩ := List.map_eq_cons_iff.1 heq
  obtain ⟨r', rest', rfl, hr', hnil⟩ := List.map_eq_cons_iff.1 hrest
  obtain rfl := List.map_eq_nil_iff.1 hnil
  have hjustified := h [r] r' [] hhistory
  cases r with
  | returned e =>
    cases r' with
    | returned e' =>
      refine hjustified.1 ?_
      rw [Option.some.inj hr', ← Option.some.inj hr]
      exact List.mem_singleton_self e.ident
    | ended => cases hr'
    | failed e' => cases hr'
    | removed requestId => cases hr'
  | ended => cases hr
  | failed e => cases hr
  | removed requestId => cases hr

/-- The second event is returned, an event that is larger than a file makes the journal compress its
files, and the second event is returned again. -/
theorem not_complete : ¬ ∀ (options : JournalOptions) (external : ExternalFiles) (now : ℤ)
    (before : List EventCall) (byTime : Bool) (calls : List ReplayCall),
    Run.Each ReplayCall.Allowed (step byTime)
      (rewound (before.foldl EventCall.step
        (Journal.construct options (fun _ => none) external now))) calls →
    Complete byTime
      (live (before.foldl EventCall.step
        (Journal.construct options (fun _ => none) external now)))
      (calls.foldl (step byTime) (rewound (before.foldl EventCall.step
        (Journal.construct options (fun _ => none) external now)))) := by
  intro h
  have hcomplete := h Journal.twoFiles ⟨0, fun _ => none⟩ 100 twoEventsBefore false
    [.nextEvent, .event (.addEvent 100 Journal.largeEvent 92), .nextEvent]
    ⟨fun i hi hno => (by cases hno), fun i hi hno => (by cases hno), fun i hi hno => (by cases hno),
      trivial⟩
  have hindexed : (twoEventsBefore.foldl EventCall.step
      (Journal.construct Journal.twoFiles (fun _ => none) ⟨0, fun _ => none⟩ 100)).Indexed := by
    have hstart := Journal.indexed_construct Journal.twoFiles (fun _ => none) ⟨0, fun _ => none⟩ 100
    exact ((hstart.event _).event _).event _
  have hoptions : (twoEventsBefore.foldl EventCall.step (Journal.construct Journal.twoFiles
    (fun _ => none) ⟨0, fun _ => none⟩ 100)).options = Journal.twoFiles := rfl
  generalize hs : twoEventsBefore.foldl EventCall.step
    (Journal.construct Journal.twoFiles (fun _ => none) ⟨0, fun _ => none⟩ 100) = s at *
  have hjournal : ((rewound s).step false .nextEvent).replay.journal = s :=
    journal_nextEvent false (rewound s)
  have hindexed' : ((rewound s).step false .nextEvent).replay.journal.Indexed := by
    rw [hjournal]
    exact hindexed
  have hreplay := addEvent_of_too_large hindexed' 100 92
    (by rw [hjournal]; exact Journal.eventSize_largeEvent hoptions)
    (by rw [hjournal, ← hs]; decide) (by rw [hjournal, ← hs]; decide)
  refine hcomplete.not_twice ([66], 91) ?_
  rw [List.foldl_cons, List.foldl_cons, List.foldl_cons, List.foldl_nil, step.eq_def false _
    (.event _)]
  dsimp only
  rw [hreplay, ← hs]
  decide +kernel

end Replayed

end Prinbee
