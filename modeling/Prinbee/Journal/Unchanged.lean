import Prinbee.Journal.Reopening

/-!
# Calls that leave the live events alone

A compression, and a call of `add_event()` that returns false, do not change the live events, in the
journal and in its files, as long as a reader comes to the events in the files.  When it does not, the
compression loses the events that it does not come to; an event that was completed can come back when
the copies that an earlier compression left are read.

## Main definitions

* `EventCall.CompressesInvisibly` — the compression of `add_event()` keeps the live events.
* `EventCall.FailsInvisibly` — so does a call that fails.
* `Retiring` — a journal, with the events that were completed or failed.

## Main results

* `Journal.compression_run`, `Journal.failure_run` — what holds in a run whose calls are tidy.
* `Journal.not_compression`, `Journal.not_failure` — a live event is lost.
-/

namespace Prinbee

namespace EventCall

/-- When `add_event()` finds no file with room and compresses the files, the live events are the same
after that. -/
def CompressesInvisibly (s : Journal) : EventCall → Prop
  | addEvent now event eventTime => s.refuses now event eventTime = false →
    s.options.compressWhenFull = true → s.canBeCompressed = true → ∀ s₁,
      Journal.tryFiles event (s.savedTime eventTime) s.options.maximumNumberOfFiles s =
        (.ok none, s₁) → (s₁.loadEventLocations now true).events = s.events
  | _ => True

/-- When `add_event()` returns false, the live events are the same after it, and so are those of the
journal that is opened in its place later. -/
def FailsInvisibly (s : Journal) : EventCall → Prop
  | addEvent now event eventTime => (s.addEvent now event eventTime).1 = .ok false →
    (s.addEvent now event eventTime).2.events = s.events ∧ ∀ now', now ≤ now' →
      ((s.addEvent now event eventTime).2.reopen now').events = (s.reopen now').events
  | _ => True

/-- The identifiers of the events that were completed or failed and were not added again since, after
a call that returned this. -/
def retired (ids : List Bytes) : EventCall → Except Failure Bool → List Bytes
  | addEvent _ event _, .ok true => ids.filter (· ≠ event.requestId)
  | eventCompleted requestId, .ok true => requestId :: ids
  | eventFailed requestId, .ok true => requestId :: ids
  | _, _ => ids

end EventCall

/-- A journal, and the identifiers of the events that were completed or failed and were not added
again since. -/
structure Retiring where
  journal : Journal
  retired : List Bytes

namespace Retiring

/-- One more call. -/
def step (t : Retiring) (c : EventCall) : Retiring where
  journal := c.step t.journal
  retired := c.retired t.retired (c.run t.journal).1

/-- None of these events is live. -/
def Gone (t : Retiring) : Prop := ∀ e ∈ t.journal.events, e.requestId ∉ t.retired

end Retiring

namespace Journal

open Replayed (live)

variable {s s' : Journal} {l : Location}

/-! ### The identifiers of the live events -/

/-- A live event after a change of a status. -/
theorem updateEventStatus_requestId (s : Journal) (requestId : Bytes) (status : Status)
    (hl : l ∈ (s.updateEventStatus requestId status).2.eventLocations) :
    (∃ m ∈ s.eventLocations, l.requestId = m.requestId) ∧
      ((s.updateEventStatus requestId status).1 = .ok true → status.isLive = false →
        l.requestId ≠ requestId) := by
  have hident : l.ident ∈ live (s.updateEventStatus requestId status).2 := mem_live.2 ⟨l, hl, rfl⟩
  obtain ⟨e, heq, hsuccess, hsame⟩ | ⟨-, -, -, -, -, hsame⟩ :=
    s.updateEventStatus_cases requestId status
  · rw [hsame] at hident
    obtain ⟨m, hm, hml⟩ := mem_live.1 hident
    refine ⟨⟨m, hm, (congrArg Prod.fst hml).symm⟩, fun he hdead => ?_⟩
    rw [heq] at he
    rw [hsuccess he] at hdead
    cases hdead
  · rw [hsame] at hident
    obtain ⟨hmem, hne⟩ := List.mem_filter.1 hident
    obtain ⟨m, hm, hml⟩ := mem_live.1 hmem
    exact ⟨⟨m, hm, (congrArg Prod.fst hml).symm⟩, fun _ _ => of_decide_eq_true hne⟩

/-- A live event after a call of `add_event()`. -/
theorem Steady.addEvent_requestId (h : s.Steady) {now : ℤ} {event : InEvent} {eventTime : ℤ}
    (hsafe : EventCall.Safe s (.addEvent now event eventTime))
    (hl : l ∈ (s.addEvent now event eventTime).2.eventLocations) :
    (∃ m ∈ s.eventLocations, l.requestId = m.requestId) ∨
      (s.addEvent now event eventTime).1 = .ok true ∧ l.requestId = event.requestId := by
  rcases h.toSound.addEvent_cases h.current hsafe with
    heq | ⟨hrefuses, s₀, hc, ⟨s', ht, heq⟩ | ⟨s', p, s₁, ht, hcurrent, ho, -, heq⟩⟩
  · rw [heq] at hl
    exact .inl ⟨l, hl, rfl⟩
  · rw [heq, ht.eventLocations] at hl
    obtain ⟨m, hm, hid, -⟩ := hc.exists_old hl
    exact .inl ⟨m, hm, hid⟩
  · obtain ⟨hid, -⟩ := hc.new h.toSound ht (refuses_eq_false hrefuses).1 (s.savedTime_spec eventTime).1
    have hident : l.ident ∈ live (s₁.writeNewEvent p event (s.savedTime eventTime)) := by
      rw [heq] at hl
      exact mem_live.2 ⟨l, hl, rfl⟩
    rw [live_writeNewEvent ht.sound hcurrent ho hid] at hident
    rcases List.mem_append.1 hident with hident | hident
    · obtain ⟨m, hm, hml⟩ := mem_live.1 hident
      rw [ht.eventLocations] at hm
      obtain ⟨m', hm', hid', -⟩ := hc.exists_old hm
      exact .inl ⟨m', hm', (congrArg Prod.fst hml).symm.trans hid'⟩
    · rw [heq]
      exact .inr ⟨rfl, congrArg Prod.fst (List.mem_singleton.1 hident)⟩

/-- What was completed stays so, until an event with its identifier is added. -/
theorem Steady.gone {t : Retiring} (h : t.journal.Steady) (hg : t.Gone) {c : EventCall}
    (hsafe : c.Safe t.journal) : (t.step c).Gone := by
  have hold : ∀ {l m : Location}, m ∈ t.journal.eventLocations → l.requestId = m.requestId →
      l.requestId ∉ t.retired := fun {l m} hm hid => by
    rw [hid]
    exact hg _ ⟨m, hm, rfl⟩
  -- an event that is ended
  have hended : ∀ (requestId : Bytes) (status : Status), status.isLive = false →
      ∀ l ∈ (t.journal.updateEventStatus requestId status).2.eventLocations,
        l.requestId ∉ t.retired ∧ ((t.journal.updateEventStatus requestId status).1 = .ok true →
          l.requestId ∉ requestId :: t.retired) := by
    intro requestId status hdead l hl
    obtain ⟨⟨m, hm, hid⟩, hne⟩ := t.journal.updateEventStatus_requestId requestId status hl
    refine ⟨hold hm hid, fun he hmem => ?_⟩
    rcases List.mem_cons.1 hmem with heq | hmem
    · exact hne he hdead heq
    · exact hold hm hid hmem
  rintro e ⟨l, hl, rfl⟩
  change l.requestId ∉ c.retired t.retired (c.run t.journal).1
  cases c with
  | addEvent now event eventTime =>
    have hcases := h.addEvent_requestId hsafe hl
    rcases hr : (t.journal.addEvent now event eventTime).1 with _ | _ | _
    all_goals
      rw [hr] at hcases
      change l.requestId ∉ EventCall.retired _ _ (t.journal.addEvent now event eventTime).1
      rw [hr]
    · obtain ⟨m, hm, hid⟩ := hcases.resolve_right fun hnew => (by cases hnew.1)
      exact hold hm hid
    · obtain ⟨m, hm, hid⟩ := hcases.resolve_right fun hnew => (by cases hnew.1)
      exact hold hm hid
    · intro hmem
      obtain ⟨hmem, hne⟩ := List.mem_filter.1 hmem
      rcases hcases with ⟨m, hm, hid⟩ | ⟨-, hid⟩
      · exact hold hm hid hmem
      · exact of_decide_eq_true hne hid
  | eventForwarded requestId =>
    obtain ⟨⟨m, hm, hid⟩, -⟩ := t.journal.updateEventStatus_requestId requestId .forwarded hl
    exact hold hm hid
  | eventAcknowledged requestId =>
    obtain ⟨⟨m, hm, hid⟩, -⟩ := t.journal.updateEventStatus_requestId requestId .acknowledged hl
    exact hold hm hid
  | eventCompleted requestId =>
    obtain ⟨hkept, hnew⟩ := hended requestId .completed rfl l hl
    change l.requestId ∉ EventCall.retired _ _ (t.journal.updateEventStatus requestId .completed).1
    rcases hr : (t.journal.updateEventStatus requestId .completed).1 with _ | _ | _
    exacts [hkept, hkept, hnew hr]
  | eventFailed requestId =>
    obtain ⟨hkept, hnew⟩ := hended requestId .failed rfl l hl
    change l.requestId ∉ EventCall.retired _ _ (t.journal.updateEventStatus requestId .failed).1
    rcases hr : (t.journal.updateEventStatus requestId .failed).1 with _ | _ | _
    exacts [hkept, hkept, hnew hr]

/-! ### Compressions -/

/-- The compression of a call finds the live events of the journal. -/
theorem Steady.compressesInvisibly (h : s.Steady) {c : EventCall} (hsafe : c.Safe s) :
    c.CompressesInvisibly s := by
  cases c with
  | addEvent now event eventTime =>
    intro hrefuses hwhenFull hcan s₁ htry
    obtain ⟨-, -, hscan⟩ := hsafe hrefuses
    rcases h.toSound.tryFiles h.current event (s.savedTime eventTime)
      s.options.maximumNumberOfFiles with ⟨s₂, heq, ht, -, hroom⟩ | ⟨_, _, _, -, -, -, -, heq⟩
    · rw [htry] at heq
      cases heq
      have hs := ht.scannable (hscan hwhenFull hcan (full_of_roomAt h.current hroom))
      exact ((h.toDurable.tried ht).loadEventLocations hs true).2.trans (ht.events h.toDurable)
    · rw [htry] at heq
      cases heq
  | eventForwarded _ => exact trivial
  | eventAcknowledged _ => exact trivial
  | eventCompleted _ => exact trivial
  | eventFailed _ => exact trivial

/-- **Compressions are invisible** in a run whose calls are tidy: each keeps the live events, and no
event that was completed or failed is live again. -/
theorem compression_run (options : JournalOptions) (external : ExternalFiles) (now : ℤ)
    (calls : List EventCall)
    (h : Run.Each EventCall.Tidy EventCall.step (construct options (fun _ => none) external now)
      calls) :
    Run.Each EventCall.CompressesInvisibly EventCall.step
        (construct options (fun _ => none) external now) calls ∧
      Run.Always Retiring.Gone Retiring.step ⟨construct options (fun _ => none) external now, []⟩
        calls := by
  refine ⟨each_of_tidy (fun s c hs hc => hs.compressesInvisibly (hs.toDurable.safe hc)) options
    external now calls h, ?_⟩
  have hlift : Run.Each (fun (t : Retiring) c => EventCall.Tidy t.journal c) Retiring.step
      ⟨construct options (fun _ => none) external now, []⟩ calls :=
    Run.Each.lift Retiring.journal (fun _ _ => rfl) h
  exact Run.always (fun (t : Retiring) (ht : t.journal.Steady ∧ t.Gone) => ht.2)
    (fun t c ht hc => ⟨ht.1.tidy_event hc, ht.1.gone ht.2 (ht.1.toDurable.safe hc)⟩) calls _
    ⟨steady_construct options external now, fun _ _ => List.not_mem_nil⟩ hlift

theorem compression_run_few :
    Run.Each EventCall.CompressesInvisibly EventCall.step
        (construct twoFiles (fun _ => none) ⟨0, fun _ => none⟩ 100) fewCalls ∧
      Run.Always Retiring.Gone Retiring.step
        ⟨construct twoFiles (fun _ => none) ⟨0, fun _ => none⟩ 100, []⟩ fewCalls :=
  compression_run twoFiles ⟨0, fun _ => none⟩ 100 fewCalls tidy_fewCalls

/-- The journal with two events without attachments, one of which was completed. -/
def twoEventsJournal : Journal :=
  twoEvents.foldl EventCall.step (construct twoFiles (fun _ => none) ⟨0, fun _ => none⟩ 100)

theorem indexed_twoEventsJournal : twoEventsJournal.Indexed :=
  (((indexed_construct twoFiles (fun _ => none) ⟨0, fun _ => none⟩ 100).event _).event _).event _

/-- The compression stops at an event without attachments, and the other one is lost. -/
theorem not_compression : ¬ ∀ options external now calls,
    Run.Each EventCall.CompressesInvisibly EventCall.step
        (construct options (fun _ => none) external now) calls ∧
      Run.Always Retiring.Gone Retiring.step ⟨construct options (fun _ => none) external now, []⟩
        calls := by
  intro h
  obtain ⟨-, -, -, hlast, -⟩ := (h twoFiles ⟨0, fun _ => none⟩ 100
    (twoEvents ++ [.addEvent 100 largeEvent 92])).1
  change EventCall.CompressesInvisibly twoEventsJournal (.addEvent 100 largeEvent 92) at hlast
  have hevents := hlast (by decide) rfl (by decide) _
    (tryFiles_of_too_large indexed_twoEventsJournal largeEvent (eventSize_largeEvent rfl) _ _)
  exact events_ne (by decide +kernel) (by decide +kernel) hevents

/-! ### Calls that fail -/

/-- Looking for room does not change what is found when the journal is opened again. -/
theorem Tried.events_reopen (ht : Tried s s') (h : s.Durable) (now : ℤ) :
    (s'.reopen now).events = (s.reopen now).events := by
  rw [(h.tried ht).events_reopen, h.events_reopen, ht.eventLocations]
  ext e
  refine exists_congr fun l => and_congr_right fun hl => ?_
  obtain ⟨hdisk, hout⟩ := ht.outEvent_eq h hl
  rw [Readable, Readable, hdisk, hout]

/-- A compression does not change it either, later on. -/
theorem Compressed.events_reopen {now now' : ℤ} {s₀ : Journal} (hc : Compressed now s s₀)
    (h : s.Durable) (hnow : now ≤ now') : (s₀.reopen now').events = (s.reopen now').events := by
  cases hc with
  | no => rfl
  | @once s₁ ht hs _ =>
    have h₁ := h.tried ht
    obtain ⟨hloaded, hevents⟩ := h₁.loadEventLocations hs true
    obtain ⟨-, hread, -⟩ := h₁.toSound.loadEventLocations_tiled hs h₁.cleared true
    have hread₁ := h₁.legible_iff.1 (h₁.scannable_iff.1 hs).1
    -- a reader comes to all the events before and after it
    calc ((s₁.loadEventLocations now true).reopen now').events
        = (s₁.loadEventLocations now true).events :=
          hloaded.persists_iff.2 (hloaded.legible_iff.2 fun m hm => (hread m hm).mono hnow)
      _ = s₁.events := hevents
      _ = (s₁.reopen now').events :=
          (h₁.persists_iff.2 (h₁.legible_iff.2 fun l hl => (hread₁ l hl).mono hnow)).symm
      _ = (s.reopen now').events := ht.events_reopen h now'

theorem Steady.failsInvisibly (h : s.Steady) {c : EventCall} (hsafe : c.Safe s) :
    c.FailsInvisibly s := by
  cases c with
  | addEvent now event eventTime =>
    intro hfalse
    rcases h.toSound.addEvent_cases h.current hsafe with
      heq | ⟨-, s₀, hc, ⟨s', ht, heq⟩ | ⟨_, _, _, -, -, -, -, heq⟩⟩
    · rw [heq]
      exact ⟨rfl, fun _ _ => rfl⟩
    · obtain ⟨h₀, hevents⟩ := hc.durable h.toDurable
      rw [heq]
      exact ⟨(ht.events h₀).trans hevents, fun now' hnow =>
        (ht.events_reopen h₀ now').trans (hc.events_reopen h.toDurable hnow)⟩
    · rw [heq] at hfalse
      cases hfalse
  | eventForwarded _ => exact trivial
  | eventAcknowledged _ => exact trivial
  | eventCompleted _ => exact trivial
  | eventFailed _ => exact trivial

/-- **A call of `add_event()` that returns false changes no live event**, neither in the journal nor
in the one that is opened in its place, in a run whose calls are tidy. -/
theorem failure_run (options : JournalOptions) (external : ExternalFiles) (now : ℤ)
    (calls : List EventCall)
    (h : Run.Each EventCall.Tidy EventCall.step (construct options (fun _ => none) external now)
      calls) :
    Run.Each EventCall.FailsInvisibly EventCall.step
      (construct options (fun _ => none) external now) calls :=
  each_of_tidy (fun _ _ hs hc => hs.failsInvisibly (hs.toDurable.safe hc)) options external now calls
    h

theorem failure_run_few : Run.Each EventCall.FailsInvisibly EventCall.step
    (construct twoFiles (fun _ => none) ⟨0, fun _ => none⟩ 100) fewCalls :=
  failure_run twoFiles ⟨0, fun _ => none⟩ 100 fewCalls tidy_fewCalls

/-- An event that is larger than a file is not added, and a live event is lost. -/
theorem not_failure : ¬ ∀ options external now calls, Run.Each EventCall.FailsInvisibly
    EventCall.step (construct options (fun _ => none) external now) calls := by
  intro h
  obtain ⟨-, -, -, hlast, -⟩ := h twoFiles ⟨0, fun _ => none⟩ 100
    (twoEvents ++ [.addEvent 100 largeEvent 92])
  change EventCall.FailsInvisibly twoEventsJournal (.addEvent 100 largeEvent 92) at hlast
  have heq : twoEventsJournal.addEvent 100 largeEvent 92 = _ :=
    addEvent_of_too_large indexed_twoEventsJournal (eventSize_largeEvent rfl) (by decide)
      (by decide)
  obtain ⟨hevents, -⟩ := hlast (congrArg Prod.fst heq)
  rw [heq] at hevents
  exact events_ne (by decide +kernel) (by decide +kernel) hevents

end Journal

end Prinbee
