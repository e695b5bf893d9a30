import Mathlib.Order.Bounds.Basic
import Prinbee.Journal.FileIndex

/-!
# What a journal is for

A ledger has the live events by their identifiers: their statuses, times and attachments.  Nothing
here knows of files, offsets or headers; `Serves` says what a call of the journal returns and what
the ledger is then, and the rest follows from that alone.

## Main definitions

* `Ledger.Entry`, `Ledger` — an event, and the events by their identifiers.
* `Ledger.Serves` — a call, on a ledger.
* `Ledger.Entry.Follows` — the same event, later on.

## Main results

* `Ledger.Serves.forward` — until an event is completed or failed it stays, and goes forward only.
-/

namespace Prinbee

namespace Ledger

/-- What a client knows of a live event. -/
structure Entry where
  status : Status
  eventTime : ℤ
  attachments : List (Option Bytes)

/-- The same event, later on: its time and its attachments are the same, and its status went forward
only. -/
structure Entry.Follows (e e' : Entry) : Prop where
  eventTime : e'.eventTime = e.eventTime
  attachments : e'.attachments = e.attachments
  status : e'.status = e.status ∨ e.status.mayBecome e'.status = true

end Ledger

/-- The live events, by their identifiers. -/
abbrev Ledger := Bytes → Option Ledger.Entry

/-- The event and the status that a call is about; adding an event is none of these. -/
def EventCall.change : EventCall → Option (Bytes × Status)
  | addEvent _ _ _ => none
  | eventForwarded requestId => some (requestId, .forwarded)
  | eventAcknowledged requestId => some (requestId, .acknowledged)
  | eventCompleted requestId => some (requestId, .completed)
  | eventFailed requestId => some (requestId, .failed)

namespace Ledger

/-- No event has this time. -/
def Free (g : Ledger) (t : ℤ) : Prop := ∀ id e, g id = some e → e.eventTime ≠ t

/-- **A call on a ledger**: what it returns, and what the ledger is then. -/
inductive Serves : Ledger → EventCall → Except Failure Bool → Ledger → Prop
  -- the event gets the first time from its own on that no other event has
  | added {g : Ledger} {now : ℤ} {event : InEvent} {eventTime t : ℤ} (hnew : g event.requestId = none)
    (hid : event.requestId ≠ []) (hlen : event.requestId.length ≤ 255)
    (hpast : Timespec.isInTheFuture now eventTime = false)
    (htime : IsLeast {t | eventTime ≤ t ∧ g.Free t} t) :
    Serves g (.addEvent now event eventTime) (.ok true)
      (Function.update g event.requestId (some ⟨.ready, t, event.attachments.map some⟩))
  | refused {g : Ledger} {now : ℤ} {event : InEvent} {eventTime : ℤ} :
    Serves g (.addEvent now event eventTime) (.ok false) g
  -- an event that is completed or failed is not live any more
  | changed {g : Ledger} {c : EventCall} {id : Bytes} {status : Status} {e : Entry}
    (hc : c.change = some (id, status)) (he : g id = some e)
    (hmay : e.status.mayBecome status = true) :
    Serves g c (.ok true)
      (Function.update g id (if status.isLive then some { e with status } else none))
  | unchanged {g : Ledger} {c : EventCall} {id : Bytes} {status : Status}
    (hc : c.change = some (id, status))
    (hno : ∀ e, g id = some e → e.status.mayBecome status = false) : Serves g c (.ok false) g

variable {g g' : Ledger} {c : EventCall} {r : Except Failure Bool} {id : Bytes} {e e' e'' : Entry}

theorem Entry.Follows.refl (e : Entry) : e.Follows e := ⟨rfl, rfl, .inl rfl⟩

theorem mayBecome_trans {a b c : Status} (h : a.mayBecome b = true) (h' : b.mayBecome c = true) :
    a.mayBecome c = true := by
  revert h h'
  cases a <;> cases b <;> cases c <;> decide

theorem Entry.Follows.trans (h : e.Follows e') (h' : e'.Follows e'') : e.Follows e'' := by
  refine ⟨h'.eventTime.trans h.eventTime, h'.attachments.trans h.attachments, ?_⟩
  rcases h'.status with heq | hmay
  · rw [heq]
    exact h.status
  · rcases h.status with heq' | hmay'
    · rw [heq'] at hmay
      exact .inr hmay
    · exact .inr (mayBecome_trans hmay' hmay)

/-- **An event goes forward only** until it is completed or failed. -/
theorem Serves.forward (h : Serves g c r g')
    (hkeep : ∀ status, c.change = some (id, status) → status.isLive = true) (he : g id = some e) :
    ∃ e', g' id = some e' ∧ e.Follows e' := by
  cases h with
  | @added _ event _ t hnew _ _ _ _ =>
    have hid : id ≠ event.requestId := fun heq => by
      rw [heq, hnew] at he
      cases he
    exact ⟨e, by rw [Function.update_of_ne hid, he], .refl e⟩
  | refused => exact ⟨e, he, .refl e⟩
  | @changed _ i status x hc hx hmay =>
    by_cases hi : id = i
    · subst hi
      rw [he] at hx
      cases hx
      rw [Function.update_self, if_pos (hkeep status hc)]
      exact ⟨_, rfl, rfl, rfl, .inr hmay⟩
    · exact ⟨e, by rw [Function.update_of_ne hi, he], .refl e⟩
  | unchanged _ _ => exact ⟨e, he, .refl e⟩

/-- An event that is added is ready, with its attachments, at the time that it asked for or later. -/
theorem Serves.added_entry {now : ℤ} {event : InEvent} {eventTime : ℤ}
    (h : Serves g (.addEvent now event eventTime) (.ok true) g') :
    ∃ t, eventTime ≤ t ∧ g' event.requestId = some ⟨.ready, t, event.attachments.map some⟩ := by
  cases h with
  | @added _ _ _ t _ _ _ _ htime => exact ⟨t, htime.1.1, Function.update_self ..⟩
  | changed hc _ _ => cases hc

end Ledger

end Prinbee
