import Mathlib.Data.List.Basic
import Mathlib.Data.List.Induction
import Mathlib.Data.List.Nodup
import Mathlib.Logic.Function.Basic

/-!
# Which message an acknowledgment is for

A component that sends a message and expects an acknowledgment saves it in
`f_expected_acknowledgment`, under its serial number.  An ACK or an ERR carries the serial number
of the message it replies to, and `process_acknowledgment()` searches for it.  `prinbeed` has one
table for all its connections; the `daemon` of the proxy and the `proxy_connection` of the client
library have one table each, and the last one never removes an entry.

## Main definitions

* `AckState` — the tables, the messages that were sent, and the replies that had an effect.
* `AckState.Prinbeed.processAcknowledgment`, `AckState.Daemon.processAcknowledgment`,
  `AckState.ProxyConnection.processAcknowledgment` — the three of them.
* `AckState.Attributed` — each of these replies came from the peer its message was sent to, and no
  message has two.
* `Component.Safe` — the replies that keep it so.

## Main results

* `attributed_iff` — the replies of a run are attributed exactly when all of them are safe.
-/

namespace Prinbee

/-- A message that waits for its acknowledgment: no two of them have the same index. -/
structure SentMessage where
  index : ℕ
  peer : ℕ
  serialNumber : UInt32
  deriving DecidableEq, Repr

/-- An ACK (`success`) or an ERR that was processed, and the message that was found for it. -/
structure ProcessedReply where
  peer : ℕ
  serialNumber : UInt32
  success : Bool
  message : SentMessage
  deriving DecidableEq, Repr

/-- What happens on the connections: a message that expects an acknowledgment is sent to a peer, or
an ACK or ERR from it is handled (for an ACK in `prinbeed`, by a worker). -/
inductive AckEvent
  | expect (peer : ℕ) (serialNumber : UInt32)
  | reply (peer : ℕ) (serialNumber : UInt32) (success : Bool)
  deriving DecidableEq, Repr

namespace AckEvent

def peer : AckEvent → ℕ
  | expect peer _ => peer
  | reply peer _ _ => peer

def serialNumber : AckEvent → UInt32
  | expect _ serialNumber => serialNumber
  | reply _ serialNumber _ => serialNumber

end AckEvent

/-- `f_expected_acknowledgment`, by the object that has it (`none` when there is one for all the
connections) and the serial number; then what was sent and what was processed so far. -/
structure AckState where
  expected : Option ℕ × UInt32 → Option SentMessage := fun _ => none
  sent : List SentMessage := []
  processed : List ProcessedReply := []

namespace AckState

/-- `expect_acknowledgment()` in the table of that owner. -/
def expectAcknowledgment (owner : Option ℕ) (s : AckState) (peer : ℕ) (serialNumber : UInt32) :
    AckState :=
  let message := ⟨s.sent.length, peer, serialNumber⟩
  { s with
    expected := Function.update s.expected (owner, serialNumber) (some message)
    sent := s.sent ++ [message] }

/-- `process_acknowledgment()` in the table of that owner, which erases the entry or not. -/
def processAcknowledgment (owner : Option ℕ) (erases : Bool) (s : AckState) (peer : ℕ)
    (serialNumber : UInt32) (success : Bool) : AckState :=
  match s.expected (owner, serialNumber) with
  | none => s
  | some message =>
    { s with
      expected :=
        if erases then Function.update s.expected (owner, serialNumber) none else s.expected
      processed := s.processed ++ [⟨peer, serialNumber, success, message⟩] }

end AckState

/-- `prinbeed`: the payload of the message is pushed to the workers. -/
def AckState.Prinbeed.expectAcknowledgment : AckState → ℕ → UInt32 → AckState :=
  AckState.expectAcknowledgment none

/-- The peer is not looked at before the entry is erased. -/
def AckState.Prinbeed.processAcknowledgment : AckState → ℕ → UInt32 → Bool → AckState :=
  AckState.processAcknowledgment none true

/-- The `daemon` connection of the proxy. -/
def AckState.Daemon.expectAcknowledgment (s : AckState) (peer : ℕ) : UInt32 → AckState :=
  s.expectAcknowledgment (some peer) peer

def AckState.Daemon.processAcknowledgment (s : AckState) (peer : ℕ) : UInt32 → Bool → AckState :=
  s.processAcknowledgment (some peer) true peer

/-- The `proxy_connection` of the client library. -/
def AckState.ProxyConnection.expectAcknowledgment (s : AckState) (peer : ℕ) : UInt32 → AckState :=
  s.expectAcknowledgment (some peer) peer

/-- The entry stays. -/
def AckState.ProxyConnection.processAcknowledgment (s : AckState) (peer : ℕ) :
    UInt32 → Bool → AckState :=
  s.processAcknowledgment (some peer) false peer

/-- The components that expect acknowledgments. -/
inductive Component
  | prinbeed
  | daemon
  | proxyConnection
  deriving DecidableEq, Repr

namespace Component

/-- One event of a run. -/
def step : Component → AckState → AckEvent → AckState
  | prinbeed, s, .expect peer n => AckState.Prinbeed.expectAcknowledgment s peer n
  | prinbeed, s, .reply peer n success => AckState.Prinbeed.processAcknowledgment s peer n success
  | daemon, s, .expect peer n => AckState.Daemon.expectAcknowledgment s peer n
  | daemon, s, .reply peer n success => AckState.Daemon.processAcknowledgment s peer n success
  | proxyConnection, s, .expect peer n => AckState.ProxyConnection.expectAcknowledgment s peer n
  | proxyConnection, s, .reply peer n success =>
    AckState.ProxyConnection.processAcknowledgment s peer n success

/-- A reply that is received after these events does no harm.  In `prinbeed` it comes from the peer
of the message that waits under that number, if any; the client library receives it once. -/
def Safe : Component → List AckEvent → AckEvent → Prop
  | _, _, .expect _ _ => True
  | prinbeed, past, .reply peer n _ =>
    ∀ q, past.reverse.find? (·.serialNumber = n) = some (.expect q n) → q = peer
  | daemon, _, .reply _ _ _ => True
  | proxyConnection, past, .reply peer n _ =>
    .expect peer n ∈ past →
      past.reverse.find? (fun e => e.peer = peer ∧ e.serialNumber = n) = some (.expect peer n)

end Component

namespace AckState

/-- The messages that were acknowledged. -/
def acknowledged (s : AckState) : List SentMessage := s.processed.map (·.message)

/-- **Each reply had its effect on a message that was sent to that peer under that number, and
that waited for it**: a message has at most one. -/
def Attributed (s : AckState) : Prop :=
  s.acknowledged.Nodup ∧ ∀ r ∈ s.processed,
    r.message ∈ s.sent ∧ r.message.peer = r.peer ∧ r.message.serialNumber = r.serialNumber

end AckState

/-! ### The entry of a reply -/

namespace Component

/-- The object whose table is used. -/
def owner : Component → ℕ → Option ℕ
  | prinbeed, _ => none
  | daemon, peer => some peer
  | proxyConnection, peer => some peer

def erases : Component → Bool
  | prinbeed => true
  | daemon => true
  | proxyConnection => false

/-- Where the entry of the message is. -/
def entry (c : Component) (e : AckEvent) : Option ℕ × UInt32 := (c.owner e.peer, e.serialNumber)

theorem step_expect (c : Component) (s : AckState) (peer : ℕ) (n : UInt32) :
    c.step s (.expect peer n) = s.expectAcknowledgment (c.owner peer) peer n := by
  cases c <;> rfl

theorem step_reply (c : Component) (s : AckState) (peer : ℕ) (n : UInt32) (success : Bool) :
    c.step s (.reply peer n success) =
      s.processAcknowledgment (c.owner peer) c.erases peer n success := by
  cases c <;> rfl

/-- The last event that is about the same entry. -/
def lastAt (c : Component) (past : List AckEvent) (k : Option ℕ × UInt32) : Option AckEvent :=
  past.reverse.find? (c.entry · = k)

@[simp] theorem lastAt_nil (c : Component) (k : Option ℕ × UInt32) : c.lastAt [] k = none := rfl

theorem lastAt_concat (c : Component) (past : List AckEvent) (e : AckEvent)
    (k : Option ℕ × UInt32) :
    c.lastAt (past ++ [e]) k = if c.entry e = k then some e else c.lastAt past k := by
  rw [lastAt, List.reverse_append, List.reverse_singleton, List.singleton_append, List.find?_cons]
  by_cases h : c.entry e = k
  · simp only [h, decide_true, if_true]
  · simp only [h, decide_false, if_false, lastAt]

/-- Safe replies, for all the components: the message that waits in the entry was sent to that
peer, and an entry that stays has not been used. -/
theorem safe_reply (c : Component) (past : List AckEvent) (peer : ℕ) (n : UInt32)
    (success : Bool) :
    c.Safe past (.reply peer n success) ↔
      (∀ q m, c.lastAt past (c.owner peer, n) = some (.expect q m) → q = peer) ∧
        (c.erases = false →
          (∃ q m, .expect q m ∈ past ∧ c.entry (.expect q m) = (c.owner peer, n)) →
          ∃ q m, c.lastAt past (c.owner peer, n) = some (.expect q m)) := by
  have hsome {p : AckEvent → Bool} {e : AckEvent} (h : past.reverse.find? p = some e) : p e :=
    List.find?_some h
  cases c with
  | prinbeed =>
    have hlast : Component.prinbeed.lastAt past (Component.prinbeed.owner peer, n) =
        past.reverse.find? (·.serialNumber = n) := by
      simp [lastAt, entry, owner]
    rw [hlast]
    constructor
    · intro h
      refine ⟨fun q m hq => ?_, fun herases => by cases herases⟩
      have hm : m = n := of_decide_eq_true (hsome hq)
      exact h q (hm ▸ hq)
    · exact fun h q hq => h.1 q n hq
  | daemon =>
    refine ⟨fun _ => ⟨fun q m hq => ?_, fun herases => by cases herases⟩, fun _ => trivial⟩
    have hentry : Component.daemon.entry (.expect q m) = _ := of_decide_eq_true (hsome hq)
    exact Option.some.inj (Prod.mk.inj hentry).1
  | proxyConnection =>
    have hlast : Component.proxyConnection.lastAt past (Component.proxyConnection.owner peer, n) =
        past.reverse.find? (fun e => e.peer = peer ∧ e.serialNumber = n) := by
      simp [lastAt, entry, owner]
    have hmem : ∀ q m, Component.proxyConnection.entry (.expect q m) =
        (Component.proxyConnection.owner peer, n) → q = peer ∧ m = n := by
      intro q m h
      exact ⟨Option.some.inj (Prod.mk.inj h).1, (Prod.mk.inj h).2⟩
    constructor
    · intro h
      refine ⟨fun q m hq => (hmem q m (of_decide_eq_true (hsome hq))).1, ?_⟩
      rintro - ⟨q, m, hpast, hentry⟩
      obtain ⟨rfl, rfl⟩ := hmem q m hentry
      exact ⟨q, m, hlast ▸ h hpast⟩
    · intro h hpast
      obtain ⟨q, m, hq⟩ := h.2 rfl ⟨peer, n, hpast, rfl⟩
      obtain ⟨rfl, rfl⟩ := hmem q m (of_decide_eq_true (hsome hq))
      exact hlast ▸ hq

end Component

/-! ### The tables after a run -/

/-- What the tables say of the events so far: the message that waits in an entry is the last one
that was sent under it, and only an entry that stays was used already. -/
structure Tracks (c : Component) (past : List AckEvent) (s : AckState) : Prop where
  index : ∀ m ∈ s.sent, m.index < s.sent.length
  processed : ∀ m ∈ s.acknowledged, m ∈ s.sent
  entry : ∀ k m, s.expected k = some m → m ∈ s.sent ∧ (c.owner m.peer, m.serialNumber) = k
  last : ∀ k m, s.expected k = some m →
    c.lastAt past k = some (.expect m.peer m.serialNumber) ∧ m ∉ s.acknowledged ∨
      c.erases = false ∧ (∃ peer n success, c.lastAt past k = some (.reply peer n success)) ∧
        m ∈ s.acknowledged
  waits : ∀ k q n, c.lastAt past k = some (.expect q n) → ∃ m, s.expected k = some m
  stays : c.erases = false → ∀ q n, .expect q n ∈ past →
    ∃ m, s.expected (c.entry (.expect q n)) = some m
  sentExpect : ∀ {m}, m ∈ s.sent → .expect m.peer m.serialNumber ∈ past

namespace Tracks

variable {c : Component} {past : List AckEvent} {s : AckState}

theorem start (c : Component) : Tracks c [] {} where
  index m hm := by cases hm
  processed m hm := by cases hm
  entry k m hm := by cases hm
  last k m hm := by cases hm
  waits k q n hq := by cases hq
  stays _ q n hq := by cases hq
  sentExpect hm := by cases hm

theorem expect (h : Tracks c past s) (peer : ℕ) (n : UInt32) :
    Tracks c (past ++ [.expect peer n]) (c.step s (.expect peer n)) := by
  rw [Component.step_expect]
  set message : SentMessage := ⟨s.sent.length, peer, n⟩ with hmessage
  have hfind : ∀ k, (s.expectAcknowledgment (c.owner peer) peer n).expected k =
      if k = (c.owner peer, n) then some message else s.expected k := fun k =>
    Function.update_apply _ _ _ _
  have hsent : (s.expectAcknowledgment (c.owner peer) peer n).sent = s.sent ++ [message] := rfl
  have hack : (s.expectAcknowledgment (c.owner peer) peer n).acknowledged = s.acknowledged := rfl
  have hnew : message ∉ s.sent := fun hmem => Nat.lt_irrefl _ (h.index message hmem)
  have hkey : c.entry (.expect peer n) = (c.owner peer, n) := rfl
  refine ⟨fun m hm => ?_, fun m hm => ?_, fun k m hm => ?_, fun k m hm => ?_, fun k q m hq => ?_,
    fun herases q m hq => ?_, fun {m} hm => ?_⟩
  · rw [hsent] at hm ⊢
    rw [List.length_append, List.length_singleton]
    rcases List.mem_append.1 hm with hm | hm
    · exact Nat.lt_succ_of_lt (h.index m hm)
    · rw [List.mem_singleton.1 hm]
      exact Nat.lt_succ_self _
  · rw [hack] at hm
    exact hsent ▸ List.mem_append_left _ (h.processed m hm)
  · rw [hfind] at hm
    rw [hsent]
    by_cases hk : k = (c.owner peer, n)
    · rw [if_pos hk] at hm
      cases hm
      exact ⟨List.mem_append_right _ (List.mem_singleton_self _), hk.symm⟩
    · rw [if_neg hk] at hm
      exact (h.entry k m hm).imp_left (List.mem_append_left _)
  · rw [hfind] at hm
    rw [Component.lastAt_concat, hkey, hack]
    by_cases hk : k = (c.owner peer, n)
    · rw [if_pos hk] at hm
      cases hm
      rw [if_pos hk.symm]
      exact .inl ⟨rfl, fun hmem => hnew (h.processed _ hmem)⟩
    · rw [if_neg hk] at hm
      rw [if_neg fun heq => hk heq.symm]
      exact h.last k m hm
  · rw [Component.lastAt_concat, hkey] at hq
    rw [hfind]
    by_cases hk : k = (c.owner peer, n)
    · exact ⟨message, if_pos hk⟩
    · rw [if_neg fun heq => hk heq.symm] at hq
      rw [if_neg hk]
      exact h.waits k q m hq
  · rw [hfind]
    by_cases hk : c.entry (.expect q m) = (c.owner peer, n)
    · exact ⟨message, if_pos hk⟩
    · rw [if_neg hk]
      refine h.stays herases q m ((List.mem_append.1 hq).resolve_right fun heq => hk ?_)
      rw [List.mem_singleton.1 heq, hkey]
  · rw [hsent] at hm
    rcases List.mem_append.1 hm with hm | hm
    · exact List.mem_append_left _ (h.sentExpect hm)
    · rw [List.mem_singleton.1 hm]
      exact List.mem_append_right _ (List.mem_singleton_self _)

theorem reply (h : Tracks c past s) (peer : ℕ) (n : UInt32) (success : Bool) :
    Tracks c (past ++ [.reply peer n success]) (c.step s (.reply peer n success)) := by
  rw [Component.step_reply]
  have hkey : c.entry (.reply peer n success) = (c.owner peer, n) := rfl
  have hpast : ∀ q m, .expect q m ∈ past ++ [AckEvent.reply peer n success] →
      .expect q m ∈ past := fun q m hq =>
    (List.mem_append.1 hq).resolve_right fun heq => by cases List.mem_singleton.1 heq
  cases hfound : s.expected (c.owner peer, n) with
  | none =>
    have hs : s.processAcknowledgment (c.owner peer) c.erases peer n success = s := by
      rw [AckState.processAcknowledgment, hfound]
    rw [hs]
    refine ⟨h.index, h.processed, h.entry, fun k m hm => ?_, fun k q m hq => ?_,
      fun herases q m hq => h.stays herases q m (hpast q m hq),
      fun hm => List.mem_append_left _ (h.sentExpect hm)⟩
    · have hk : ¬ (c.owner peer, n) = k := by
        rintro rfl
        rw [hfound] at hm
        cases hm
      rw [Component.lastAt_concat, hkey, if_neg hk]
      exact h.last k m hm
    · rw [Component.lastAt_concat, hkey] at hq
      by_cases hk : (c.owner peer, n) = k
      · rw [if_pos hk] at hq
        cases hq
      · rw [if_neg hk] at hq
        exact h.waits k q m hq
  | some message =>
    set s' := s.processAcknowledgment (c.owner peer) c.erases peer n success with hs'
    rw [AckState.processAcknowledgment, hfound] at hs'
    dsimp only at hs'
    have hfind : ∀ k m, s'.expected k = some m →
        s.expected k = some m ∧ (k = (c.owner peer, n) → c.erases = false) := by
      intro k m hm
      rw [hs'] at hm
      cases herases : c.erases with
      | false => exact ⟨by simpa [herases] using hm, fun _ => rfl⟩
      | true =>
        rw [herases] at hm
        change Function.update s.expected _ none k = some m at hm
        by_cases hk : k = (c.owner peer, n)
        · rw [hk, Function.update_self] at hm
          cases hm
        · rw [Function.update_of_ne hk] at hm
          exact ⟨hm, fun heq => absurd heq hk⟩
    have hkeep : ∀ k, k ≠ (c.owner peer, n) ∨ c.erases = false →
        s'.expected k = s.expected k := by
      intro k hk
      rw [hs']
      cases herases : c.erases with
      | false => rfl
      | true =>
        exact Function.update_of_ne (hk.resolve_right (by rw [herases]; exact Bool.noConfusion)) _ _
    have hsent : s'.sent = s.sent := by rw [hs']
    have hack : s'.acknowledged = s.acknowledged ++ [message] := by
      rw [hs', AckState.acknowledged, AckState.acknowledged, List.map_append]
      rfl
    have hentry := h.entry _ message hfound
    refine ⟨hsent ▸ h.index, fun m hm => ?_, fun k m hm => ?_, fun k m hm => ?_,
      fun k q m hq => ?_, fun herases q m hq => ?_,
      fun hm => List.mem_append_left _ (h.sentExpect (hsent ▸ hm))⟩
    · rw [hack] at hm
      rw [hsent]
      rcases List.mem_append.1 hm with hm | hm
      · exact h.processed m hm
      · exact List.mem_singleton.1 hm ▸ hentry.1
    · rw [hsent]
      exact h.entry k m (hfind k m hm).1
    · obtain ⟨hold, herases⟩ := hfind k m hm
      rw [Component.lastAt_concat, hkey, hack]
      by_cases hk : (c.owner peer, n) = k
      · subst hk
        rw [hfound] at hold
        cases hold
        rw [if_pos rfl]
        exact .inr ⟨herases rfl, ⟨peer, n, success, rfl⟩,
          List.mem_append_right _ (List.mem_singleton_self _)⟩
      · rw [if_neg hk]
        refine (h.last k m hold).imp (fun hlast => ⟨hlast.1, fun hmem => ?_⟩)
          fun hlast => ⟨hlast.1, hlast.2.1, List.mem_append_left _ hlast.2.2⟩
        -- another entry has another message
        refine hlast.2 ((List.mem_append.1 hmem).resolve_right fun heq => hk ?_)
        rw [← (h.entry k m hold).2, List.mem_singleton.1 heq, hentry.2]
    · rw [Component.lastAt_concat, hkey] at hq
      by_cases hk : (c.owner peer, n) = k
      · rw [if_pos hk] at hq
        cases hq
      · rw [if_neg hk] at hq
        rw [hkeep k (.inl fun heq => hk heq.symm)]
        exact h.waits k q m hq
    · rw [hkeep _ (.inr herases)]
      exact h.stays herases q m (hpast q m hq)

theorem step (h : Tracks c past s) (e : AckEvent) : Tracks c (past ++ [e]) (c.step s e) := by
  cases e with
  | expect peer n => exact h.expect peer n
  | reply peer n success => exact h.reply peer n success

theorem run (c : Component) (events : List AckEvent) :
    Tracks c events (events.foldl c.step {}) := by
  induction events using List.reverseRecOn with
  | nil => exact start c
  | append_singleton events e ih =>
    rw [List.foldl_concat]
    exact ih.step e

end Tracks

/-! ### What the replies do -/

section Attribution

variable {c : Component} {past : List AckEvent} {s : AckState}

theorem attributed_expect (h : Tracks c past s) (peer : ℕ) (n : UInt32) :
    (c.step s (.expect peer n)).Attributed ↔ s.Attributed := by
  rw [Component.step_expect]
  refine and_congr_right fun _ => forall₂_congr fun r hr => ?_
  have hmem : r.message ∈ s.sent := h.processed _ (List.mem_map_of_mem hr)
  exact and_congr_left fun _ => iff_of_true (List.mem_append_left _ hmem) hmem

/-- A reply is processed rightly when its entry was not used and has its peer. -/
theorem attributed_concat (r : ProcessedReply) {s' : AckState} (hsent : s'.sent = s.sent)
    (hprocessed : s'.processed = s.processed ++ [r]) (hmem : r.message ∈ s.sent)
    (hserial : r.message.serialNumber = r.serialNumber) :
    s'.Attributed ↔ s.Attributed ∧ r.message ∉ s.acknowledged ∧ r.message.peer = r.peer := by
  have hack : s'.acknowledged = s.acknowledged ++ [r.message] := by
    rw [AckState.acknowledged, hprocessed, List.map_append]
    rfl
  have hnodup : s'.acknowledged.Nodup ↔ s.acknowledged.Nodup ∧ r.message ∉ s.acknowledged := by
    rw [hack, ← List.concat_eq_append, List.nodup_concat, and_comm]
  rw [AckState.Attributed, hnodup, hprocessed, hsent, List.forall_mem_append,
    List.forall_mem_singleton, AckState.Attributed]
  constructor
  · rintro ⟨⟨hold, hnew⟩, hall, -, hpeer, -⟩
    exact ⟨⟨hold, hall⟩, hnew, hpeer⟩
  · rintro ⟨⟨hold, hall⟩, hnew, hpeer⟩
    exact ⟨⟨hold, hnew⟩, hall, hmem, hpeer, hserial⟩

theorem attributed_reply (h : Tracks c past s) (peer : ℕ) (n : UInt32) (success : Bool) :
    (c.step s (.reply peer n success)).Attributed ↔
      s.Attributed ∧ c.Safe past (.reply peer n success) := by
  rw [Component.step_reply, Component.safe_reply, AckState.processAcknowledgment]
  cases hfound : s.expected (c.owner peer, n) with
  | none =>
    -- nothing waits: the reply has no effect
    refine (and_iff_left ⟨fun q m hq => ?_, ?_⟩).symm
    · obtain ⟨message, hmessage⟩ := h.waits _ q m hq
      rw [hfound] at hmessage
      cases hmessage
    · rintro herases ⟨q, m, hpast, hentry⟩
      obtain ⟨message, hmessage⟩ := h.stays herases q m hpast
      rw [hentry, hfound] at hmessage
      cases hmessage
  | some message =>
    obtain ⟨hmem, hentry⟩ := h.entry _ message hfound
    have hserial : message.serialNumber = n := (Prod.mk.inj hentry).2
    refine Iff.trans (attributed_concat ⟨peer, n, success, message⟩ ?_ ?_ hmem hserial)
      (and_congr_right fun _ => ?_)
    · rfl
    · rfl
    rcases h.last _ message hfound with ⟨hlast, hnew⟩ | ⟨herases, ⟨q, m, b, hlast⟩, hused⟩
    · rw [hlast]
      constructor
      · rintro ⟨-, hpeer⟩
        exact ⟨fun q m hq => by cases hq; exact hpeer, fun _ _ => ⟨_, _, rfl⟩⟩
      · rintro ⟨hpeer, -⟩
        exact ⟨hnew, hpeer _ _ rfl⟩
    · -- the entry stayed and was used already
      refine iff_of_false (fun hno => hno.1 hused) fun hno => ?_
      obtain ⟨q', m', hlast'⟩ := hno.2 herases ⟨_, _, h.sentExpect hmem, hentry⟩
      rw [hlast] at hlast'
      cases hlast'

end Attribution

/-- **Acknowledgments are attributed exactly when every reply is safe**: in every run, each reply
that had an effect came from the peer its message was sent to, and each message was acknowledged at
most once, if and only if all the replies of the run are safe. -/
theorem attributed_iff (c : Component) (events : List AckEvent) :
    (events.foldl c.step {}).Attributed ↔
      ∀ past e rest, events = past ++ e :: rest → c.Safe past e := by
  induction events using List.reverseRecOn with
  | nil =>
    refine iff_of_true ⟨List.nodup_nil, fun r hr => by cases hr⟩ fun past e rest h => ?_
    cases past <;> cases h
  | append_singleton events e ih =>
    have hstep : (c.step (events.foldl c.step {}) e).Attributed ↔
        (events.foldl c.step {}).Attributed ∧ c.Safe events e := by
      cases e with
      | expect peer n =>
        exact (attributed_expect (Tracks.run c events) peer n).trans
          (and_iff_left (by cases c <;> trivial)).symm
      | reply peer n success => exact attributed_reply (Tracks.run c events) peer n success
    rw [List.foldl_concat, hstep, ih]
    constructor
    · rintro ⟨hall, hlast⟩ past e' rest heq
      rcases List.eq_nil_or_concat rest with rfl | ⟨rest, e'', rfl⟩
      · obtain ⟨rfl, he⟩ := List.append_inj' heq rfl
        cases he
        exact hlast
      · rw [List.concat_eq_append, ← List.cons_append, ← List.append_assoc] at heq
        exact hall past e' rest (List.append_inj' heq rfl).1
    · intro hall
      refine ⟨fun past e' rest heq => hall past e' (rest ++ [e]) ?_, hall events e [] rfl⟩
      rw [heq, List.append_assoc, List.cons_append]

/-- Another peer acknowledges the REG message that the daemon sent to a node; and the client library
receives the ACK of its REG message twice. -/
theorem not_attributed :
    ¬ (List.foldl Component.prinbeed.step {} [.expect 0 1, .reply 1 1 true]).Attributed ∧
      ¬ (List.foldl Component.proxyConnection.step {}
        [.expect 0 1, .reply 0 1 true, .reply 0 1 true]).Attributed := by
  constructor
  · rintro ⟨-, hall⟩
    exact absurd (hall ⟨1, 1, true, ⟨0, 0, 1⟩⟩ (List.mem_singleton_self _)).2.1 (by decide)
  · rintro ⟨hnodup, -⟩
    exact absurd hnodup (by decide)

end Prinbee
