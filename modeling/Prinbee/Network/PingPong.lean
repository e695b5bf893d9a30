import Prinbee.Basic
import Prinbee.Lib.Run

/-!
# PING and PONG messages

A daemon sends PING messages to other daemons, a proxy to daemons and a client to a proxy.  A PONG
carries the serial number of the PING that it answers.  `prinbeed::msg_pong()` looks for that number
in all its connection references, whichever connection the PONG came from; `daemon` and
`proxy_connection` objects look at their own number.  The number 0 stands for no PING.

## Main definitions

* `PingState`, `PingConnection`, `PingSystem` — the ping state of the connections of a program, and
  the PING messages that were written to them and not answered yet.
* `PingSystem.step` — one event.
* `PingEvent.Matches` — a PONG changes the state of its connection only, and only if it answers a
  PING.
* `PingEvent.Answers` — the PONG messages that do.

## Main results

* `PingSystem.matches_run` — in a run of such PONG messages each one matches.
-/

namespace Prinbee

/-- The programs that send PING messages; each finds the PING of a PONG in its own way. -/
inductive PingSender
  | prinbeed
  | proxy
  | client
  deriving DecidableEq, Repr

/-- The ping state of a connection; the last two members are those of a client, and the load average
is the bits of its `float64`. -/
structure PingState where
  pingSerialNumber : UInt32 := 0
  noPongAnswer : UInt32 := 0
  lastPing : ℤ := 0
  proxyLoadavg : UInt64 := 0
  deriving DecidableEq, Repr

/-- A `connection_reference` of `prinbeed`, a `daemon` of a proxy or a `proxy_connection`.  The
messages that are sent to a connection that is not open are dropped; `written` says whether the last
PING was not. -/
structure PingConnection where
  connection : ℕ
  isNode : Bool
  hasLowerAddress : Bool
  isOpen : Bool
  ping : PingState := {}
  written : Bool := false
  deriving DecidableEq, Repr

/-- `g_serial_number`, the connections in the order in which they are searched, and the PING
messages that were written to a connection and that no PONG on it answered. -/
structure PingSystem where
  serialNumber : UInt32 := 0
  connections : List PingConnection := []
  unanswered : List (ℕ × UInt32) := []
  deriving DecidableEq, Repr

/-- What happens to a program. -/
inductive PingEvent
  | connect (position : ℕ) (connection : ℕ) (isNode hasLowerAddress isOpen : Bool)
  | disconnect (connection : ℕ)
  | setOpen (connection : ℕ) (isOpen : Bool)
  | createMessage
  | timer (connection : ℕ)
  | pong (connection : ℕ) (pingSerialNumber : UInt32) (loadavg : UInt64) (now : ℤ)

/-- `MAX_PING_PONG_FAILURES`. -/
def maxPingPongFailures : UInt32 := 5

/-- `get_next_serial_number()`. -/
def nextSerialNumber (n : UInt32) : UInt32 := if n + 1 = 0 then 1 else n + 1

theorem nextSerialNumber_ne_zero (n : UInt32) : nextSerialNumber n ≠ 0 := by
  unfold nextSerialNumber
  split
  · decide
  · assumption

namespace PingSender

/-- The connections that get a PING: a daemon sends one to the daemons whose address is less than
its own, and the timer of a client is that of its connection. -/
def pings (k : PingSender) (timer : ℕ) (c : PingConnection) : Bool :=
  match k with
  | prinbeed => c.isNode && c.hasLowerAddress
  | proxy => true
  | client => c.connection = timer

/-- `has_expected_ping()` is called on the connection and it finds the serial number. -/
def expects (k : PingSender) (connection : ℕ) (n : UInt32) (c : PingConnection) : Bool :=
  match k with
  | prinbeed => c.isNode && c.ping.pingSerialNumber = n
  | proxy | client => c.connection = connection && c.ping.pingSerialNumber = n

/-- The state after a match. -/
def answered (k : PingSender) (loadavg : UInt64) (now : ℤ) (p : PingState) : PingState :=
  match k with
  | prinbeed | proxy => { p with pingSerialNumber := 0, noPongAnswer := 0 }
  | client =>
    { pingSerialNumber := 0, noPongAnswer := 0, lastPing := now, proxyLoadavg := loadavg }

variable {k : PingSender} {connection : ℕ} {n : UInt32} {c : PingConnection}

theorem pingSerialNumber_of_expects (h : k.expects connection n c = true) :
    c.ping.pingSerialNumber = n := by
  cases k <;> exact of_decide_eq_true (Bool.and_eq_true_iff.1 h).2

theorem expects_self (hconnection : c.connection = connection) (hn : c.ping.pingSerialNumber = n)
    (hnode : k = .prinbeed → c.isNode = true) : k.expects connection n c = true := by
  cases k with
  | prinbeed => simp [expects, hnode rfl, hn]
  | proxy => simp [expects, hconnection, hn]
  | client => simp [expects, hconnection, hn]

/-- A daemon or a proxy that expects no PING and counts no failure does not change. -/
theorem answered_of_idle {p : PingState} (hk : k ≠ .client) (hn : p.pingSerialNumber = 0)
    (hcount : p.noPongAnswer = 0) (loadavg : UInt64) (now : ℤ) : k.answered loadavg now p = p := by
  obtain ⟨_, _, _, _⟩ := p
  simp only at hn hcount
  subst hn hcount
  cases k with
  | prinbeed => rfl
  | proxy => rfl
  | client => exact absurd rfl hk

theorem pingSerialNumber_answered (loadavg : UInt64) (now : ℤ) (p : PingState) :
    (k.answered loadavg now p).pingSerialNumber = 0 := by
  cases k <;> rfl

end PingSender

namespace PingSystem

/-- `send_pings()`: the connections, the last serial number and the PING messages that were written.
Too many failures throw, and the connections that come after get no PING. -/
def sendPings (pings : PingConnection → Bool) :
    List PingConnection → UInt32 → List PingConnection × UInt32 × List (ℕ × UInt32)
  | [], n => ([], n, [])
  | c :: cs, n =>
    if pings c then
      let count := c.ping.noPongAnswer + 1
      if c.ping.pingSerialNumber ≠ 0 ∧ maxPingPongFailures ≤ count then
        ({ c with ping := { c.ping with noPongAnswer := count } } :: cs, n, [])
      else
        let n := nextSerialNumber n
        let noPongAnswer := if c.ping.pingSerialNumber ≠ 0 then count else c.ping.noPongAnswer
        let c := { c with
          ping := { c.ping with pingSerialNumber := n, noPongAnswer }
          written := c.isOpen }
        let (cs, last, sent) := sendPings pings cs n
        (c :: cs, last, if c.isOpen then (c.connection, n) :: sent else sent)
    else
      let (cs, last, sent) := sendPings pings cs n
      (c :: cs, last, sent)

/-- The search of `msg_pong()`: the first connection that expects the number gets a new state. -/
def answerFirst (expects : PingConnection → Bool) (answered : PingState → PingState) :
    List PingConnection → List PingConnection
  | [] => []
  | c :: cs =>
    if expects c then { c with ping := answered c.ping } :: cs
    else c :: answerFirst expects answered cs

/-- One event. -/
def step (k : PingSender) (s : PingSystem) : PingEvent → PingSystem
  | .connect position connection isNode hasLowerAddress isOpen =>
    let others := s.connections.filter (·.connection ≠ connection)
    { s with
      connections := others.take position ++
        { connection, isNode, hasLowerAddress, isOpen } :: others.drop position
      unanswered := s.unanswered.filter (·.1 ≠ connection) }
  | .disconnect connection =>
    { s with
      connections := s.connections.filter (·.connection ≠ connection)
      unanswered := s.unanswered.filter (·.1 ≠ connection) }
  | .setOpen connection isOpen =>
    { s with connections := s.connections.map fun c =>
        if c.connection = connection then { c with isOpen } else c }
  | .createMessage => { s with serialNumber := nextSerialNumber s.serialNumber }
  | .timer connection =>
    let (connections, serialNumber, sent) :=
      sendPings (k.pings connection) s.connections s.serialNumber
    { serialNumber, connections, unanswered := s.unanswered ++ sent }
  | .pong connection n loadavg now =>
    { s with
      connections := answerFirst (k.expects connection n) (k.answered loadavg now) s.connections
      unanswered := s.unanswered.filter (· ≠ (connection, n)) }

/-- The ping state of a connection. -/
def pingOf (s : PingSystem) (connection : ℕ) : Option PingState :=
  (s.connections.find? (·.connection = connection)).map (·.ping)

end PingSystem

namespace PingEvent

/-- **A PONG changes the ping state of the connection on which it arrived only, and only if its
serial number is that of a PING that was sent on it and not answered yet.** -/
def Matches (k : PingSender) (s : PingSystem) : PingEvent → Prop
  | pong connection n loadavg now =>
    let s' := s.step k (pong connection n loadavg now)
    (∀ c ≠ connection, s'.pingOf c = s.pingOf c) ∧
      (s'.pingOf connection ≠ s.pingOf connection → (connection, n) ∈ s.unanswered)
  | _ => True

/-- The connection that is found, if any, is the one on which the PONG arrived, and its PING was
written; the number 0 finds connections that expect none, which matters to a client only. -/
def Answers (k : PingSender) (s : PingSystem) : PingEvent → Prop
  | pong connection n _ _ => ∀ c, s.connections.find? (k.expects connection n) = some c →
    if n = 0 then k ≠ .client else c.connection = connection ∧ c.written = true
  | _ => True

end PingEvent

namespace PingSystem

variable {k : PingSender} {s : PingSystem} {cs : List PingConnection} {c d : PingConnection}

/-! ### The search -/

section Search

variable {expects : PingConnection → Bool} {answered : PingState → PingState}

theorem answerFirst_of_none (h : cs.find? expects = none) :
    answerFirst expects answered cs = cs := by
  induction cs with
  | nil => rfl
  | cons d ds ih =>
    rw [List.find?_cons] at h
    cases hd : expects d with
    | true => simp [hd] at h
    | false =>
      rw [hd] at h
      rw [answerFirst, hd, if_neg Bool.false_ne_true, ih h]

/-- The connection that is found is the only one that changes. -/
theorem answerFirst_of_some (hnodup : (cs.map (·.connection)).Nodup)
    (h : cs.find? expects = some c) :
    answerFirst expects answered cs = cs.map fun d =>
      if d.connection = c.connection then { d with ping := answered d.ping } else d := by
  induction cs with
  | nil => cases h
  | cons d ds ih =>
    rw [List.map_cons, List.nodup_cons] at hnodup
    rw [List.find?_cons] at h
    rw [answerFirst, List.map_cons]
    cases hd : expects d with
    | true =>
      simp only [hd, Option.some.injEq] at h
      subst h
      rw [if_pos rfl, if_pos rfl]
      have hsame : ∀ e ∈ ds, e =
          if e.connection = d.connection then { e with ping := answered e.ping } else e := by
        intro e he
        -- no other connection is the same
        have hne : e.connection ≠ d.connection := by
          intro heq
          have hmem : e.connection ∈ ds.map (·.connection) := List.mem_map_of_mem he
          exact hnodup.1 (heq ▸ hmem)
        rw [if_neg hne]
      exact congrArg _ ((List.map_id' ds).symm.trans (List.map_congr_left hsame))
    | false =>
      rw [hd] at h
      have hne : d.connection ≠ c.connection := by
        intro heq
        have hmem : c.connection ∈ ds.map (·.connection) :=
          List.mem_map_of_mem (List.mem_of_find?_eq_some h)
        exact hnodup.1 (heq ▸ hmem)
      rw [if_neg Bool.false_ne_true, if_neg hne, ih hnodup.2 h]

end Search

theorem map_connection_map {g : PingConnection → PingConnection}
    (hg : ∀ c, (g c).connection = c.connection) :
    (cs.map g).map (·.connection) = cs.map (·.connection) := by
  rw [List.map_map]
  exact List.map_congr_left fun c _ => hg c

/-- Looking up a connection after all of them were updated. -/
theorem find?_map_connection {g : PingConnection → PingConnection}
    (hg : ∀ c, (g c).connection = c.connection) (connection : ℕ) :
    (cs.map g).find? (·.connection = connection) =
      (cs.find? (·.connection = connection)).map g := by
  rw [List.find?_map]
  simp only [Function.comp_def, hg]

/-! ### Sending -/

/-- A connection after `send_pings()`: it has no new PING, or a new one that was written if the
connection is open. -/
structure Pinged (pings : PingConnection → Bool) (sent : List (ℕ × UInt32))
    (c c' : PingConnection) : Prop where
  connection : c'.connection = c.connection
  isNode : c'.isNode = c.isNode
  state : c' = c ∨
    c.ping.pingSerialNumber ≠ 0 ∧ c'.ping.pingSerialNumber = c.ping.pingSerialNumber ∧
      c'.written = c.written ∨
    pings c = true ∧ c'.ping.pingSerialNumber ≠ 0 ∧
      (c'.written = true → (c'.connection, c'.ping.pingSerialNumber) ∈ sent)

theorem sendPings_spec (pings : PingConnection → Bool) (cs : List PingConnection) (n : UInt32) :
    List.Forall₂ (Pinged pings (sendPings pings cs n).2.2) cs (sendPings pings cs n).1 := by
  induction cs generalizing n with
  | nil => exact .nil
  | cons c cs ih =>
    have hsame : ∀ sent cs, List.Forall₂ (Pinged pings sent) cs cs := fun sent cs =>
      List.forall₂_same.2 fun c _ => ⟨rfl, rfl, .inl rfl⟩
    have hmono : ∀ {sent sent' : List (ℕ × UInt32)}, sent ⊆ sent' → ∀ c c',
        Pinged pings sent c c' → Pinged pings sent' c c' := by
      intro sent sent' hsub c c' h
      exact ⟨h.connection, h.isNode, h.state.imp_right fun h' => h'.imp_right fun h'' =>
        ⟨h''.1, h''.2.1, fun hw => hsub (h''.2.2 hw)⟩⟩
    rw [sendPings]
    split
    · next hpings =>
      dsimp only
      split
      · next hfailed => exact .cons ⟨rfl, rfl, .inr (.inl ⟨hfailed.1, rfl, rfl⟩)⟩ (hsame [] cs)
      · refine .cons ⟨rfl, rfl, .inr (.inr ⟨hpings, nextSerialNumber_ne_zero n, fun hopen => ?_⟩)⟩
          ((ih _).imp (hmono ?_))
        · change c.isOpen = true at hopen
          rw [if_pos hopen]
          exact List.mem_cons_self
        · change (_ : List (ℕ × UInt32)) ⊆ if c.isOpen then _ else _
          split
          · exact List.subset_cons_self _ _
          · exact List.Subset.refl _
    · exact .cons ⟨rfl, rfl, .inl rfl⟩ (ih n)

theorem map_connection_sendPings (pings : PingConnection → Bool) (cs : List PingConnection)
    (n : UInt32) :
    (sendPings pings cs n).1.map (·.connection) = cs.map (·.connection) := by
  have hsame : List.Forall₂ (· = ·) (cs.map (·.connection))
      ((sendPings pings cs n).1.map (·.connection)) := by
    rw [List.forall₂_map_left_iff, List.forall₂_map_right_iff]
    exact (sendPings_spec pings cs n).imp fun c c' h => h.connection.symm
  rw [List.forall₂_eq_eq_eq] at hsame
  exact hsame.symm

theorem exists_pinged (pings : PingConnection → Bool) (cs : List PingConnection) (n : UInt32) :
    ∀ c' ∈ (sendPings pings cs n).1, ∃ c ∈ cs, Pinged pings (sendPings pings cs n).2.2 c c' := by
  have hspec := sendPings_spec pings cs n
  generalize (sendPings pings cs n).1 = cs', (sendPings pings cs n).2.2 = sent at *
  intro c' hc'
  induction hspec with
  | nil => cases hc'
  | @cons c d cs ds hcd _ ih =>
    obtain rfl | hmem := List.mem_cons.1 hc'
    · exact ⟨c, List.mem_cons_self, hcd⟩
    · obtain ⟨e, he, hpinged⟩ := ih hmem
      exact ⟨e, List.mem_cons_of_mem c he, hpinged⟩

/-! ### The invariant -/

/-- A connection that expects no PING has no failures; the PING that it expects, if it was written,
is not answered. -/
structure Tracked (k : PingSender) (s : PingSystem) : Prop where
  nodup : (s.connections.map (·.connection)).Nodup
  idle : ∀ c ∈ s.connections, c.ping.pingSerialNumber = 0 → c.ping.noPongAnswer = 0
  node : ∀ c ∈ s.connections, c.ping.pingSerialNumber ≠ 0 → k = .prinbeed → c.isNode = true
  unanswered : ∀ c ∈ s.connections, c.ping.pingSerialNumber ≠ 0 → c.written = true →
    (c.connection, c.ping.pingSerialNumber) ∈ s.unanswered

theorem tracked_empty (k : PingSender) : Tracked k {} where
  nodup := List.nodup_nil
  idle c hc := by cases hc
  node c hc := by cases hc
  unanswered c hc := by cases hc

theorem Tracked.connect (h : Tracked k s) (position connection : ℕ)
    (isNode hasLowerAddress isOpen : Bool) :
    Tracked k (s.step k (.connect position connection isNode hasLowerAddress isOpen)) := by
  set others := s.connections.filter (·.connection ≠ connection) with hothers
  set new : PingConnection := { connection, isNode, hasLowerAddress, isOpen } with hnew
  have hperm : (others.take position ++ new :: others.drop position).Perm (new :: others) := by
    have hmiddle := @List.perm_middle _ new (others.take position) (others.drop position)
    rwa [List.take_append_drop] at hmiddle
  have hcases : ∀ c ∈ others.take position ++ new :: others.drop position,
      c = new ∨ c ∈ s.connections ∧ c.connection ≠ connection := by
    intro c hc
    apply (List.mem_cons.1 (hperm.mem_iff.1 hc)).imp_right
    intro hmem
    simpa [hothers] using hmem
  refine ⟨?_, ?_, ?_, ?_⟩
  · apply ((hperm.map (·.connection)).nodup_iff).2
    rw [List.map_cons, List.nodup_cons]
    constructor
    · intro hmem
      obtain ⟨c, hc, heq⟩ := List.mem_map.1 hmem
      have hne : c.connection ≠ connection := by simpa using (List.mem_filter.1 hc).2
      exact hne heq
    · exact h.nodup.sublist ((List.filter_sublist).map _)
  · intro c hc hidle
    obtain rfl | ⟨hmem, -⟩ := hcases c hc
    · rfl
    · exact h.idle c hmem hidle
  · intro c hc hexpected
    obtain rfl | ⟨hmem, -⟩ := hcases c hc
    · exact absurd rfl hexpected
    · exact h.node c hmem hexpected
  · intro c hc hexpected hwritten
    obtain rfl | ⟨hmem, hne⟩ := hcases c hc
    · exact absurd rfl hexpected
    · exact List.mem_filter.2 ⟨h.unanswered c hmem hexpected hwritten, by simpa using hne⟩

theorem Tracked.disconnect (h : Tracked k s) (connection : ℕ) :
    Tracked k (s.step k (.disconnect connection)) where
  nodup := h.nodup.sublist (List.filter_sublist.map _)
  idle c hc := h.idle c (List.mem_filter.1 hc).1
  node c hc := h.node c (List.mem_filter.1 hc).1
  unanswered c hc hexpected hwritten := by
    obtain ⟨hmem, hne⟩ := List.mem_filter.1 hc
    exact List.mem_filter.2 ⟨h.unanswered c hmem hexpected hwritten, by simpa using hne⟩

/-- What changes neither the connections nor what they expect keeps the invariant. -/
theorem Tracked.map (h : Tracked k s) {s' : PingSystem} {g : PingConnection → PingConnection}
    (hconnections : s'.connections = s.connections.map g)
    (hunanswered : s'.unanswered = s.unanswered)
    (hg : ∀ c, (g c).connection = c.connection ∧ (g c).isNode = c.isNode ∧ (g c).ping = c.ping ∧
      (g c).written = c.written) : Tracked k s' := by
  refine ⟨?_, ?_, ?_, ?_⟩
  · rw [hconnections, map_connection_map fun c => (hg c).1]
    exact h.nodup
  all_goals
    intro c hc
    rw [hconnections] at hc
    obtain ⟨d, hd, rfl⟩ := List.mem_map.1 hc
    obtain ⟨hconnection, hnode, hping, hwritten⟩ := hg d
    rw [hping]
  · exact h.idle d hd
  · rw [hnode]
    exact h.node d hd
  · rw [hwritten, hconnection, hunanswered]
    exact h.unanswered d hd

theorem Tracked.setOpen (h : Tracked k s) (connection : ℕ) (isOpen : Bool) :
    Tracked k (s.step k (.setOpen connection isOpen)) := by
  refine h.map rfl rfl ?_
  intro c
  split <;> exact ⟨rfl, rfl, rfl, rfl⟩

theorem Tracked.createMessage (h : Tracked k s) : Tracked k (s.step k .createMessage) where
  nodup := h.nodup
  idle := h.idle
  node := h.node
  unanswered := h.unanswered

theorem Tracked.timer (h : Tracked k s) (connection : ℕ) :
    Tracked k (s.step k (.timer connection)) := by
  have hexists := exists_pinged (k.pings connection) s.connections s.serialNumber
  refine ⟨?_, ?_, ?_, ?_⟩
  · change ((sendPings (k.pings connection) s.connections s.serialNumber).1.map _).Nodup
    rw [map_connection_sendPings]
    exact h.nodup
  · intro c' hc' hidle
    obtain ⟨c, hc, hpinged⟩ := hexists c' hc'
    obtain rfl | ⟨hexpected, hsame, -⟩ | ⟨-, hexpected, -⟩ := hpinged.state
    · exact h.idle c' hc hidle
    · exact absurd (hsame ▸ hidle) hexpected
    · exact absurd hidle hexpected
  · intro c' hc' hexpected hk
    obtain ⟨c, hc, hpinged⟩ := hexists c' hc'
    rw [hpinged.isNode]
    obtain rfl | ⟨hbefore, -, -⟩ | ⟨hpings, -, -⟩ := hpinged.state
    · exact h.node c' hc hexpected hk
    · exact h.node c hc hbefore hk
    · -- a daemon sends PING messages to other daemons only
      subst hk
      exact (Bool.and_eq_true_iff.1 hpings).1
  · intro c' hc' hexpected hwritten
    obtain ⟨c, hc, hpinged⟩ := hexists c' hc'
    apply List.mem_append.2
    obtain rfl | ⟨hbefore, hsame, hw⟩ | ⟨-, -, hsent⟩ := hpinged.state
    · exact .inl (h.unanswered c' hc hexpected hwritten)
    · rw [hpinged.connection, hsame]
      exact .inl (h.unanswered c hc hbefore (hw ▸ hwritten))
    · exact .inr (hsent hwritten)

/-! ### Answers -/

section Answers

variable {connection : ℕ} {n : UInt32} {loadavg : UInt64} {now : ℤ}

/-- What a PONG finds: nothing that changes, or the PING that it answers. -/
theorem Tracked.pong_cases (h : Tracked k s)
    (hanswers : PingEvent.Answers k s (.pong connection n loadavg now)) :
    (s.step k (.pong connection n loadavg now)).connections = s.connections ∧
        (∀ c ∈ s.connections, c.ping.pingSerialNumber ≠ 0 →
          (c.connection, c.ping.pingSerialNumber) ≠ (connection, n)) ∨
      ∃ c ∈ s.connections, c.connection = connection ∧ c.written = true ∧
        c.ping.pingSerialNumber = n ∧ n ≠ 0 ∧
        (s.step k (.pong connection n loadavg now)).connections = s.connections.map fun d =>
          if d.connection = connection then
            { d with ping := k.answered loadavg now d.ping } else d := by
  change answerFirst (k.expects connection n) (k.answered loadavg now) s.connections = _ ∧ _ ∨
    ∃ c ∈ s.connections, _ ∧ _ ∧ _ ∧ _ ∧
      answerFirst (k.expects connection n) (k.answered loadavg now) s.connections = _
  cases hfind : s.connections.find? (k.expects connection n) with
  | none =>
    refine .inl ⟨answerFirst_of_none hfind, ?_⟩
    intro c hc hexpected heq
    obtain ⟨hconnection, hn⟩ := Prod.mk.inj heq
    exact List.find?_eq_none.1 hfind c hc
      (PingSender.expects_self hconnection hn (h.node c hc hexpected))
  | some c =>
    have hc := List.mem_of_find?_eq_some hfind
    have hn : c.ping.pingSerialNumber = n :=
      PingSender.pingSerialNumber_of_expects (List.find?_some hfind)
    have hfound := hanswers c hfind
    rw [answerFirst_of_some h.nodup hfind]
    by_cases hzero : n = 0
    · rw [if_pos hzero] at hfound
      have hsame : ∀ d ∈ s.connections, (if d.connection = c.connection then
          { d with ping := k.answered loadavg now d.ping } else d) = d := by
        intro d hd
        by_cases heq : d.connection = c.connection
        · -- the connection that was found has no PING to forget
          have hdc : d = c := List.inj_on_of_nodup_map h.nodup hd hc heq
          rw [if_pos heq, hdc, PingSender.answered_of_idle hfound (hn.trans hzero)
            (h.idle c hc (hn.trans hzero))]
        · rw [if_neg heq]
      refine .inl ⟨(List.map_congr_left hsame).trans (List.map_id' _), ?_⟩
      intro d hd hexpected heq
      exact hexpected ((Prod.mk.inj heq).2.trans hzero)
    · rw [if_neg hzero] at hfound
      obtain ⟨rfl, hwritten⟩ := hfound
      exact .inr ⟨c, hc, rfl, hwritten, hn, hzero, rfl⟩

theorem Tracked.pong (h : Tracked k s)
    (hanswers : PingEvent.Answers k s (.pong connection n loadavg now)) :
    Tracked k (s.step k (.pong connection n loadavg now)) := by
  obtain ⟨hsame, hother⟩ | ⟨c, hc, hconnection, hwritten, hn, hzero, hmap⟩ := h.pong_cases hanswers
  · refine ⟨?_, ?_, ?_, ?_⟩
    · rw [hsame]
      exact h.nodup
    · rw [hsame]
      exact h.idle
    · rw [hsame]
      exact h.node
    · rw [hsame]
      intro d hd hexpected hwritten
      exact List.mem_filter.2 ⟨h.unanswered d hd hexpected hwritten,
        decide_eq_true (hother d hd hexpected)⟩
  · -- the connection of the PONG expects nothing any more; the others are as before
    have hcases : ∀ d' ∈ (s.step k (.pong connection n loadavg now)).connections,
        d'.ping.pingSerialNumber = 0 ∧ d'.ping.noPongAnswer = 0 ∨
          d' ∈ s.connections ∧ d'.connection ≠ connection := by
      intro d' hd'
      rw [hmap] at hd'
      obtain ⟨d, hd, rfl⟩ := List.mem_map.1 hd'
      by_cases heq : d.connection = connection
      · rw [if_pos heq]
        exact .inl ⟨PingSender.pingSerialNumber_answered loadavg now d.ping, by cases k <;> rfl⟩
      · rw [if_neg heq]
        exact .inr ⟨hd, heq⟩
    refine ⟨?_, ?_, ?_, ?_⟩
    · have hkeep : ∀ d : PingConnection, (if d.connection = connection then
          { d with ping := k.answered loadavg now d.ping } else d).connection = d.connection := by
        intro d
        split <;> rfl
      rw [hmap, map_connection_map hkeep]
      exact h.nodup
    · intro d hd hidle
      obtain ⟨-, hcount⟩ | ⟨hmem, -⟩ := hcases d hd
      · exact hcount
      · exact h.idle d hmem hidle
    · intro d hd hexpected
      obtain ⟨hidle, -⟩ | ⟨hmem, -⟩ := hcases d hd
      · exact absurd hidle hexpected
      · exact h.node d hmem hexpected
    · intro d hd hexpected hwritten
      obtain ⟨hidle, -⟩ | ⟨hmem, hne⟩ := hcases d hd
      · exact absurd hidle hexpected
      · refine List.mem_filter.2 ⟨h.unanswered d hmem hexpected hwritten, ?_⟩
        simp [hne]

end Answers

/-! ### Runs -/

/-- One event keeps the invariant if a PONG answers a PING of its connection. -/
theorem Tracked.step (h : Tracked k s) {e : PingEvent} (hanswers : e.Answers k s) :
    Tracked k (s.step k e) := by
  cases e with
  | connect position connection isNode hasLowerAddress isOpen =>
    exact h.connect position connection isNode hasLowerAddress isOpen
  | disconnect connection => exact h.disconnect connection
  | setOpen connection isOpen => exact h.setOpen connection isOpen
  | createMessage => exact h.createMessage
  | timer connection => exact h.timer connection
  | pong connection n loadavg now => exact h.pong hanswers

/-- A PONG that answers a PING of its connection changes that connection only. -/
theorem Tracked.matches_step (h : Tracked k s) {e : PingEvent} (hanswers : e.Answers k s) :
    e.Matches k s := by
  cases e with
  | connect | disconnect | setOpen | createMessage | timer => trivial
  | pong connection n loadavg now =>
    change (∀ c ≠ connection, _ = _) ∧ (_ ≠ _ → _)
    obtain ⟨hsame, -⟩ | ⟨c, hc, hconnection, hwritten, hn, hzero, hmap⟩ := h.pong_cases hanswers
    · simp only [pingOf, hsame]
      exact ⟨fun _ _ => trivial, fun hne => absurd rfl hne⟩
    · constructor
      · intro other hother
        rw [pingOf, hmap, find?_map_connection (fun d => by split <;> rfl), pingOf, Option.map_map]
        cases hfind : s.connections.find? (·.connection = other) with
        | none => rfl
        | some d =>
          have hne : d.connection ≠ connection := by
            have hd := List.find?_some hfind
            simp only [decide_eq_true_eq] at hd
            rwa [hd]
          simp [hne]
      · intro _
        have hunanswered := h.unanswered c hc (hn ▸ hzero) hwritten
        rwa [hconnection, hn] at hunanswered

/-- In a run whose PONG messages all answer a PING of the connection on which they arrive, each PONG
changes the state of that connection only. -/
theorem matches_run (k : PingSender) (events : List PingEvent)
    (h : Run.Each (PingEvent.Answers k) (step k) {} events) :
    Run.Each (PingEvent.Matches k) (step k) {} events :=
  h.imp (Tracked k) (fun _ _ hs => hs.step) (fun _ _ hs => hs.matches_step) (tracked_empty k)

/-- Two daemons get the PING messages 1 and 2, and the second one answers. -/
theorem matches_run_two : Run.Each (PingEvent.Matches .prinbeed) (step .prinbeed) {}
    [.connect 0 1 true true true, .connect 1 2 true true true, .timer 0, .pong 2 2 0 0] := by
  refine matches_run .prinbeed _ ⟨trivial, trivial, trivial, ?_, trivial⟩
  intro c hc
  have hfound : c = ⟨2, true, true, true, { pingSerialNumber := 2 }, true⟩ :=
    (Option.some.inj hc).symm
  subst hfound
  exact ⟨rfl, rfl⟩

/-- The answer to the PING of the second daemon, on the connection of the first one. -/
theorem not_matches_run : ¬ ∀ (k : PingSender) (events : List PingEvent),
    Run.Each (PingEvent.Matches k) (step k) {} events := by
  intro h
  obtain ⟨-, -, -, ⟨hother, -⟩, -⟩ := h .prinbeed
    [.connect 0 1 true true true, .connect 1 2 true true true, .timer 0, .pong 1 2 0 0]
  exact absurd (hother 2 (by decide)) (by decide)

end PingSystem

end Prinbee
