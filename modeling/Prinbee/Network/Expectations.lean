import Prinbee.Daemon.Prinbeed
import Prinbee.Network.Acknowledgment
import Prinbee.Network.Announcements
import Prinbee.Network.PingPong

/-!
# Messages that expect an acknowledgment are sent first

A `binary_client` drops the messages that it is asked to send while it has no socket, which its
timer opens.  The proxy and the client library send their REG message from `process_connected()`,
when the socket was just opened.  `prinbeed` sends it as soon as it made the `node_client`, which it
does not add to the communicator, so that the timer never runs.

## Main definitions

* `BinaryClient`, `PeerReference`, `MessageSender` — the connections of a component, its table of
  expected acknowledgments, and the messages that reached the socket of their peer or its output
  buffer.
* `MessageSender.step` — what happens to a component.
* `MessageSender.Transmitted` — what is in the table was transmitted.
* `SenderEvent.Connects` — the events that make a `node_client`.

## Main results

* `MessageSender.transmitted_iff` — in which runs everything in the table was transmitted.
-/

namespace Prinbee

/-- `binary_client`: a timer, which runs while the communicator has it and it is enabled.  `hasImpl`
stands for `f_impl`, which is there as long as the socket is open. -/
structure BinaryClient where
  inCommunicator : Bool
  isEnabled : Bool := true
  isDone : Bool := false
  hasImpl : Bool := false
  deriving DecidableEq, Repr

namespace BinaryClient

def processConnected (c : BinaryClient) : BinaryClient := { c with isEnabled := false }

def processDisconnected (c : BinaryClient) : BinaryClient :=
  { c with hasImpl := false, isEnabled := true }

/-- `process_timeout()`; the socket opens or not.  The second result says whether
`process_connected()` is called. -/
def processTimeout (c : BinaryClient) (connects : Bool) : BinaryClient × Bool :=
  if c.isDone then (c, false)
  else if c.hasImpl then ({ c with isEnabled := false }, false)
  else if connects then ({ c with hasImpl := true }.processConnected, true)
  else (c, false)

end BinaryClient

/-- A connection: one that the component makes, or one that a listener accepted, which is forgotten
when its socket closes. -/
inductive PeerConnection
  | binaryClient (c : BinaryClient)
  | serverClient
  deriving DecidableEq, Repr

/-- Whether `send_message()` writes or queues the message. -/
def PeerConnection.isOpen : PeerConnection → Bool
  | binaryClient c => !c.isDone && c.hasImpl
  | serverClient => true

/-- A connection with its name and whether it is one with another daemon. -/
structure PeerReference where
  pointer : ℕ
  name : Option String := none
  isNode : Bool := false
  connection : PeerConnection
  deriving DecidableEq, Repr

/-- `prinbeed`, a proxy or a client: the table of expected acknowledgments, the last serial number,
how many connections were made, the connections, and the messages that expect an acknowledgment and
that were written to an open connection or queued in its output buffer, each with that
connection. -/
structure MessageSender where
  ack : AckState := {}
  serialNumber : UInt32 := 0
  count : ℕ := 0
  connections : List PeerReference := []
  transmitted : List (ℕ × SentMessage) := []

/-- What happens to a component: a status of a daemon is received, a client finds that its proxy is
ready or not, a listener accepts a connection, a timer runs, a socket is lost, a connection is done,
`prinbeed` is at stage 2 of a SCTX message, an ACK or ERR is received, another message is made, and
the component stops. -/
inductive SenderEvent
  | currentStatus (msg : CurrentStatus)
  | proxyStatus (isReady : Bool)
  | accept (isNode : Bool)
  | timeout (pointer : ℕ) (connects : Bool)
  | disconnected (pointer : ℕ)
  | markDone (pointer : ℕ)
  | setContext (payload : Payload) (c : ContextMessage)
  | reply (pointer : ℕ) (serialNumber : UInt32) (success : Bool)
  | newMessage
  | stop

namespace MessageSender

variable (s : MessageSender)

/-- The message that is entered in the table next, if it is to that peer. -/
def nextMessage (pointer : ℕ) (n : UInt32) : SentMessage := ⟨s.ack.sent.length, pointer, n⟩

/-- `send_message()` of a message that expects an acknowledgment. -/
def sendMessage (r : PeerReference) (m : SentMessage) : MessageSender :=
  if r.connection.isOpen then { s with transmitted := s.transmitted ++ [(r.pointer, m)] } else s

def expectAcknowledgment (k : Component) (pointer : ℕ) (n : UInt32) : MessageSender :=
  { s with ack := k.step s.ack (.expect pointer n) }

/-- A new connection. -/
def registerConnection (r : PeerReference) : MessageSender :=
  { s with count := s.count + 1, connections := r :: s.connections }

/-- Change a connection. -/
def setConnection (pointer : ℕ) (connection : PeerConnection) : MessageSender :=
  { s with connections := s.connections.map fun (r : PeerReference) =>
      if r.pointer = pointer then { r with connection } else r }

/-- A new REG message is sent, and it expects an acknowledgment. -/
def register (k : Component) (r : PeerReference) : MessageSender :=
  let n := nextSerialNumber s.serialNumber
  let s := { s with serialNumber := n }
  (s.sendMessage r (s.nextMessage r.pointer n)).expectAcknowledgment k r.pointer n

/-- `prinbeed::connect_to_node()`: the `node_client` is not added to the communicator. -/
def connectToNode (name : String) : MessageSender :=
  let n : PeerReference := ⟨s.count, some name, true, .binaryClient { inCommunicator := false }⟩
  (s.registerConnection n).register .prinbeed n

/-- `proxy::connect_to_daemon()`. -/
def connectToDaemon (name : String) : MessageSender :=
  if s.connections.any fun r => r.name = some name then s
  else s.registerConnection ⟨s.count, some name, false, .binaryClient { inCommunicator := true }⟩

/-- `prinbee_connection::start_binary_connection()`. -/
def startBinaryConnection (isReady : Bool) : MessageSender :=
  if isReady then
    if s.connections.isEmpty then
      s.registerConnection ⟨s.count, none, false, .binaryClient { inCommunicator := true }⟩
    else s
  else { s with connections := [] }

/-- `process_timeout()` of a connection, and `process_connected()` of its class: that of a
`node_client` does nothing more. -/
def processTimeout (k : Component) (r : PeerReference) (c : BinaryClient) (connects : Bool) :
    MessageSender :=
  let (c, isConnected) := c.processTimeout connects
  let connection := .binaryClient c
  let s := s.setConnection r.pointer connection
  if isConnected then
    match k with
    | .prinbeed => s
    | .daemon | .proxyConnection => s.register k { r with connection }
  else s

/-- The loop of stage 2 of `prinbeed::set_context()`. -/
def forwardContext (c : ContextMessage) :
    List PeerReference → Payload → MessageSender → MessageSender
  | [], _, s => s
  | r :: rs, payload, s =>
    if r.isNode then
      let n := nextSerialNumber s.serialNumber
      let s := { s with serialNumber := n }
      match createContextMessage c with
      | .error _ => s
      | .ok _ =>
        match Prinbeed.addMessageToAcknowledge payload n with
        | .error _ => s
        | .ok payload =>
          let m := s.nextMessage r.pointer n
          let s := s.expectAcknowledgment .prinbeed r.pointer n
          forwardContext c rs payload (s.sendMessage r m)
    else forwardContext c rs payload s

section Step

variable {Address : Type} (lib : AddrLibrary Address) (settings : NodeSettings Address)

/-- `register_prinbee_daemon()` of `prinbeed` and `msg_prinbee_current_status()` of the proxy. -/
def currentStatus (k : Component) (msg : CurrentStatus) : MessageSender :=
  match k with
  | .prinbeed =>
    match msg.announcement lib settings msg.nodeIp with
    | none => s
    | some c => if NodeClients.accepts lib settings c.2 then s.connectToNode c.1 else s
  | .daemon =>
    match msg.announcement lib settings msg.proxyIp with
    | none => s
    | some c => if lib.isNodeAddress c.2 then s.connectToDaemon c.1 else s
  | .proxyConnection => s

/-- The state after an event. -/
def step (k : Component) (s : MessageSender) (event : SenderEvent) : MessageSender :=
  match event with
  | .currentStatus msg => s.currentStatus lib settings k msg
  | .proxyStatus isReady => if k = .proxyConnection then s.startBinaryConnection isReady else s
  | .accept isNode =>
    if k = .prinbeed then s.registerConnection ⟨s.count, none, isNode, .serverClient⟩ else s
  | .timeout pointer connects =>
    match s.connections.find? (·.pointer = pointer) with
    | none => s
    | some r =>
      match r.connection with
      | .serverClient => s
      | .binaryClient c =>
        if c.inCommunicator && c.isEnabled then s.processTimeout k r c connects else s
  | .disconnected pointer =>
    match s.connections.find? (·.pointer = pointer) with
    | none => s
    | some r =>
      match r.connection with
      | .serverClient => { s with connections := s.connections.filter (·.pointer ≠ pointer) }
      | .binaryClient c => s.setConnection pointer (.binaryClient c.processDisconnected)
  | .markDone pointer =>
    match s.connections.find? (·.pointer = pointer) with
    | none => s
    | some r =>
      match r.connection with
      | .serverClient => s
      | .binaryClient c => s.setConnection pointer (.binaryClient { c with isDone := true })
  | .setContext payload c =>
    if k = .prinbeed then forwardContext c s.connections payload s else s
  | .reply pointer n success => { s with ack := k.step s.ack (.reply pointer n success) }
  | .newMessage => { s with serialNumber := nextSerialNumber s.serialNumber }
  | .stop => { s with connections := [] }

end Step

/-- **Every message in the table was written to an open connection to its peer, or queued in the
output buffer of one.** -/
def Transmitted : Prop := ∀ i m, s.ack.expected i = some m → (m.peer, m) ∈ s.transmitted

end MessageSender

/-- The status of a daemon that `prinbeed` makes a connection to. -/
def SenderEvent.Connects {Address : Type} (lib : AddrLibrary Address)
    (settings : NodeSettings Address) : SenderEvent → Prop
  | .currentStatus msg => ∃ c, msg.announcement lib settings msg.nodeIp = some c ∧
      NodeClients.accepts lib settings c.2 = true
  | _ => False

namespace MessageSender

variable {s s' : MessageSender} {k : Component} {r : PeerReference}

/-! ### The table and what was transmitted -/

/-- What is in the table was transmitted, and what was transmitted is not a later message. -/
structure Recorded (s : MessageSender) : Prop where
  transmitted : s.Transmitted
  earlier : ∀ t ∈ s.transmitted, t.2.index < s.ack.sent.length

theorem recorded_empty : Recorded {} where
  transmitted i m h := by cases h
  earlier t h := by cases h

/-- An event that touches neither. -/
theorem Recorded.congr (h : Recorded s) (hack : s'.ack = s.ack)
    (htransmitted : s'.transmitted = s.transmitted) : Recorded s' where
  transmitted := by
    intro i m hm
    rw [htransmitted]
    rw [hack] at hm
    exact h.transmitted i m hm
  earlier := by
    rw [htransmitted, hack]
    exact h.earlier

theorem ack_sendMessage (s : MessageSender) (r : PeerReference) (m : SentMessage) :
    (s.sendMessage r m).ack = s.ack := by
  unfold sendMessage
  split <;> rfl

/-- The table after the REG message. -/
theorem ack_register (s : MessageSender) (k : Component) (r : PeerReference) :
    (s.register k r).ack = s.ack.expectAcknowledgment (k.owner r.pointer) r.pointer
      (nextSerialNumber s.serialNumber) := by
  simp only [register, expectAcknowledgment, ack_sendMessage, Component.step_expect]

theorem transmitted_register (s : MessageSender) (k : Component) (r : PeerReference) :
    (s.register k r).transmitted =
      if r.connection.isOpen then
        s.transmitted ++
          [(r.pointer, s.nextMessage r.pointer (nextSerialNumber s.serialNumber))]
      else s.transmitted := by
  simp only [register, expectAcknowledgment, sendMessage]
  split <;> rfl

/-- A REG message that is sent on an open connection. -/
theorem Recorded.register (h : Recorded s) (k : Component) (hopen : r.connection.isOpen = true) :
    Recorded (s.register k r) := by
  have hack := ack_register s k r
  have htransmitted := transmitted_register s k r
  rw [if_pos hopen] at htransmitted
  constructor
  · intro i m hm
    rw [hack, AckState.expectAcknowledgment] at hm
    rw [htransmitted, List.mem_append]
    by_cases hi : i = (k.owner r.pointer, nextSerialNumber s.serialNumber)
    · rw [hi] at hm
      simp only [Function.update_self, Option.some.injEq] at hm
      subst hm
      exact .inr List.mem_cons_self
    · simp only [Function.update_of_ne hi] at hm
      exact .inl (h.transmitted i m hm)
  · intro t ht
    rw [htransmitted, List.mem_append, List.mem_singleton] at ht
    rw [hack, AckState.expectAcknowledgment, List.length_append, List.length_singleton]
    obtain ht | rfl := ht
    · exact Nat.lt_succ_of_lt (h.earlier t ht)
    · exact Nat.lt_succ_self _

/-- A REG message that is dropped is in the table all the same. -/
theorem Recorded.not_transmitted_register (h : Recorded s) (k : Component)
    (hclosed : r.connection.isOpen = false) : ¬ (s.register k r).Transmitted := by
  intro hall
  have hmem := hall (k.owner r.pointer, nextSerialNumber s.serialNumber)
    (s.nextMessage r.pointer (nextSerialNumber s.serialNumber))
    (by rw [ack_register, AckState.expectAcknowledgment]; exact Function.update_self _ _ _)
  rw [transmitted_register, hclosed, if_neg Bool.false_ne_true] at hmem
  exact Nat.lt_irrefl _ (h.earlier _ hmem)

theorem Recorded.reply (h : Recorded s) (k : Component) (pointer : ℕ) (n : UInt32)
    (success : Bool) : Recorded { s with ack := k.step s.ack (.reply pointer n success) } := by
  rw [Component.step_reply, AckState.processAcknowledgment]
  cases s.ack.expected (k.owner pointer, n) with
  | none => exact h.congr rfl rfl
  | some message =>
    refine ⟨?_, h.earlier⟩
    intro i m hm
    change (if k.erases then Function.update s.ack.expected _ none else s.ack.expected) i = _ at hm
    apply h.transmitted i m
    split_ifs at hm
    · -- an entry that is there after one was erased was there before
      by_cases hi : i = (k.owner pointer, n)
      · rw [hi, Function.update_self] at hm
        cases hm
      · rwa [Function.update_of_ne hi] at hm
    · exact hm

/-! ### Events -/

/-- `process_connected()` is called when the socket is open. -/
theorem isOpen_of_processTimeout {c : BinaryClient} {connects : Bool}
    (h : (c.processTimeout connects).2 = true) :
    (PeerConnection.binaryClient (c.processTimeout connects).1).isOpen = true := by
  obtain ⟨_, _, isDone, hasImpl⟩ := c
  cases isDone with
  | true => cases h
  | false =>
    cases hasImpl with
    | true => cases h
    | false =>
      cases connects with
      | true => rfl
      | false => cases h

theorem Recorded.processTimeout (h : Recorded s) (k : Component) (r : PeerReference)
    (c : BinaryClient) (connects : Bool) : Recorded (s.processTimeout k r c connects) := by
  have hopen := @isOpen_of_processTimeout c connects
  unfold MessageSender.processTimeout
  generalize c.processTimeout connects = result at *
  obtain ⟨c', isConnected⟩ := result
  have hset : Recorded (s.setConnection r.pointer (.binaryClient c')) := h.congr rfl rfl
  cases isConnected with
  | false => exact hset
  | true =>
    cases k with
    | prinbeed => exact hset
    | daemon => exact hset.register .daemon (hopen rfl)
    | proxyConnection => exact hset.register .proxyConnection (hopen rfl)

/-- The loop of stage 2 ends at the first node: the message cannot be made. -/
theorem exists_forwardContext (c : ContextMessage) (rs : List PeerReference) (payload : Payload)
    (s : MessageSender) : ∃ n, forwardContext c rs payload s = { s with serialNumber := n } := by
  induction rs with
  | nil => exact ⟨s.serialNumber, rfl⟩
  | cons r rs ih =>
    rw [forwardContext]
    split
    · obtain ⟨e, he⟩ := createContextMessage_error c
      simp only [he]
      exact ⟨_, rfl⟩
    · exact ih

section Runs

variable {Address : Type} (lib : AddrLibrary Address) (settings : NodeSettings Address)

theorem Recorded.currentStatus (h : Recorded s) (k : Component) {msg : CurrentStatus}
    (hok : k = .prinbeed → ¬ (SenderEvent.currentStatus msg).Connects lib settings) :
    Recorded (s.currentStatus lib settings k msg) := by
  cases k with
  | prinbeed =>
    simp only [MessageSender.currentStatus]
    cases hmsg : msg.announcement lib settings msg.nodeIp with
    | none => exact h
    | some c =>
      have haccepts : ¬ NodeClients.accepts lib settings c.2 = true := fun haccepts =>
        hok rfl ⟨c, hmsg, haccepts⟩
      simp only [haccepts]
      exact h
  | daemon =>
    simp only [MessageSender.currentStatus]
    split
    · exact h
    · split
      · unfold connectToDaemon
        split
        · exact h
        · exact h.congr rfl rfl
      · exact h
  | proxyConnection => exact h

/-- An event keeps the table within what was transmitted, unless `prinbeed` makes a
`node_client`. -/
theorem Recorded.step (h : Recorded s) (k : Component) {event : SenderEvent}
    (hok : k = .prinbeed → ¬ event.Connects lib settings) :
    Recorded (s.step lib settings k event) := by
  cases event with
  | currentStatus msg => exact h.currentStatus lib settings k hok
  | proxyStatus isReady =>
    simp only [MessageSender.step, startBinaryConnection]
    split_ifs <;> exact h.congr rfl rfl
  | accept isNode =>
    simp only [MessageSender.step]
    split <;> exact h.congr rfl rfl
  | timeout pointer connects =>
    simp only [MessageSender.step]
    split
    · exact h
    · split
      · exact h
      · split
        · exact h.processTimeout k _ _ connects
        · exact h
  | disconnected pointer =>
    simp only [MessageSender.step]
    split
    · exact h
    · split <;> exact h.congr rfl rfl
  | markDone pointer =>
    simp only [MessageSender.step]
    split
    · exact h
    · split <;> exact h.congr rfl rfl
  | setContext payload c =>
    simp only [MessageSender.step]
    split
    · obtain ⟨n, hn⟩ := exists_forwardContext c s.connections payload s
      rw [hn]
      exact h.congr rfl rfl
    · exact h
  | reply pointer n success => exact h.reply k pointer n success
  | newMessage => exact h.congr rfl rfl
  | stop => exact h.congr rfl rfl

/-- The REG message to a daemon that `prinbeed` connects to is dropped. -/
theorem Recorded.not_transmitted_step (h : Recorded s) {event : SenderEvent}
    (hconnects : event.Connects lib settings) :
    ¬ (s.step lib settings .prinbeed event).Transmitted := by
  cases event with
  | currentStatus msg =>
    obtain ⟨c, hmsg, haccepts⟩ := hconnects
    simp only [MessageSender.step, MessageSender.currentStatus, hmsg, haccepts, if_true]
    have hregistered : Recorded (s.registerConnection
        ⟨s.count, some c.1, true, .binaryClient { inCommunicator := false }⟩) := h.congr rfl rfl
    apply hregistered.not_transmitted_register
    rfl
  | _ => cases hconnects

/-- **In a run, every message in the table was transmitted to its peer, exactly when the component
is not a `prinbeed` that gets the status of a daemon that it connects to.** -/
theorem transmitted_iff (k : Component) (events : List SenderEvent) :
    Run.Always Transmitted (MessageSender.step lib settings k) {} events ↔
      (k = .prinbeed → ∀ event ∈ events, ¬ event.Connects lib settings) := by
  have hkeep : ∀ s event, Recorded s → (k = .prinbeed → ¬ event.Connects lib settings) →
      Recorded (s.step lib settings k event) := fun s event h hok => h.step lib settings k hok
  have hlost : ∀ s event, Recorded s → (s.step lib settings k event).Transmitted →
      k = .prinbeed → ¬ event.Connects lib settings := by
    intro s event h hall hk hconnects
    subst hk
    exact h.not_transmitted_step lib settings hconnects hall
  rw [Run.always_iff (fun _ => Recorded.transmitted) hkeep hlost events {} recorded_empty,
    Run.each_const]
  exact ⟨fun h hk event hevent => h event hevent hk, fun h event hevent hk => h hk event hevent⟩

end Runs

/-- The status of a daemon with a smaller address. -/
theorem not_transmitted : ¬ ∀ (k : Component) (events : List SenderEvent),
    Run.Always Transmitted (MessageSender.step portAddresses ⟨"c", 9⟩ k) {} events := by
  intro h
  have hend := (h .prinbeed [.currentStatus ⟨"c", "up", "1", none, "n"⟩]).foldl
  exact absurd (hend (none, 1) ⟨0, 0, 1⟩ rfl) (by decide)

end MessageSender

end Prinbee
