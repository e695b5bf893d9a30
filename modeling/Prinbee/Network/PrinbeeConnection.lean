import Mathlib.Logic.Function.Basic
import Prinbee.Lib.Run

/-!
# The connection of a client to its proxy

A client has a `prinbee_connection`, which listens to the messenger, and at most one
`proxy_connection`, which is a `binary_client`: a timer that opens a socket, and that is enabled
again when the socket is lost.  Each time a socket opens, a REG message is sent on it, and saved in
`f_expected_acknowledgment`.  The entry and `f_registered` outlive the socket.

## Main definitions

* `AddrLibrary` — what the components use of the address library.
* `PrinbeeConnection`, `ProxyConnection`, `BinaryClientImpl` — the three objects.
* `PrinbeeConnection.step` — the events of a client.
* `PrinbeeConnection.Registered` — registered means that the REG message of the open socket was
  acknowledged on it.
* `PrinbeeConnection.Safe` — the events that keep it so.

## Main results

* `PrinbeeConnection.registered_iff` — in which runs it is so in every state.
-/

namespace Prinbee

/-- The types of addresses a node may have, and all the others. -/
inductive NetworkType
  | networkTypePublic
  | networkTypePrivate
  | networkTypeLoopback
  | other
  deriving DecidableEq, Repr

/-- The library of addresses: `string_to_addr()`, which throws, with a default address and port;
`get_network_type()`; and `operator <`. -/
structure AddrLibrary (Address : Type) where
  stringToAddr : String → String → ℕ → Option Address
  getNetworkType : Address → NetworkType
  less : Address → Address → Bool

/-- The port the proxy listens on. -/
def clientBinaryPort : ℕ := 4013

/-- What `msg_process_reply()` looks at in a message: which one it is, and for a list of contexts
whether it can be deserialized. -/
inductive ReplyMessage
  | register
  | listContexts (valid : Bool)
  | other
  deriving DecidableEq, Repr

/-- `msg_reply_t` -/
inductive MsgReply
  | received
  | failed
  | succeeded
  deriving DecidableEq, Repr

/-- `binary_client_impl`, the open socket: the serial number of the REG message that was sent on it,
and those in the ACK messages that were received on it. -/
structure BinaryClientImpl where
  register : UInt32
  acknowledged : List UInt32 := []
  deriving DecidableEq, Repr

/-- `proxy_connection` with its base class `binary_client`. -/
structure ProxyConnection (Address : Type) where
  remoteAddress : Address
  enabled : Bool := true
  impl : Option BinaryClientImpl := none
  expectedAcknowledgment : UInt32 → Option ReplyMessage := fun _ => none
  pingSerialNumber : UInt32 := 0
  registered : Bool := false

/-- `prinbee_connection` with what it asks its base classes: whether the messenger and the fluid
settings are registered and ready. -/
structure PrinbeeConnection (Address : Type) [Inhabited Address] where
  proxyStatus : String := "unknown"
  address : Address := default
  proxyConnection : Option (ProxyConnection Address) := none
  fluidSettingsRegistered : Bool := false
  fluidSettingsReady : Bool := false
  messengerReady : Bool := false

/-- The messages a `proxy_connection` receives.  An ACK or a PONG that cannot be deserialized has no
serial number; that of an ERR is then the one it has by default. -/
inductive ProxyMessage
  | error (serialNumber : UInt32)
  | acknowledge (serialNumber : Option UInt32)
  | pong (pingSerialNumber : Option UInt32)
  | unknown (message : ReplyMessage)
  deriving DecidableEq, Repr

/-- What happens in a client: the messenger receives the status of the proxy or of a service, the
messenger and the fluid settings change, the fluid settings become ready, the timer opens a socket
on which the REG message has the given serial number (or fails), the socket is lost, a PING is
sent, and a message is received. -/
inductive ClientEvent
  | proxyCurrentStatus (status proxyIp : Option String)
  | serviceStatus (service status : String)
  | messenger (fluidSettingsRegistered fluidSettingsReady messengerReady : Bool)
  | fluidSettingsReady
  | timeout (register : Option UInt32)
  | disconnected
  | ping (serialNumber : UInt32)
  | receive (message : ProxyMessage)
  deriving Repr

namespace ProxyConnection

variable {Address : Type} (p : ProxyConnection Address)

def isConnected : Bool := p.impl.isSome

/-- The REG message is sent on the new socket, and it is expected to be acknowledged. -/
def processConnected (register : UInt32) : ProxyConnection Address :=
  { p with
    enabled := false
    expectedAcknowledgment :=
      Function.update p.expectedAcknowledgment register (some .register) }

/-- `binary_client::process_timeout()` -/
def processTimeout (register : Option UInt32) : ProxyConnection Address :=
  match p.impl, register with
  | some _, _ => { p with enabled := false }
  | none, some register =>
    { p with impl := some { register := register } }.processConnected register
  | none, none => p

/-- `binary_client::process_disconnected()` -/
def processDisconnected : ProxyConnection Address :=
  { p with impl := none, enabled := true }

/-- The number in an ACK is kept with the socket. -/
def recordAcknowledgment (impl : BinaryClientImpl) : ProxyMessage → ProxyConnection Address
  | .acknowledge (some serialNumber) =>
    { p with impl := some { impl with acknowledged := serialNumber :: impl.acknowledged } }
  | _ => p

end ProxyConnection

namespace PrinbeeConnection

variable {Address : Type} [DecidableEq Address] [Inhabited Address] (lib : AddrLibrary Address)
  (s : PrinbeeConnection Address)

def hasAddress : Bool := s.address ≠ default

def isProxyReady : Bool :=
  s.hasAddress && s.proxyStatus = "up" && s.fluidSettingsRegistered && s.fluidSettingsReady &&
    s.messengerReady

def isProxyRegistered : Bool :=
  s.proxyConnection.any fun p => p.isConnected && p.registered

/-- The connection is removed when the proxy is not ready; one that exists is kept as it is. -/
def startBinaryConnection : PrinbeeConnection Address :=
  if s.isProxyReady then
    match s.proxyConnection with
    | some _ => s
    | none => { s with proxyConnection := some { remoteAddress := s.address } }
  else { s with proxyConnection := none }

def processProxyStatus : PrinbeeConnection Address := s.startBinaryConnection

def setProxyStatusAndAddress (status : String) (address : Address) : PrinbeeConnection Address :=
  if status = s.proxyStatus ∧ address = s.address then s
  else { s with proxyStatus := status, address := address }.processProxyStatus

/-- The address of the message, or the default one; an invalid one throws. -/
def statusAddress (proxyIp : Option String) : Option Address :=
  match proxyIp with
  | none => some default
  | some proxyIp => lib.stringToAddr proxyIp "127.0.0.1" clientBinaryPort

def msgPrinbeeProxyCurrentStatus (status proxyIp : Option String) : PrinbeeConnection Address :=
  match statusAddress lib proxyIp with
  | none => s
  | some address => s.setProxyStatusAndAddress (status.getD "unknown") address

/-- `service_status()`, after that of the base class. -/
def serviceStatus (service status : String) : PrinbeeConnection Address :=
  if service = "pb_proxy" ∧ status ≠ "up" then s.setProxyStatusAndAddress "down" s.address else s

/-- `proxy_connection::set_proxy_registered()` of the object `p` that `s` has. -/
def setProxyRegistered (p : ProxyConnection Address) (isRegistered : Bool) :
    PrinbeeConnection Address :=
  if isRegistered = p.registered then { s with proxyConnection := some p }
  else
    { s with proxyConnection := some { p with registered := isRegistered } }.processProxyStatus

/-- `proxy_connection::save_context_list()`; the list itself is left out. -/
def saveContextList (p : ProxyConnection Address) (valid : Bool) : PrinbeeConnection Address :=
  if valid then { s with proxyConnection := some p }.processProxyStatus
  else { s with proxyConnection := some p }

/-- `proxy_connection::msg_process_reply()`; the request for the list of contexts that is sent when
the client is registered is left out. -/
def msgProcessReply (p : ProxyConnection Address) (message : ReplyMessage) (state : MsgReply) :
    PrinbeeConnection Address :=
  match message with
  | .register => s.setProxyRegistered p (state = .succeeded)
  | .listContexts valid =>
    if state = .received then s.saveContextList p valid else { s with proxyConnection := some p }
  | .other => { s with proxyConnection := some p }

/-- `proxy_connection::process_acknowledgment()`; the entry stays. -/
def processAcknowledgment (p : ProxyConnection Address) (serialNumber : UInt32) (success : Bool) :
    PrinbeeConnection Address :=
  match p.expectedAcknowledgment serialNumber with
  | none => { s with proxyConnection := some p }
  | some message => s.msgProcessReply p message (if success then .succeeded else .failed)

/-- `proxy_connection::msg_pong()` -/
def msgPong (p : ProxyConnection Address) (serialNumber : UInt32) : PrinbeeConnection Address :=
  if p.pingSerialNumber = serialNumber then
    { s with proxyConnection := some { p with pingSerialNumber := 0 } }.processProxyStatus
  else { s with proxyConnection := some p }

/-- `binary_client::process_message()` with the callbacks of `proxy_connection`. -/
def processMessage (p : ProxyConnection Address) (message : ProxyMessage) :
    PrinbeeConnection Address :=
  match message with
  | .error serialNumber => s.processAcknowledgment p serialNumber false
  | .acknowledge none => { s with proxyConnection := some p }
  | .acknowledge (some serialNumber) => s.processAcknowledgment p serialNumber true
  | .pong none => { s with proxyConnection := some p }
  | .pong (some serialNumber) => s.msgPong p serialNumber
  | .unknown message => s.msgProcessReply p message .received

/-- An event of the `proxy_connection`: nothing happens to one that does not exist, its timer runs
while it is enabled, and messages are received while the socket is open. -/
def proxyStep (p : ProxyConnection Address) (event : ClientEvent) : PrinbeeConnection Address :=
  match event with
  | .timeout register =>
    if p.enabled then { s with proxyConnection := some (p.processTimeout register) } else s
  | .disconnected => { s with proxyConnection := some p.processDisconnected }
  | .ping serialNumber =>
    { s with proxyConnection := some { p with pingSerialNumber := serialNumber } }
  | .receive message =>
    match p.impl with
    | none => s
    | some impl => s.processMessage (p.recordAcknowledgment impl message) message
  | _ => s

def step (s : PrinbeeConnection Address) (event : ClientEvent) : PrinbeeConnection Address :=
  match event with
  | .proxyCurrentStatus status proxyIp => s.msgPrinbeeProxyCurrentStatus lib status proxyIp
  | .serviceStatus service status => s.serviceStatus service status
  | .messenger fluidSettingsRegistered fluidSettingsReady messengerReady =>
    { s with
      fluidSettingsRegistered := fluidSettingsRegistered
      fluidSettingsReady := fluidSettingsReady
      messengerReady := messengerReady }
  | .fluidSettingsReady => s.processProxyStatus
  | event =>
    match s.proxyConnection with
    | none => s
    | some p => s.proxyStep p event

/-- **Registered means acknowledged**: the REG message of the socket that is open was acknowledged
on that socket. -/
def Registered : Prop :=
  s.isProxyRegistered = true → ∃ p impl, s.proxyConnection = some p ∧ p.impl = some impl ∧
    impl.register ∈ impl.acknowledged

/-- A socket opens while `f_registered` is not set, and the ACK of another REG message than that of
the open socket does not come first, or finds a proxy that is not ready any more. -/
def Safe (event : ClientEvent) : Prop :=
  ∀ p, s.proxyConnection = some p → match event with
    | .timeout (some _) => p.enabled = true → p.impl = none → p.registered = false
    | .receive (.acknowledge (some serialNumber)) => ∀ impl, p.impl = some impl →
        p.expectedAcknowledgment serialNumber = some .register →
        serialNumber = impl.register ∨ impl.register ∈ impl.acknowledged ∨ s.isProxyReady = false
    | _ => True

end PrinbeeConnection

/-! ### The object after an event -/

/-- What `PrinbeeConnection.Registered` says of the object. -/
def ProxyConnection.Acknowledged {Address : Type} (p : ProxyConnection Address) : Prop :=
  p.registered = true → ∀ impl, p.impl = some impl → impl.register ∈ impl.acknowledged

namespace ProxyConnection

variable {Address : Type} {p : ProxyConnection Address} {impl : BinaryClientImpl}

theorem acknowledged_of_not_registered (h : p.registered = false) : p.Acknowledged := by
  intro hregistered
  rw [h] at hregistered
  cases hregistered

theorem acknowledged_of_not_connected (h : p.impl = none) : p.Acknowledged := by
  intro _ impl himpl
  rw [h] at himpl
  cases himpl

@[simp] theorem remoteAddress_recordAcknowledgment (message : ProxyMessage) :
    (p.recordAcknowledgment impl message).remoteAddress = p.remoteAddress := by
  unfold recordAcknowledgment
  split <;> rfl

@[simp] theorem registered_recordAcknowledgment (message : ProxyMessage) :
    (p.recordAcknowledgment impl message).registered = p.registered := by
  unfold recordAcknowledgment
  split <;> rfl

/-- One more ACK on the socket. -/
theorem Acknowledged.record (h : p.Acknowledged) (himpl : p.impl = some impl)
    (message : ProxyMessage) : (p.recordAcknowledgment impl message).Acknowledged := by
  unfold recordAcknowledgment
  split
  · intro hregistered impl' himpl'
    obtain rfl := Option.some.inj himpl'
    exact List.mem_cons_of_mem _ (h hregistered impl himpl)
  · exact h

end ProxyConnection

namespace PrinbeeConnection

variable {Address : Type} [DecidableEq Address] [Inhabited Address] {lib : AddrLibrary Address}
  {s : PrinbeeConnection Address} {p p' : ProxyConnection Address} {event : ClientEvent}

omit [DecidableEq Address] in
theorem registered_iff_acknowledged :
    s.Registered ↔ ∀ p, s.proxyConnection = some p → p.Acknowledged := by
  unfold Registered isProxyRegistered ProxyConnection.isConnected
  cases hp : s.proxyConnection with
  | none => simp
  | some p =>
    cases himpl : p.impl with
    | none => simp [ProxyConnection.acknowledged_of_not_connected himpl, himpl]
    | some impl => simp [ProxyConnection.Acknowledged, himpl]

@[simp] theorem proxyStatus_startBinaryConnection :
    s.startBinaryConnection.proxyStatus = s.proxyStatus := by
  unfold startBinaryConnection
  split
  · split <;> rfl
  · rfl

@[simp] theorem address_startBinaryConnection : s.startBinaryConnection.address = s.address := by
  unfold startBinaryConnection
  split
  · split <;> rfl
  · rfl

/-- The proxy is ready, and the object stays as it is or is a new one for the address that was
announced. -/
theorem proxyConnection_startBinaryConnection
    (h : s.startBinaryConnection.proxyConnection = some p') :
    s.isProxyReady = true ∧ (s.proxyConnection = some p' ∨
      s.proxyConnection = none ∧ p' = { remoteAddress := s.address }) := by
  unfold startBinaryConnection at h
  split at h
  · next hready =>
    refine ⟨hready, ?_⟩
    cases hp : s.proxyConnection with
    | none =>
      rw [hp] at h
      exact .inr ⟨rfl, (Option.some.inj h).symm⟩
    | some p =>
      rw [hp] at h
      exact .inl (hp ▸ h)
  · cases h

theorem processProxyStatus_of_ready (hready : s.isProxyReady = true)
    (p : ProxyConnection Address) :
    { s with proxyConnection := some p }.processProxyStatus =
      { s with proxyConnection := some p } := by
  rw [processProxyStatus, startBinaryConnection]
  exact if_pos hready

/-- An object that is there stays as it is, and the proxy is ready. -/
theorem proxyConnection_processProxyStatus
    (h : ({ s with proxyConnection := some p }.processProxyStatus).proxyConnection = some p') :
    p' = p ∧ s.isProxyReady = true := by
  obtain ⟨hready, hsame | ⟨hnone, -⟩⟩ := proxyConnection_startBinaryConnection h
  · exact ⟨(Option.some.inj hsame).symm, hready⟩
  · cases hnone

theorem proxyStatus_of_isProxyReady (h : s.isProxyReady = true) : s.proxyStatus = "up" := by
  simp only [isProxyReady, Bool.and_eq_true, decide_eq_true_eq] at h
  exact h.1.1.1.2

@[simp] theorem proxyStatus_setProxyStatusAndAddress (status : String) (address : Address) :
    (s.setProxyStatusAndAddress status address).proxyStatus = status := by
  unfold setProxyStatusAndAddress processProxyStatus
  split
  · next h => exact h.1.symm
  · simp

@[simp] theorem address_setProxyStatusAndAddress (status : String) (address : Address) :
    (s.setProxyStatusAndAddress status address).address = address := by
  unfold setProxyStatusAndAddress processProxyStatus
  split
  · next h => exact h.2.symm
  · simp

/-- After a status, the object is the same or a new one, for an address that is up. -/
theorem proxyConnection_setProxyStatusAndAddress {status : String} {address : Address}
    (h : (s.setProxyStatusAndAddress status address).proxyConnection = some p') :
    s.proxyConnection = some p' ∨
      s.proxyConnection = none ∧ status = "up" ∧ p' = { remoteAddress := address } := by
  unfold setProxyStatusAndAddress at h
  split at h
  · exact .inl h
  · obtain ⟨hready, hsame | hnew⟩ := proxyConnection_startBinaryConnection h
    · exact .inl hsame
    · exact .inr ⟨hnew.1, proxyStatus_of_isProxyReady hready, hnew.2⟩

/-- The object is there after a status: nothing changed, or the proxy is ready. -/
theorem isProxyReady_of_proxyConnection {status : String} {address : Address}
    (h : (s.setProxyStatusAndAddress status address).proxyConnection = some p') :
    (status = s.proxyStatus ∧ address = s.address) ∨
      { s with proxyStatus := status, address := address }.isProxyReady = true := by
  unfold setProxyStatusAndAddress at h
  split at h
  · next hsame => exact .inl hsame
  · exact .inr (proxyConnection_startBinaryConnection h).1

theorem proxyConnection_setProxyStatusAndAddress_of_ready {status : String} {address : Address}
    (hp : s.proxyConnection = some p)
    (hready : { s with proxyStatus := status, address := address }.isProxyReady = true) :
    (s.setProxyStatusAndAddress status address).proxyConnection = some p := by
  unfold setProxyStatusAndAddress
  split
  · exact hp
  · rw [processProxyStatus, startBinaryConnection, if_pos hready]
    simp only [hp]

/-- A reply changes `f_registered` only, and sets it for the ACK of a REG message. -/
theorem proxyConnection_msgProcessReply {message : ReplyMessage} {state : MsgReply}
    (h : (s.msgProcessReply p message state).proxyConnection = some p') :
    p' = p ∨ p' = { p with registered := false } ∨
      p' = { p with registered := true } ∧ message = .register ∧ state = .succeeded ∧
        s.isProxyReady = true := by
  cases message with
  | register =>
    unfold msgProcessReply setProxyRegistered at h
    dsimp only at h
    split at h
    · exact .inl (Option.some.inj h).symm
    · obtain ⟨rfl, hready⟩ := proxyConnection_processProxyStatus h
      right
      cases state with
      | succeeded => exact .inr ⟨rfl, rfl, rfl, hready⟩
      | received => exact .inl rfl
      | failed => exact .inl rfl
  | listContexts valid =>
    left
    unfold msgProcessReply saveContextList at h
    dsimp only at h
    split at h
    · split at h
      · exact (proxyConnection_processProxyStatus h).1
      · exact (Option.some.inj h).symm
    · exact (Option.some.inj h).symm
  | other => exact .inl (Option.some.inj h).symm

/-- So does an acknowledgment. -/
theorem proxyConnection_processAcknowledgment {serialNumber : UInt32} {success : Bool}
    (h : (s.processAcknowledgment p serialNumber success).proxyConnection = some p') :
    p' = p ∨ p' = { p with registered := false } ∨
      p' = { p with registered := true } ∧ success = true ∧
        p.expectedAcknowledgment serialNumber = some .register ∧ s.isProxyReady = true := by
  unfold processAcknowledgment at h
  split at h
  · exact .inl (Option.some.inj h).symm
  · next message hfound =>
    rcases proxyConnection_msgProcessReply h with hsame | hunset | ⟨hset, rfl, hstate, hready⟩
    · exact .inl hsame
    · exact .inr (.inl hunset)
    · refine .inr (.inr ⟨hset, ?_, hfound, hready⟩)
      cases success with
      | true => rfl
      | false => cases hstate

/-- A message is received on the socket of `p`: only the ACK of a REG message sets
`f_registered`. -/
theorem proxyConnection_processMessage {message : ProxyMessage}
    (h : (s.processMessage p message).proxyConnection = some p') :
    p' = p ∨ p' = { p with pingSerialNumber := 0 } ∨ p' = { p with registered := false } ∨
      p' = { p with registered := true } ∧ s.isProxyReady = true ∧
        ∃ serialNumber, message = .acknowledge (some serialNumber) ∧
          p.expectedAcknowledgment serialNumber = some .register := by
  unfold processMessage at h
  split at h
  · -- an ERR
    rcases proxyConnection_processAcknowledgment h with hsame | hunset | ⟨-, hsuccess, -⟩
    · exact .inl hsame
    · exact .inr (.inr (.inl hunset))
    · cases hsuccess
  · exact .inl (Option.some.inj h).symm
  · next serialNumber =>
    rcases proxyConnection_processAcknowledgment h with hsame | hunset | ⟨hset, -, hfound, hready⟩
    · exact .inl hsame
    · exact .inr (.inr (.inl hunset))
    · exact .inr (.inr (.inr ⟨hset, hready, serialNumber, rfl, hfound⟩))
  · exact .inl (Option.some.inj h).symm
  · unfold msgPong at h
    split at h
    · exact .inr (.inl (proxyConnection_processProxyStatus h).1)
    · exact .inl (Option.some.inj h).symm
  · rcases proxyConnection_msgProcessReply h with hsame | hunset | ⟨-, -, hstate, -⟩
    · exact .inl hsame
    · exact .inr (.inr (.inl hunset))
    · cases hstate

/-- The object has its address still, and a safe event leaves it acknowledged. -/
def Keeps (s : PrinbeeConnection Address) (event : ClientEvent)
    (p p' : ProxyConnection Address) : Prop :=
  p'.remoteAddress = p.remoteAddress ∧ (p.Acknowledged → s.Safe event → p'.Acknowledged)

theorem Keeps.refl (s : PrinbeeConnection Address) (event : ClientEvent)
    (p : ProxyConnection Address) : s.Keeps event p p :=
  ⟨rfl, fun hack _ => hack⟩

theorem keeps_receive {message : ProxyMessage} {impl : BinaryClientImpl}
    (hp : s.proxyConnection = some p) (himpl : p.impl = some impl)
    (h : (s.processMessage (p.recordAcknowledgment impl message) message).proxyConnection =
      some p') : s.Keeps (.receive message) p p' := by
  rcases proxyConnection_processMessage h with
    rfl | rfl | rfl | ⟨rfl, hready, serialNumber, rfl, hfound⟩
  · exact ⟨by simp, fun hack _ => hack.record himpl message⟩
  · exact ⟨by simp, fun hack _ => hack.record himpl message⟩
  · exact ⟨by simp, fun _ _ => ProxyConnection.acknowledged_of_not_registered rfl⟩
  · refine ⟨by simp, fun _ hsafe _ impl' himpl' => ?_⟩
    obtain rfl : { impl with acknowledged := serialNumber :: impl.acknowledged } = impl' :=
      Option.some.inj himpl'
    rcases hsafe p hp impl himpl hfound with hregister | hbefore | hdown
    · exact List.mem_cons.2 (.inl hregister.symm)
    · exact List.mem_cons_of_mem _ hbefore
    · rw [hready] at hdown
      cases hdown

theorem keeps_timeout (hp : s.proxyConnection = some p) (henabled : p.enabled = true)
    (register : Option UInt32) : s.Keeps (.timeout register) p (p.processTimeout register) := by
  unfold ProxyConnection.processTimeout
  split
  · exact ⟨rfl, fun hack _ => hack⟩
  · next himpl =>
    -- the flag of the last socket is still there
    refine ⟨rfl, fun _ hsafe => ProxyConnection.acknowledged_of_not_registered ?_⟩
    exact hsafe p hp henabled himpl
  · exact Keeps.refl s _ p

theorem keeps_proxyStep (hp : s.proxyConnection = some p)
    (h : (s.proxyStep p event).proxyConnection = some p') : s.Keeps event p p' := by
  have hsame (hs : s.proxyConnection = some p') : s.Keeps event p p' := by
    obtain rfl : p = p' := Option.some.inj (hp.symm.trans hs)
    exact Keeps.refl s event p
  unfold proxyStep at h
  split at h
  · split at h
    · next henabled =>
      obtain rfl := Option.some.inj h
      exact keeps_timeout hp henabled _
    · exact hsame h
  · obtain rfl := Option.some.inj h
    exact ⟨rfl, fun _ _ => ProxyConnection.acknowledged_of_not_connected rfl⟩
  · obtain rfl := Option.some.inj h
    exact ⟨rfl, fun hack _ => hack⟩
  · split at h
    · exact hsame h
    · next himpl => exact keeps_receive hp himpl h
  · exact hsame h

/-- **The object after an event** is the one before it, with the same address, or a new one for the
address that is up. -/
theorem proxyConnection_step (h : (step lib s event).proxyConnection = some p') :
    (∃ p, s.proxyConnection = some p ∧ s.Keeps event p p') ∨
      s.proxyConnection = none ∧ (step lib s event).proxyStatus = "up" ∧
        p' = { remoteAddress := (step lib s event).address } := by
  have hsame (hs : s.proxyConnection = some p') :
      ∃ p, s.proxyConnection = some p ∧ s.Keeps event p p' := ⟨p', hs, Keeps.refl s event p'⟩
  unfold step at h ⊢
  split at h
  · unfold msgPrinbeeProxyCurrentStatus at h ⊢
    split at h
    · exact .inl (hsame h)
    · simpa using (proxyConnection_setProxyStatusAndAddress h).imp_left hsame
  · unfold serviceStatus at h ⊢
    split at h
    · next hdown =>
      simpa [hdown] using (proxyConnection_setProxyStatusAndAddress h).imp_left hsame
    · exact .inl (hsame h)
  · exact .inl (hsame h)
  · obtain ⟨hready, hstart⟩ := proxyConnection_startBinaryConnection h
    refine hstart.imp hsame fun hnew => ⟨hnew.1, ?_, ?_⟩
    · rw [processProxyStatus, proxyStatus_startBinaryConnection]
      exact proxyStatus_of_isProxyReady hready
    · rw [processProxyStatus, address_startBinaryConnection]
      exact hnew.2
  · split at h
    · exact .inl (hsame h)
    · next p hp => exact .inl ⟨p, hp, keeps_proxyStep hp h⟩

/-- The status and the address are those of `s`. -/
def SameStatus (s s' : PrinbeeConnection Address) : Prop :=
  s'.proxyStatus = s.proxyStatus ∧ s'.address = s.address

theorem sameStatus_processProxyStatus {s' : PrinbeeConnection Address} (h : SameStatus s s') :
    SameStatus s s'.processProxyStatus := by
  unfold processProxyStatus
  exact ⟨by simp [h.1], by simp [h.2]⟩

theorem sameStatus_msgProcessReply (message : ReplyMessage) (state : MsgReply) :
    SameStatus s (s.msgProcessReply p message state) := by
  unfold msgProcessReply setProxyRegistered saveContextList
  split
  · split
    · exact ⟨rfl, rfl⟩
    · exact sameStatus_processProxyStatus ⟨rfl, rfl⟩
  · split
    · split
      · exact sameStatus_processProxyStatus ⟨rfl, rfl⟩
      · exact ⟨rfl, rfl⟩
    · exact ⟨rfl, rfl⟩
  · exact ⟨rfl, rfl⟩

theorem sameStatus_processMessage (message : ProxyMessage) :
    SameStatus s (s.processMessage p message) := by
  have hack (serialNumber : UInt32) (success : Bool) :
      SameStatus s (s.processAcknowledgment p serialNumber success) := by
    unfold processAcknowledgment
    split
    · exact ⟨rfl, rfl⟩
    · exact sameStatus_msgProcessReply _ _
  unfold processMessage msgPong
  split
  · exact hack _ _
  · exact ⟨rfl, rfl⟩
  · exact hack _ _
  · exact ⟨rfl, rfl⟩
  · split
    · exact sameStatus_processProxyStatus ⟨rfl, rfl⟩
    · exact ⟨rfl, rfl⟩
  · exact sameStatus_msgProcessReply _ _

/-- The events of the `proxy_connection` leave the status. -/
theorem sameStatus_proxyStep : SameStatus s (s.proxyStep p event) := by
  unfold proxyStep
  split
  · split <;> exact ⟨rfl, rfl⟩
  · exact ⟨rfl, rfl⟩
  · exact ⟨rfl, rfl⟩
  · split
    · exact ⟨rfl, rfl⟩
    · exact sameStatus_processMessage _
  · exact ⟨rfl, rfl⟩

/-! ### Runs -/

/-- A safe event keeps it so. -/
theorem registered_step (h : s.Registered) (hsafe : s.Safe event) : (step lib s event).Registered := by
  rw [registered_iff_acknowledged] at h ⊢
  intro p' hp'
  rcases proxyConnection_step hp' with ⟨p, hp, hkeeps⟩ | ⟨-, -, rfl⟩
  · exact hkeeps.2 (h p hp) hsafe
  · exact ProxyConnection.acknowledged_of_not_registered rfl

/-- The first ACK of a REG message sets the flag. -/
theorem step_acknowledge (lib : AddrLibrary Address) {impl : BinaryClientImpl}
    {serialNumber : UInt32}
    (hp : s.proxyConnection = some p) (himpl : p.impl = some impl)
    (hfound : p.expectedAcknowledgment serialNumber = some .register)
    (hunset : p.registered = false) (hready : s.isProxyReady = true) :
    (step lib s (.receive (.acknowledge (some serialNumber)))).proxyConnection =
      some { p with
        impl := some { impl with acknowledged := serialNumber :: impl.acknowledged }
        registered := true } := by
  simp only [step, hp, proxyStep, himpl, processMessage, processAcknowledgment,
    ProxyConnection.recordAcknowledgment, hfound, if_true, msgProcessReply, setProxyRegistered,
    hunset, decide_true, Bool.true_eq_false, if_false]
  rw [processProxyStatus_of_ready hready]

/-- An event that is not safe sets the flag, or opens a socket while it is set. -/
theorem safe_of_registered_step (h : s.Registered) (hstep : (step lib s event).Registered) :
    s.Safe event := by
  rw [registered_iff_acknowledged] at h hstep
  intro p hp
  cases event with
  | timeout register =>
    cases register with
    | none => trivial
    | some register =>
      intro henabled himpl
      by_contra hregistered
      have hnext : (step lib s (.timeout (some register))).proxyConnection =
          some (p.processTimeout (some register)) := by
        simp only [step, hp, proxyStep, henabled, if_true]
      have hack := hstep _ hnext
      simp only [ProxyConnection.processTimeout, himpl] at hack
      exact absurd (hack (eq_true_of_ne_false hregistered) _ rfl) List.not_mem_nil
  | receive message =>
    cases message with
    | acknowledge serialNumber =>
      cases serialNumber with
      | none => trivial
      | some serialNumber =>
        intro impl himpl hfound
        by_contra hnot
        obtain ⟨hother, hnever, hready⟩ := by simpa only [not_or, Bool.not_eq_false] using hnot
        have hunset : p.registered = false := by
          by_contra hregistered
          exact hnever (h p hp (eq_true_of_ne_false hregistered) impl himpl)
        -- the flag is set, and the object stays
        have hnext := step_acknowledge lib hp himpl hfound hunset hready
        have hack := hstep _ hnext
        rcases List.mem_cons.1 (hack rfl _ rfl) with hregister | hbefore
        · exact hother hregister.symm
        · exact hnever hbefore
    | _ => trivial
  | _ => trivial

/-- **Registered means acknowledged exactly in the runs of safe events**: whatever happens to the
client, in any order, `is_proxy_registered()` is only true when the REG message of the open socket
was acknowledged on it, in every state of the run, if and only if every event of the run is safe. -/
theorem registered_iff (lib : AddrLibrary Address) (events : List ClientEvent) :
    Run.Always Registered (step lib) {} events ↔ Run.Each Safe (step lib) {} events := by
  have hstart : Registered ({} : PrinbeeConnection Address) := by
    intro hregistered
    cases hregistered
  exact Run.always_iff (P := Registered) (fun _ h => h) (fun _ _ => registered_step)
    (fun _ _ => safe_of_registered_step) events _ hstart

/-- The addresses of a library that knows one of them. -/
def oneAddress : AddrLibrary ℕ where
  stringToAddr _ _ _ := some 1
  getNetworkType _ := .networkTypeLoopback
  less a b := a < b

/-- The client is registered, and its socket is lost and opened again: it is registered before the
second REG message is acknowledged. -/
theorem not_registered :
    ¬ ∀ events : List ClientEvent, Run.Always Registered (step oneAddress) {} events := by
  intro h
  have hend := (h [.messenger true true true, .proxyCurrentStatus (some "up") (some "127.0.0.1:4013"),
    .timeout (some 1), .receive (.acknowledge (some 1)), .disconnected, .timeout (some 2)]).foldl
  obtain ⟨p, impl, hp, himpl, hmem⟩ := hend rfl
  cases hp
  cases himpl
  exact absurd hmem (by decide)

end PrinbeeConnection

end Prinbee
