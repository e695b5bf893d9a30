import Prinbee.Data.Structure
import Prinbee.Database.ContextManager
import Prinbee.Lib.Run

/-!
# The daemon and its workers

`prinbeed.cpp`, `prinbeed_context.cpp` and `prinbee_worker.cpp`: the messages REG, SCTX, ACK and ERR
in a daemon.  A message that is received becomes a payload and is pushed to the FIFO of the workers.
A worker handles it, maybe one stage of it; the callbacks of the cluster lock and the
acknowledgments of the messages that were sent push it again.  An exception leaves the payload out
of the FIFO.

## Main definitions

* `Message`, `Payload`, `Prinbeed` — `binary_message`, `payload_t` and the members of `prinbeed`.
* `createContextMessage` — `create_context_message()`, which sets the fields of a structure.
* `Prinbeed.registerClient`, `acknowledge`, `setContext`, `work` — what a worker does.
* `Prinbeed.step` — one event: on a connection, in a worker, or from the lock service.

## Main results

* `createContextMessage_error` — a SCTX message cannot be created.
-/

namespace Prinbee

/-! ### Messages -/

/-- The names of messages; the workers do nothing with the ones that are not listed here. -/
inductive MessageName
  | register
  | acknowledge
  | error
  | setContext
  | other (name : UInt32)
  deriving DecidableEq, Repr

/-- What is read from the data of a REG message.  Without a date, it is the one of the reading. -/
structure RegisterMessage where
  name : List Char
  protocolVersion : List Char
  now : Option ℤ
  deriving DecidableEq, Repr

/-- `phase_context_t`. -/
inductive ContextPhase
  | received
  | saved
  | syncing
  | incomplete
  | complete
  deriving DecidableEq, Repr

/-- `msg_acknowledge_t`; the phase of a REG is 0, which is the first one. -/
structure AcknowledgeMessage where
  messageName : MessageName
  serialNumber : UInt32
  phase : ContextPhase
  deriving DecidableEq, Repr

/-- `err_code_t`. -/
inductive ErrorCode
  | invalidParameters
  | lock
  | protocolUnsupported
  | timeDifferenceTooLarge
  | unexpectedVersion
  deriving DecidableEq, Repr

/-- `msg_error_t`. -/
structure ErrorMessage where
  messageName : MessageName
  serialNumber : UInt32
  code : ErrorCode
  errorMessage : String
  deriving DecidableEq, Repr

/-- `msg_context_t`, but for the fields that are not sent. -/
structure ContextMessage where
  contextName : List Char
  description : List Char
  schemaVersion : UInt32
  contextId : UInt32 := 0
  deriving DecidableEq, Repr

/-- The name of a message and its data.  The structure of an ACK or of a SCTX may not be there. -/
inductive MessageData
  | register (r : RegisterMessage)
  | acknowledge (a : Option AcknowledgeMessage)
  | error (e : ErrorMessage)
  | setContext (c : Option ContextMessage)
  | other (name : UInt32)
  deriving DecidableEq, Repr

/-- `binary_message`, as the daemon uses it. -/
structure Message where
  serialNumber : UInt32
  data : MessageData
  deriving DecidableEq, Repr

/-- `get_name()`. -/
def Message.name (m : Message) : MessageName :=
  match m.data with
  | .register _ => .register
  | .acknowledge _ => .acknowledge
  | .error _ => .error
  | .setContext _ => .setContext
  | .other name => .other name

/-- What `get_string()` and `get_uinteger()` throw on data that is not the one of the structure. -/
def invalidStructure : Failure := .thrown .corruptedData "the structure cannot be read."

/-- `deserialize_register_message()`: the field it takes the version from is called `protocol`, and
a version that was read is cleared. -/
def deserializeRegisterMessage (now : ℤ) (r : RegisterMessage) : RegisterMessage :=
  { r with protocolVersion := [], now := some (r.now.getD now) }

/-- `deserialize_acknowledge_message()`. -/
def deserializeAcknowledgeMessage : Option AcknowledgeMessage → Except Failure AcknowledgeMessage
  | some a => .ok a
  | none => .error invalidStructure

/-- `deserialize_context_message()`: the identifier is not read. -/
def deserializeContextMessage : Option ContextMessage → Except Failure ContextMessage
  | some c => .ok { c with contextId := 0 }
  | none => .error invalidStructure

/-- `g_context_description`: the types of the fields. -/
def contextDescription : List (String × StructType) :=
  [("_magic", .magic), ("_structure_version", .structureVersion), ("context_name", .p8string),
    ("description", .p32string), ("schema_version", .uint32), ("context_id", .uint32),
    ("created_on", .nstime), ("last_updated_on", .nstime), ("table_count", .uint32)]

/-- `get_field()` on a structure of this description. -/
def contextField (fieldName : String) : Except Failure StructType :=
  match contextDescription.lookup fieldName with
  | some type => .ok type
  | none => .error (.thrown .fieldNotFound
      ("this description does not include a field named \"" ++ fieldName ++ "\"."))

/-- The text of the exception of `set_string()`. -/
def stringTooLarge (size maxSize : ℕ) : String :=
  "the input string is too large for this string field (" ++ toString size ++ " >= " ++
    toString maxSize ++ ")."

/-- `set_string()` on a field of this description. -/
def setContextString (fieldName : String) (value : List Char) : Except Failure Unit := do
  let type ← contextField fieldName
  match type with
  | .p8string | .p16string | .p32string =>
    let size := value.length % 2 ^ 32
    let maxSize := 256 ^ ({ fieldName := fieldName.toList, type } : FieldInfo).typeFieldSize
    if maxSize ≤ size then .error (.thrown .outOfRange (stringTooLarge size maxSize)) else .ok ()
  | type => .error (Structure.unexpectedFieldType fieldName.toList type
      [.char, .p8string, .p16string, .p32string])

/-- `set_integer()` on a field of this description. -/
def setContextInteger (fieldName : String) (_value : ℤ) : Except Failure Unit := do
  let type ← contextField fieldName
  match Structure.integerWidth type with
  | some _ => .ok ()
  | none => .error (Structure.unexpectedFieldType fieldName.toList type Structure.integerTypes)

/-- `create_context_message()`. -/
def createContextMessage (c : ContextMessage) : Except Failure MessageData := do
  setContextString "context_name" c.contextName
  setContextString "description" c.description
  setContextInteger "schema_version" c.schemaVersion.toNat
  setContextInteger "context_id" c.contextId.toNat
  .ok (.setContext (some c))

/-- **A SCTX message is never created**: the version is not a signed integer. -/
theorem createContextMessage_error (c : ContextMessage) :
    ∃ e, createContextMessage c = .error e := by
  have hversion : ∀ v, ∃ e, setContextInteger "schema_version" v = .error e := fun v => ⟨_, rfl⟩
  obtain ⟨e, he⟩ := hversion c.schemaVersion.toNat
  rw [createContextMessage, he]
  cases setContextString "context_name" c.contextName with
  | error e => exact ⟨e, rfl⟩
  | ok u =>
    cases setContextString "description" c.description with
    | error e => exact ⟨e, rfl⟩
    | ok u => exact ⟨e, rfl⟩

/-! ### The state of the daemon -/

/-- Why a payload is in the FIFO. -/
inductive Cause
  | received
  | acknowledged (success : Bool)
  | lockObtained
  | saved
  deriving DecidableEq, Repr

/-- `connection_type_t`. -/
inductive ConnectionType
  | node
  | proxy
  | direct
  deriving DecidableEq, Repr

/-- `connection_reference`: a connection, its type and the protocol of the other side. -/
structure Connection where
  id : ℕ
  type : ConnectionType
  protocol : Option (List Char) := none
  deriving DecidableEq, Repr

/-- `cluck::cluck`: the object that is locked, whether it was obtained, and how many times
`unlock()` was called. -/
structure ClusterLock where
  objectName : List Char
  obtained : Bool := false
  unlocked : ℕ := 0
  deriving DecidableEq, Repr

/-- `payload_t`.  A message to acknowledge is known by its serial number; it holds who acknowledged
it and how. -/
structure Payload where
  peer : ℕ
  message : Message
  stage : ℕ := 0
  lock : Option ClusterLock := none
  acknowledgmentMessages : List (UInt32 × Option (ℕ × Bool)) := []
  deriving DecidableEq, Repr

/-- A message that was sent, and the entry of the FIFO whose handling sent it, if any. -/
structure SentEntry where
  peer : ℕ
  message : Message
  origin : Option (ℕ × Cause) := none
  deriving DecidableEq, Repr

/-- `prinbeed`, with the payloads it made so far, the names of the connections, the global serial
number, and, in order, what was sent and received and the names that a REG gave. -/
structure Prinbeed where
  payloads : ℕ → Option Payload := fun _ => none
  count : ℕ := 0
  fifo : List (ℕ × Cause) := []
  expectedAcknowledgment : UInt32 → Option ℕ := fun _ => none
  connections : List Connection := []
  names : ℕ → List Char := fun _ => []
  contextManager : ContextManager := {}
  serialNumber : UInt32 := 0
  sent : List SentEntry := []
  received : List (ℕ × Message) := []
  renamed : List (ℕ × List Char) := []

/-- What the daemon is given: the path of the contexts, its name, the versions and their major
numbers. -/
structure PrinbeedSettings where
  root : List Char
  nodeName : List Char
  protocolVersion : List Char
  major : List Char → Except Failure ℤ

namespace Prinbeed

/-- A state, also when an exception was thrown. -/
abbrev Outcome := Except Failure Unit × Prinbeed

/-- `get_next_serial_number()`. -/
def nextSerialNumber (s : Prinbeed) : UInt32 :=
  if s.serialNumber + 1 = 0 then 1 else s.serialNumber + 1

/-- Change a payload. -/
def setPayload (s : Prinbeed) (i : ℕ) (p : Payload) : Prinbeed :=
  { s with payloads := Function.update s.payloads i (some p) }

/-- `push_payload()`. -/
def pushPayload (s : Prinbeed) (i : ℕ) (cause : Cause) : Prinbeed :=
  { s with fifo := s.fifo ++ [(i, cause)] }

/-- A worker takes what is at a place of the FIFO. -/
def takePayload (s : Prinbeed) (k : ℕ) : Prinbeed := { s with fifo := s.fifo.eraseIdx k }

@[simp] theorem takePayload_payloads (s : Prinbeed) (k : ℕ) :
    (s.takePayload k).payloads = s.payloads := rfl

/-- A new message that is sent to a connection. -/
def sendMessage (s : Prinbeed) (peer : ℕ) (data : MessageData) (origin : Option (ℕ × Cause)) :
    Prinbeed :=
  { s with
    serialNumber := s.nextSerialNumber
    sent := s.sent ++ [⟨peer, ⟨s.nextSerialNumber, data⟩, origin⟩] }

/-- `create_error_message()`, sent to the peer of the payload. -/
def sendError (s : Prinbeed) (p : Payload) (origin : Option (ℕ × Cause)) (code : ErrorCode)
    (errorMessage : String) : Prinbeed :=
  s.sendMessage p.peer (.error ⟨p.message.name, p.message.serialNumber, code, errorMessage⟩) origin

/-- `send_acknowledgment()`. -/
def sendAcknowledgment (s : Prinbeed) (p : Payload) (origin : ℕ × Cause) (phase : ContextPhase) :
    Prinbeed :=
  s.sendMessage p.peer (.acknowledge (some ⟨p.message.name, p.message.serialNumber, phase⟩))
    (some origin)

/-- `find_connection_reference()`. -/
def findConnectionReference (s : Prinbeed) (peer : ℕ) : Option Connection :=
  s.connections.find? (·.id = peer)

/-- `register_connection()`. -/
def registerConnection (s : Prinbeed) (id : ℕ) (type : ConnectionType) : Prinbeed :=
  { s with connections := s.connections.filter (·.id ≠ id) ++ [{ id, type }] }

/-- `set_name()` on a connection that registers itself. -/
def setName (s : Prinbeed) (peer : ℕ) (name : List Char) : Prinbeed :=
  { s with
    names := Function.update s.names peer name
    renamed := s.renamed ++ [(peer, name)] }

/-- `set_protocol()` on the reference of a connection. -/
def setProtocol (s : Prinbeed) (peer : ℕ) (protocol : List Char) : Prinbeed :=
  { s with
    connections := s.connections.map fun ref : Connection =>
      if ref.id = peer then { ref with protocol := some protocol } else ref }

/-- `add_message_to_acknowledge()`. -/
def addMessageToAcknowledge (p : Payload) (serialNumber : UInt32) : Except Failure Payload :=
  match p.acknowledgmentMessages.lookup serialNumber with
  | some _ => .error (.thrown .logicError
      "pingbee_worker: add_message_to_acknowledge() called twice with the same serial number.")
  | none => .ok { p with
      acknowledgmentMessages := p.acknowledgmentMessages ++ [(serialNumber, none)] }

/-- `set_acknowledged_by()`. -/
def setAcknowledgedBy (p : Payload) (serialNumber : UInt32) (peer : ℕ) (success : Bool) : Payload :=
  { p with
    acknowledgmentMessages := p.acknowledgmentMessages.map fun (n, by') =>
      (n, if n = serialNumber then some (peer, success) else by') }

/-- `get_acknowledged_message()`: the entry is erased before it is read. -/
def getAcknowledgedMessage (p : Payload) : Except Failure (Option (ℕ × Bool)) :=
  match p.acknowledgmentMessages.find? (·.2.isSome) with
  | some _ => .error .undefinedBehavior
  | none => .ok none

/-- `expect_acknowledgment()`. -/
def expectAcknowledgment (s : Prinbeed) (i : ℕ) (serialNumber : UInt32) : Outcome :=
  match s.payloads i with
  | none => (.ok (), s)
  | some p =>
    match addMessageToAcknowledge p serialNumber with
    | .error e => (.error e, s)
    | .ok p =>
      (.ok (), { s.setPayload i p with
        expectedAcknowledgment :=
          Function.update s.expectedAcknowledgment serialNumber (some i) })

/-- `process_acknowledgment()`. -/
def processAcknowledgment (s : Prinbeed) (peer : ℕ) (serialNumber : UInt32) (success : Bool) :
    Prinbeed :=
  match s.expectedAcknowledgment serialNumber with
  | none => s
  | some i =>
    let s := { s with
      expectedAcknowledgment := Function.update s.expectedAcknowledgment serialNumber none }
    match s.payloads i with
    | none => s
    | some p =>
      (s.setPayload i (setAcknowledgedBy p serialNumber peer success)).pushPayload i
        (.acknowledged success)

/-- An acknowledgment does not change the message of a payload. -/
theorem payload_processAcknowledgment {s : Prinbeed} {i : ℕ} {p : Payload}
    (hp : s.payloads i = some p) (peer : ℕ) (serialNumber : UInt32) (success : Bool) :
    ∃ q, (s.processAcknowledgment peer serialNumber success).payloads i = some q ∧
      q.message = p.message := by
  rw [processAcknowledgment]
  split
  · exact ⟨p, hp, rfl⟩
  · next j _ =>
    dsimp only
    split
    · exact ⟨p, hp, rfl⟩
    · next r hr =>
      by_cases hj : i = j
      · subst hj
        rw [hp] at hr
        cases hr
        exact ⟨_, Function.update_self _ _ _, rfl⟩
      · exact ⟨p, (Function.update_of_ne hj _ _).trans hp, rfl⟩

/-! ### Handlers -/

variable (settings : PrinbeedSettings)

/-- The text of the error about the protocol. -/
def protocolNotSupported (version : List Char) : String :=
  "protocol \"" ++ String.ofList version ++ "\" not supported."

/-- The text of the error about the time, in nanoseconds. -/
def timeDifference (diff : ℤ) : String :=
  "time difference too large: " ++ toString diff ++ " nanoseconds."

/-- The text of the exception for a connection that is not registered. -/
def notRegistered (name : List Char) : String :=
  "the connection \"" ++ String.ofList name ++
    "\" is registering itself, so it must exist in the list of registered connections."

/-- `register_client()`. -/
def registerClient (clock : Clock) (s : Prinbeed) (i : ℕ) (p : Payload) (cause : Cause)
    (data : RegisterMessage) : Outcome :=
  let r := deserializeRegisterMessage clock.now data
  match settings.major settings.protocolVersion, settings.major r.protocolVersion with
  | .error e, _ => (.error e, s)
  | _, .error e => (.error e, s)
  | .ok ours, .ok theirs =>
    if ours ≠ theirs then
      (.ok (), s.sendError p (some (i, cause)) .protocolUnsupported
        (protocolNotSupported r.protocolVersion))
    else
      let diff := |clock.now - r.now.getD clock.now|
      if 10000000 ≤ diff then
        (.ok (), s.sendError p (some (i, cause)) .timeDifferenceTooLarge (timeDifference diff))
      else
        let s := s.setName p.peer r.name
        match s.findConnectionReference p.peer with
        | none => (.error (.thrown .logicError (notRegistered r.name)), s)
        | some _ =>
          (.ok (), (s.setProtocol p.peer r.protocolVersion).sendAcknowledgment p (i, cause) .received)

/-- `acknowledge()`, which returns `true`: the payload goes back to the FIFO. -/
def acknowledge (s : Prinbeed) (i : ℕ) (p : Payload) (cause : Cause)
    (data : Option AcknowledgeMessage) : Outcome :=
  match deserializeAcknowledgeMessage data with
  | .error e => (.error e, s)
  | .ok a => (.ok (), (s.processAcknowledgment p.peer a.serialNumber true).pushPayload i cause)

/-- The text of the exception for a payload that has a lock. -/
def alreadyLocked (lock : ClusterLock) (lockName : List Char) : String :=
  "payload already has a lock (" ++ String.ofList lock.objectName ++ "); cannot also lock \"" ++
    String.ofList lockName ++ "\"."

/-- `obtain_cluster_lock()`. -/
def obtainClusterLock (s : Prinbeed) (i : ℕ) (p : Payload) (lockName : List Char) : Outcome :=
  match p.lock with
  | some lock => (.error (.thrown .logicError (alreadyLocked lock lockName)), s)
  | none =>
    (.ok (), s.setPayload i { p with lock := some { objectName := "prinbee::".toList ++ lockName } })

/-- `release_cluster_lock()`. -/
def releaseClusterLock (s : Prinbeed) (i : ℕ) (p : Payload) : Outcome :=
  match p.lock with
  | none => (.error .undefinedBehavior, s)
  | some lock =>
    (.ok (), s.setPayload i { p with lock := some { lock with unlocked := lock.unlocked + 1 } })

/-- The text of the error about the name. -/
def invalidContextName (what : String) : String := "invalid context name: " ++ what

/-- The text of the error about the version. -/
def unexpectedVersion (expected version : UInt32) : String :=
  "expected context version " ++ toString expected ++ ", got " ++ toString version ++ " instead."

/-- Stage 0: the message was received. -/
def setContextReceived (s : Prinbeed) (i : ℕ) (p : Payload) (cause : Cause) (c : ContextMessage) :
    Outcome :=
  let s := s.sendAcknowledgment p (i, cause) .received
  let p := { p with stage := 1 }
  (s.setPayload i p).obtainClusterLock i p ("context::".toList ++ c.contextName)

/-- The context changes were saved, and the payload goes to stage 2. -/
def setContextSaved (s : Prinbeed) (i : ℕ) (p : Payload) (cause : Cause) : Prinbeed :=
  ((s.sendAcknowledgment p (i, cause) .saved).setPayload i { p with stage := 2 }).pushPayload i .saved

/-- Stage 1: the lock was obtained. -/
def setContextLocked (clock : Clock) (s : Prinbeed) (i : ℕ) (p : Payload) (cause : Cause)
    (c : ContextMessage) : Outcome :=
  match s.contextManager.getContext c.contextName with
  | some context =>
    let expected := UInt32.ofNat context.schemaVersion + 1
    if expected ≠ c.schemaVersion then
      (.ok (), s.sendError p (some (i, cause)) .unexpectedVersion
        (unexpectedVersion expected c.schemaVersion))
    else
      let u : ContextUpdate :=
        { schemaVersion := c.schemaVersion.toNat, description := c.description }
      match s.contextManager.updateContext settings.root clock c.contextName u with
      | (.error e, manager) => (.error e, { s with contextManager := manager })
      | (.ok (), manager) =>
        (.ok (), setContextSaved { s with contextManager := manager } i p cause)
  | none =>
    match s.contextManager.createContext settings.root clock c.contextName c.description true with
    | (.error e, manager) => (.error e, { s with contextManager := manager })
    | (.ok (), manager) =>
      (.ok (), setContextSaved { s with contextManager := manager } i p cause)

/-- The loop of stage 2: the message is sent to the nodes. -/
def forwardContext (i : ℕ) (cause : Cause) (c : ContextMessage) :
    List Connection → Prinbeed → Outcome
  | [], s => (.ok (), s)
  | ref :: refs, s =>
    if ref.type = .node then
      let n := s.nextSerialNumber
      match createContextMessage c with
      | .error e => (.error e, { s with serialNumber := n })
      | .ok data =>
        match s.expectAcknowledgment i n with
        | (.error e, s) => (.error e, { s with serialNumber := n })
        | (.ok (), s) => forwardContext i cause c refs
            (s.sendMessage ref.id data (some (i, cause)))
    else forwardContext i cause c refs s

/-- `set_context()`.  The canonical name replaces the one of the message. -/
def setContext (clock : Clock) (s : Prinbeed) (i : ℕ) (p : Payload) (cause : Cause)
    (data : Option ContextMessage) : Outcome :=
  match deserializeContextMessage data with
  | .error e => (.error e, s)
  | .ok c =>
    match ContextSetup.setName c.contextName with
    | .error (.thrown .invalidParameter what) =>
      (.ok (), s.sendError p (some (i, cause)) .invalidParameters (invalidContextName what))
    | .error e => (.error e, s)
    | .ok name =>
      let c := { c with contextName := name }
      match p.stage with
      | 0 => s.setContextReceived i p cause c
      | 1 => setContextLocked settings clock s i p cause c
      | 2 => forwardContext i cause c s.connections (s.setPayload i { p with stage := 3 })
      | 3 =>
        match getAcknowledgedMessage p with
        | .error e => (.error e, s)
        | .ok none => (.error .undefinedBehavior, s)
        | .ok (some _) => (.ok (), s.setPayload i { p with stage := 4 })
      | 4 => s.releaseClusterLock i p
      | _ => (.ok (), s)

/-- `do_work()` on the payload at a place of the FIFO. -/
def work (clock : Clock) (s : Prinbeed) (k : ℕ) : Outcome :=
  match s.fifo[k]? with
  | none => (.ok (), s)
  | some (i, cause) =>
    let s := s.takePayload k
    match s.payloads i with
    | none => (.ok (), s)
    | some p =>
      match p.message.data with
      | .register r => registerClient settings clock s i p cause r
      | .acknowledge a => s.acknowledge i p cause a
      | .setContext c => setContext settings clock s i p cause c
      | .error _ | .other _ => (.ok (), s)

/-- A payload that is in the FIFO is handled by its message. -/
theorem work_eq (clock : Clock) {s : Prinbeed} {k i : ℕ} {cause : Cause} {p : Payload}
    (hk : s.fifo[k]? = some (i, cause)) (hp : s.payloads i = some p) :
    s.work settings clock k =
      match p.message.data with
      | .register r => registerClient settings clock (s.takePayload k) i p cause r
      | .acknowledge a => (s.takePayload k).acknowledge i p cause a
      | .setContext c => setContext settings clock (s.takePayload k) i p cause c
      | .error _ | .other _ => (.ok (), s.takePayload k) := by
  rw [work, hk]
  dsimp only
  rw [takePayload_payloads, hp]

/-! ### Events -/

/-- A new payload. -/
def newPayload (s : Prinbeed) (peer : ℕ) (message : Message) : Prinbeed :=
  { s.setPayload s.count { peer, message } with count := s.count + 1 }

/-- `connect_to_node()`, over a connection that was just made. -/
def connectToNode (s : Prinbeed) (peer : ℕ) (name : List Char) (now : ℤ) : Prinbeed :=
  let s := { s.registerConnection peer .node with names := Function.update s.names peer name }
  let data := .register ⟨settings.nodeName, settings.protocolVersion, some now⟩
  let message : Message := ⟨s.nextSerialNumber, data⟩
  let s := s.sendMessage peer data none
  ((s.newPayload peer message).expectAcknowledgment s.count message.serialNumber).2

/-- A message is received: `msg_error()` handles an ERR, `msg_process_payload()` the others. -/
def receive (s : Prinbeed) (peer : ℕ) (message : Message) : Prinbeed :=
  let s := { s with received := s.received ++ [(peer, message)] }
  match message.data with
  | .error e => s.processAcknowledgment peer e.serialNumber false
  | _ => (s.newPayload peer message).pushPayload s.count .received

/-- `process_obtained_lock()`, once for a lock. -/
def processObtainedLock (s : Prinbeed) (i : ℕ) : Prinbeed :=
  match s.payloads i with
  | none => s
  | some p =>
    match p.lock with
    | none => s
    | some lock =>
      if lock.obtained then s
      else (s.setPayload i { p with lock := some { lock with obtained := true } }).pushPayload i
        .lockObtained

/-- The text of the error of a lock that failed. -/
def lockFailed (lock : ClusterLock) : String :=
  "failed trying to lock \"" ++ String.ofList lock.objectName ++ "\"."

/-- `process_failed_lock()`. -/
def processFailedLock (s : Prinbeed) (i : ℕ) : Prinbeed :=
  match s.payloads i with
  | none => s
  | some p =>
    match p.lock with
    | none => s
    | some lock => s.sendError p none .lock (lockFailed lock)

end Prinbeed

/-- What happens to a daemon. -/
inductive PrinbeedEvent
  /-- A listener has a new connection. -/
  | accept (peer : ℕ) (type : ConnectionType)
  | connectToNode (peer : ℕ) (name : List Char) (now : ℤ)
  | disconnect (peer : ℕ)
  | receive (peer : ℕ) (message : Message)
  | work (clock : Clock) (k : ℕ)
  | obtainedLock (i : ℕ)
  | failedLock (i : ℕ)
  /-- Another message is made, such as a PING. -/
  | newMessage

/-- The state after an event, exceptions included. -/
def Prinbeed.step (settings : PrinbeedSettings) (s : Prinbeed) : PrinbeedEvent → Prinbeed
  | .accept peer type => s.registerConnection peer type
  | .connectToNode peer name now => s.connectToNode settings peer name now
  | .disconnect peer => { s with connections := s.connections.filter (·.id ≠ peer) }
  | .receive peer message => s.receive peer message
  | .work clock k => (s.work settings clock k).2
  | .obtainedLock i => s.processObtainedLock i
  | .failedLock i => s.processFailedLock i
  | .newMessage => { s with serialNumber := s.nextSerialNumber }

end Prinbee
