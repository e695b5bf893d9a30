import Prinbee.Network.MessageName
import Prinbee.Network.MessageStream

/-!
# The data of a message

`binary_message.cpp`: the data of a message is behind a pointer that the message does not own, or
in its buffer; the header holds the size.  `set_data()` and `set_data_by_pointer()` reset the one
they do not set.  Of the functions that create a message, those that go through `set_data()` do so
too; those that copy a structure to the buffer leave the pointer, and the PING message leaves
everything.

## Main definitions

* `MessageContents` — the bytes that the structures and the serializer produce.
* `BinaryMessage.call` — one call on the message.
* `BinaryMessage.Coherent` — the header, the bytes of `get_either_pointer()` and the bytes sent agree
  with what was given or produced last.
* `BinaryMessage.Resets` — the condition on a call.

## Main results

* `BinaryMessage.coherent_iff` — the data is coherent after each call of a run exactly when its calls
  meet the condition.
-/

namespace Prinbee

/-- The bytes of the messages that are created: structures and what the serializer writes.
A list of contexts with a name that its field cannot hold throws. -/
structure MessageContents where
  acknowledge : UInt32 → UInt32 → UInt32 → List UInt8
  error : UInt32 → UInt32 → UInt32 → List UInt8 → List UInt8
  pong : UInt32 → UInt64 → List UInt8
  register : List UInt8 → List UInt8 → UInt64 → List UInt8
  listContexts : List (List UInt8) → Option (List UInt8)

/-- The fields of `msg_context_t` that `create_context_message()` reads. -/
structure MsgContext where
  contextName : List UInt8
  description : List UInt8
  schemaVersion : UInt32
  contextId : UInt32
  deriving DecidableEq, Repr

namespace BinaryMessage

/-- `g_message_acknowledge`. -/
def messageAcknowledge : UInt32 := messageName [65, 67, 75]

/-- `g_message_error`. -/
def messageError : UInt32 := messageName [69, 82, 82]

/-- `g_message_list_contexts`. -/
def messageListContexts : UInt32 := messageName [76, 67, 84, 88]

/-- `g_message_ping`. -/
def messagePing : UInt32 := messageName [80, 73, 78, 71]

/-- `g_message_pong`. -/
def messagePong : UInt32 := messageName [80, 79, 78, 71]

/-- `g_message_register`. -/
def messageRegister : UInt32 := messageName [82, 69, 71]

/-- `g_message_set_context`. -/
def messageSetContext : UInt32 := messageName [83, 67, 84, 88]

/-! ### The calls -/

/-- The copy constructor: the bytes behind a pointer are copied to the buffer. -/
def copy (m : BinaryMessage) : BinaryMessage :=
  let copied : BinaryMessage := { header := m.header, data := none, buffer := m.buffer }
  match m.data with
  | some data => copied.setData (data.take m.header.size.toNat)
  | none => copied

/-- `get_either_pointer()`: the bytes that it designates, as far as the memory goes that the pointer
leads to. -/
def getEitherPointer (m : BinaryMessage) : List UInt8 :=
  match m.data with
  | some data => data.take m.header.size.toNat
  | none => m.buffer

/-- A structure copied to the buffer, with its size. -/
def setBuffer (m : BinaryMessage) (buffer : List UInt8) : BinaryMessage :=
  { m with header := { m.header with size := UInt32.ofNat buffer.length }, buffer := buffer }

variable (contents : MessageContents)

/-- `create_acknowledge_message()`.  The buffer has the size that the header holds. -/
def createAcknowledgeMessage (m originalMessage : BinaryMessage) (phase : UInt32) :
    BinaryMessage :=
  let m := m.setName messageAcknowledge
  let buffer := contents.acknowledge originalMessage.header.name
    originalMessage.header.serialNumber phase
  let size := UInt32.ofNat buffer.length
  { m with header := { m.header with size := size }, buffer := buffer.take size.toNat }

/-- `create_error_message()`. -/
def createErrorMessage (m originalMessage : BinaryMessage) (code : UInt32)
    (errorMessage : List UInt8) : BinaryMessage :=
  (m.setName messageError).setData (contents.error originalMessage.header.name
    originalMessage.header.serialNumber code errorMessage)

/-- `create_register_message()`, at the time `now`. -/
def createRegisterMessage (m : BinaryMessage) (name protocolVersion : List UInt8) (now : UInt64) :
    BinaryMessage :=
  (m.setName messageRegister).setData (contents.register name protocolVersion now)

/-- `create_ping_message()`. -/
def createPingMessage (m : BinaryMessage) : BinaryMessage := m.setName messagePing

/-- `create_pong_message()`, with the bits of the load average. -/
def createPongMessage (m pingMessage : BinaryMessage) (loadavg : UInt64) : BinaryMessage :=
  (m.setName messagePong).setBuffer (contents.pong pingMessage.header.serialNumber loadavg)

/-- `create_list_contexts_message()`. -/
def createListContextsMessage (m : BinaryMessage) (list : List (List UInt8)) : BinaryMessage :=
  let m := m.setName messageListContexts
  match contents.listContexts list with
  | some buffer => m.setBuffer buffer
  | none => m

/-- `create_context_message()`.  The schema version is an unsigned field and `set_integer()` throws:
the name is all that is set. -/
def createContextMessage (m : BinaryMessage) (_ : MsgContext) : BinaryMessage :=
  m.setName messageSetContext

/-- The calls that set the data of a message. -/
inductive DataCall
  | setData (data : List UInt8)
  | setDataByPointer (data : Option (List UInt8))
  | copy
  | acknowledge (originalMessage : BinaryMessage) (phase : UInt32)
  | error (originalMessage : BinaryMessage) (code : UInt32) (errorMessage : List UInt8)
  | ping
  | pong (pingMessage : BinaryMessage) (loadavg : UInt64)
  | register (name protocolVersion : List UInt8) (now : UInt64)
  | listContexts (list : List (List UInt8))
  | context (context : MsgContext)
  deriving DecidableEq, Repr

/-- One call. -/
def call (m : BinaryMessage) : DataCall → BinaryMessage
  | .setData data => m.setData data
  | .setDataByPointer data => m.setDataByPointer data
  | .copy => m.copy
  | .acknowledge originalMessage phase => m.createAcknowledgeMessage contents originalMessage phase
  | .error originalMessage code errorMessage =>
    m.createErrorMessage contents originalMessage code errorMessage
  | .ping => m.createPingMessage
  | .pong pingMessage loadavg => m.createPongMessage contents pingMessage loadavg
  | .register name protocolVersion now => m.createRegisterMessage contents name protocolVersion now
  | .listContexts list => m.createListContextsMessage contents list
  | .context context => m.createContextMessage context

/-- The bytes that a call is given or produces; a PING message has none.  A copy has those of its
source, and a call that throws produces nothing. -/
def DataCall.produced : DataCall → Option (List UInt8)
  | .setData data => some data
  | .setDataByPointer data => some (data.getD [])
  | .copy => none
  | .acknowledge originalMessage phase => some (contents.acknowledge originalMessage.header.name
      originalMessage.header.serialNumber phase)
  | .error originalMessage code errorMessage => some (contents.error originalMessage.header.name
      originalMessage.header.serialNumber code errorMessage)
  | .ping => some []
  | .pong pingMessage loadavg =>
    some (contents.pong pingMessage.header.serialNumber loadavg)
  | .register name protocolVersion now => some (contents.register name protocolVersion now)
  | .listContexts list => contents.listContexts list
  | .context _ => none

/-- A message, and the bytes given or produced last. -/
def step (s : BinaryMessage × List UInt8) (c : DataCall) : BinaryMessage × List UInt8 :=
  (s.1.call contents c, (c.produced contents).getD s.2)

/-- The size of the header is the number of bytes that `get_either_pointer()` designates; these are
the bytes given or produced last; and `send_message()` sends them after the header. -/
structure Coherent (s : BinaryMessage × List UInt8) : Prop where
  size : s.1.header.size.toNat = s.1.getEitherPointer.length
  given : s.1.getEitherPointer = s.2
  sent : s.1.getHeader.written = s.1.getEitherPointer

/-! ### The condition on a call -/

/-- The bytes can be put in the buffer: their size fits the header, and no pointer hides them,
or it leads to the same bytes. -/
def Fills (m : BinaryMessage) (buffer : List UInt8) : Prop :=
  buffer.length < 2 ^ 32 ∧ ∀ data, m.data = some data → buffer <+: data

/-- The condition on a call. -/
def Resets (s : BinaryMessage × List UInt8) (c : DataCall) : Prop :=
  match c with
  | .ping => s.1.header.size = 0
  | .acknowledge _ _ | .pong _ _ | .listContexts _ =>
    ∀ buffer, c.produced contents = some buffer → s.1.Fills buffer
  | _ => ∀ buffer, c.produced contents = some buffer → buffer.length < 2 ^ 32

/-- What is designated has the size of the header, so it is what is sent. -/
theorem coherent_of_size {m : BinaryMessage} {given : List UInt8}
    (hsize : m.header.size.toNat = m.getEitherPointer.length)
    (hgiven : m.getEitherPointer = given) : Coherent (m, given) := by
  refine ⟨hsize, hgiven, ?_⟩
  show m.written = m.getEitherPointer
  rw [written]
  split
  · rfl
  · rename_i hzero
    rw [not_not.1 hzero] at hsize
    exact (List.length_eq_zero_iff.1 hsize.symm).symm

/-- The name is not data. -/
theorem coherent_setName {m : BinaryMessage} {given : List UInt8} (name : UInt32) :
    Coherent (m.setName name, given) ↔ Coherent (m, given) :=
  ⟨fun h => ⟨h.size, h.given, h.sent⟩, fun h => ⟨h.size, h.given, h.sent⟩⟩

theorem toNat_ofNat_length {data : List UInt8} :
    (UInt32.ofNat data.length).toNat = data.length % 2 ^ 32 := UInt32.toNat_ofNat'

/-- `set_data()`. -/
theorem coherent_setData (m : BinaryMessage) (data : List UInt8) :
    Coherent (m.setData data, data) ↔ data.length < 2 ^ 32 := by
  constructor
  · intro h
    have hsize : (UInt32.ofNat data.length).toNat = data.length := h.size
    rw [toNat_ofNat_length] at hsize
    omega
  · intro h
    refine coherent_of_size ?_ rfl
    show (UInt32.ofNat data.length).toNat = data.length
    rw [toNat_ofNat_length, Nat.mod_eq_of_lt h]

/-- `set_data_by_pointer()`. -/
theorem coherent_setDataByPointer (m : BinaryMessage) (data : Option (List UInt8)) :
    Coherent (m.setDataByPointer data, data.getD []) ↔ (data.getD []).length < 2 ^ 32 := by
  cases data with
  | none => exact ⟨fun _ => by decide, fun _ => coherent_of_size rfl rfl⟩
  | some data =>
    have hpointer : (m.setDataByPointer (some data)).getEitherPointer =
        data.take (data.length % 2 ^ 32) := by
      rw [← toNat_ofNat_length]
      rfl
    constructor
    · intro h
      have hgiven : data.take (data.length % 2 ^ 32) = data := hpointer.symm.trans h.given
      have hlength := congrArg List.length hgiven
      rw [List.length_take] at hlength
      show data.length < 2 ^ 32
      omega
    · intro (h : data.length < 2 ^ 32)
      rw [Nat.mod_eq_of_lt h, List.take_length] at hpointer
      refine coherent_of_size ?_ hpointer
      rw [hpointer]
      show (UInt32.ofNat data.length).toNat = data.length
      rw [toNat_ofNat_length, Nat.mod_eq_of_lt h]

/-- A structure copied to the buffer, when `m'` has it and its size. -/
theorem coherent_fill {m m' : BinaryMessage} {buffer : List UInt8}
    (hsize : m'.header.size = UInt32.ofNat buffer.length) (hdata : m'.data = m.data)
    (hbuffer : buffer.length < 2 ^ 32 → m'.buffer = buffer) :
    Coherent (m', buffer) ↔ m.Fills buffer := by
  have hnat : m'.header.size.toNat = buffer.length % 2 ^ 32 := by rw [hsize, toNat_ofNat_length]
  cases hpointer : m.data with
  | none =>
    have heither : m'.getEitherPointer = m'.buffer := by rw [getEitherPointer, hdata, hpointer]
    constructor
    · intro h
      refine ⟨?_, by rw [hpointer]; rintro data ⟨⟩⟩
      have hgiven : m'.getEitherPointer = buffer := h.given
      have hlen : m'.header.size.toNat = m'.getEitherPointer.length := h.size
      rw [hgiven, hnat] at hlen
      omega
    · rintro ⟨hlt, -⟩
      refine coherent_of_size ?_ (heither.trans (hbuffer hlt))
      rw [heither, hbuffer hlt, hnat, Nat.mod_eq_of_lt hlt]
  | some data =>
    have heither : m'.getEitherPointer = data.take (buffer.length % 2 ^ 32) := by
      rw [getEitherPointer, hdata, hpointer, hnat]
    constructor
    · intro h
      have hgiven : data.take (buffer.length % 2 ^ 32) = buffer := heither.symm.trans h.given
      have hlen := congrArg List.length hgiven
      rw [List.length_take] at hlen
      refine ⟨by omega, fun data' hdata' => ?_⟩
      obtain rfl : data = data' := Option.some.inj (hpointer.symm.trans hdata')
      rw [← hgiven]
      exact List.take_prefix _ _
    · rintro ⟨hlt, hstart⟩
      have hgiven : m'.getEitherPointer = buffer := by
        rw [heither, Nat.mod_eq_of_lt hlt]
        exact (List.prefix_iff_eq_take.1 (hstart data hpointer)).symm
      refine coherent_of_size ?_ hgiven
      rw [hgiven, hnat, Nat.mod_eq_of_lt hlt]

/-- The copy constructor keeps coherent data. -/
theorem Coherent.copy {m : BinaryMessage} {given : List UInt8} (h : Coherent (m, given)) :
    Coherent (m.copy, given) := by
  have hgiven : m.getEitherPointer = given := h.given
  have hsize : m.header.size.toNat = m.getEitherPointer.length := h.size
  have hlt : given.length < 2 ^ 32 := by
    rw [← hgiven, ← hsize]
    exact m.header.size.toNat_lt
  rw [BinaryMessage.copy]
  cases hdata : m.data with
  | none =>
    rw [getEitherPointer, hdata] at hgiven hsize
    exact coherent_of_size hsize hgiven
  | some data =>
    rw [getEitherPointer, hdata] at hgiven
    dsimp only at hgiven ⊢
    rw [hgiven]
    exact (coherent_setData _ given).2 hlt

/-- The PING message keeps the data that is there. -/
theorem Coherent.ping_iff {m : BinaryMessage} {given : List UInt8} (h : Coherent (m, given)) :
    Coherent (m.createPingMessage, []) ↔ m.header.size = 0 := by
  have hsize : m.header.size.toNat = m.getEitherPointer.length := h.size
  rw [createPingMessage, coherent_setName]
  constructor
  · intro h'
    have hnil : m.getEitherPointer = [] := h'.given
    rw [hnil] at hsize
    exact UInt32.toNat_inj.1 hsize
  · intro hzero
    rw [hzero] at hsize
    have hnil := List.length_eq_zero_iff.1 hsize.symm
    exact coherent_of_size (by rw [hzero, hnil]; rfl) hnil

/-- The condition on a call that gives the buffer. -/
theorem resets_length (buffer : List UInt8) :
    (∀ b, some buffer = some b → b.length < 2 ^ 32) ↔ buffer.length < 2 ^ 32 := by
  simp

/-- The condition on a call that copies a structure to the buffer. -/
theorem resets_fills (m : BinaryMessage) (buffer : List UInt8) :
    (∀ b, some buffer = some b → m.Fills b) ↔ m.Fills buffer := by
  simp

/-- **One call**: the data is coherent after it exactly when it meets the condition. -/
theorem Coherent.step_iff {s : BinaryMessage × List UInt8} (h : Coherent s) (c : DataCall) :
    Coherent (step contents s c) ↔ Resets contents s c := by
  obtain ⟨m, given⟩ := s
  cases c with
  | setData data => exact (coherent_setData m data).trans (resets_length data).symm
  | setDataByPointer data =>
    exact (coherent_setDataByPointer m data).trans (resets_length (data.getD [])).symm
  | copy =>
    refine ⟨fun _ buffer hbuffer => ?_, fun _ => h.copy⟩
    cases hbuffer
  | acknowledge originalMessage phase =>
    refine (coherent_fill rfl rfl fun hlt => ?_).trans (resets_fills m _).symm
    refine List.take_of_length_le ?_
    rw [toNat_ofNat_length]
    exact (Nat.mod_eq_of_lt hlt).ge
  | error originalMessage code errorMessage =>
    exact (coherent_setData _ _).trans (resets_length _).symm
  | ping => exact h.ping_iff
  | pong pingMessage loadavg =>
    exact (coherent_fill rfl rfl fun _ => rfl).trans (resets_fills m _).symm
  | register name protocolVersion now =>
    exact (coherent_setData _ _).trans (resets_length _).symm
  | listContexts list =>
    simp only [step, call, createListContextsMessage, Resets, DataCall.produced]
    cases contents.listContexts list with
    | none =>
      refine ⟨fun _ buffer hbuffer => ?_, fun _ => (coherent_setName _).2 h⟩
      cases hbuffer
    | some buffer => exact (coherent_fill rfl rfl fun _ => rfl).trans (resets_fills m _).symm
  | context context =>
    refine ⟨fun _ buffer hbuffer => ?_, fun _ => (coherent_setName _).2 h⟩
    cases hbuffer

/-- A new message has no data. -/
theorem coherent_create (serialNumber : UInt32) (now : UInt64) :
    Coherent (create serialNumber now, []) := coherent_of_size rfl rfl

/-- **The data of a message is coherent** after each of its calls, from the constructor on, exactly
when no structure is copied under a pointer to other bytes, no PING message is made of one that has
data, and no size needs more than the 32 bits of the header. -/
theorem coherent_iff (contents : MessageContents) (serialNumber : UInt32) (now : UInt64)
    (calls : List DataCall) :
    Run.Always Coherent (step contents) (create serialNumber now, []) calls ↔
      Run.Each (Resets contents) (step contents) (create serialNumber now, []) calls :=
  Run.always_iff (fun _ h => h) (fun _ c h hc => (h.step_iff contents c).2 hc)
    (fun _ c h hstep => (h.step_iff contents c).1 hstep) calls _ (coherent_create serialNumber now)

/-- The bytes of a structure of three fields, after its start, and none for the others. -/
def threeFields : MessageContents where
  acknowledge name serialNumber phase := List.replicate 8 0 ++ UInt512.toBytes 4 name.toNat ++
    UInt512.toBytes 4 serialNumber.toNat ++ UInt512.toBytes 4 phase.toNat
  error _ _ _ text := text
  pong _ _ := []
  register name _ _ := name
  listContexts list := some list.flatten

/-- **A message whose data is not coherent**: the pointer to 4 bytes is still there after the
acknowledgment was put in the buffer. -/
theorem not_coherent :
    ¬ Run.Always Coherent (step threeFields) (create 1 0, [])
      [.setDataByPointer (some [1, 2, 3, 4]), .acknowledge (create 2 0) 0] := by
  intro h
  have hlast := h.2.2.size
  exact absurd hlast (by decide)

end BinaryMessage

end Prinbee
