import Prinbee.Lib.Run
import Prinbee.Network.MessageHeader

/-!
# Messages over a connection

`binary_client.cpp` and `binary_server_client.cpp`, which have the same functions: one end writes
its messages with `send_message()` and keeps in `f_output` what the socket does not accept; the
other end reads the bytes that have arrived with `process_read()`, and dispatches a message when its
header and its data are there.  How many bytes a `write()` accepts and a `read()` returns is any
number; none means that the call would block.

## Main definitions

* `MessageWriter` — `f_output`, `sendMessage` and `processWrite`.
* `MessageReader` — the read state, `consume` and `processRead`.
* `MessageChannel` — both ends, and the bytes between them.
* `MessageChannel.Delivered` — what was dispatched is what was sent.
* `BinaryMessage.Deliverable` — a message that has a name and less than 4 GiB of data.

## Main results

* `MessageReader.consume_eq_foldl` — it does not matter how the bytes are read.
* `MessageChannel.delivered_iff` — which messages are delivered by all the runs.
-/

namespace Prinbee

namespace BinaryMessage

/-- `f_data` or `f_buffer`, whichever holds the data. -/
def bytes (m : BinaryMessage) : List UInt8 := m.data.getD m.buffer

/-- Every message: the constructor and the setters keep it, and a valid header that was received
has it too. -/
structure WellFormed (m : BinaryMessage) : Prop where
  magic₀ : m.header.magic₀ = 98
  magic₁ : m.header.magic₁ = 109
  version : m.header.version ≠ 0
  size : m.header.size = UInt32.ofNat m.bytes.length

theorem WellFormed.set {m : BinaryMessage} (h : m.WellFormed) (setter : Setter) :
    (m.set setter).WellFormed := by
  cases setter with
  | name name => exact ⟨h.magic₀, h.magic₁, h.version, h.size⟩
  | data data => exact ⟨h.magic₀, h.magic₁, h.version, rfl⟩
  | dataByPointer data =>
    cases data with
    | none => exact ⟨h.magic₀, h.magic₁, h.version, rfl⟩
    | some data => exact ⟨h.magic₀, h.magic₁, h.version, rfl⟩

theorem wellFormed_build (serialNumber : UInt32) (now : UInt64) (setters : List Setter) :
    (build serialNumber now setters).WellFormed := by
  have hfold : ∀ m : BinaryMessage, m.WellFormed → (setters.foldl set m).WellFormed := by
    induction setters with
    | nil => exact fun m h => h
    | cons setter setters ih => exact fun m h => ih _ (h.set setter)
  exact hfold _ ⟨rfl, rfl, (by decide : (1 : UInt8) ≠ 0), rfl⟩

/-- The name, the serial number and the data. -/
def content (m : BinaryMessage) : UInt32 × UInt32 × List UInt8 :=
  (m.header.name, m.header.serialNumber, m.bytes)

/-- The message has a name, and its size fits the header. -/
def Deliverable (m : BinaryMessage) : Prop :=
  m.header.name ≠ Header.messageUnknown ∧ m.bytes.length < 2 ^ 32

instance (m : BinaryMessage) : Decidable m.Deliverable := inferInstanceAs (Decidable (_ ∧ _))

/-- The data that `send_message()` writes: from the pointer as much as the header says, or the
whole buffer. -/
def written (m : BinaryMessage) : List UInt8 :=
  if m.header.size ≠ 0 then
    match m.data with
    | some data => data.take m.header.size.toNat
    | none => m.buffer
  else []

end BinaryMessage

/-! ### Writing -/

/-- `f_output` and `f_position`, and the bytes that the socket accepted. -/
structure MessageWriter where
  output : List UInt8 := []
  position : ℕ := 0
  accepted : List UInt8 := []
  deriving DecidableEq, Repr

namespace MessageWriter

/-- `write()`; the socket accepts up to `n` bytes. -/
def write (s : MessageWriter) (n : ℕ) (data : List UInt8) : MessageWriter :=
  if data = [] then s
  else if s.output = [] then
    { s with accepted := s.accepted ++ data.take n, output := s.output ++ data.drop n }
  else { s with output := s.output ++ data }

/-- `send_message()`: the header, then the data. -/
def sendMessage (s : MessageWriter) (n k : ℕ) (m : BinaryMessage) : MessageWriter :=
  let m := m.getHeader
  let s := s.write n m.header.bytes
  if m.header.size ≠ 0 then s.write k m.written else s

/-- `is_writer()`. -/
def isWriter (s : MessageWriter) : Bool := s.output ≠ []

/-- `process_write()`, which is called when there is something to write. -/
def processWrite (s : MessageWriter) (n : ℕ) : MessageWriter :=
  if s.isWriter then
    let data := (s.output.drop s.position).take n
    let s := { s with accepted := s.accepted ++ data, position := s.position + data.length }
    if s.output.length ≤ s.position then { s with output := [], position := 0 } else s
  else s

end MessageWriter

/-! ### Reading -/

/-- `read_state_t`. -/
inductive ReadState
  | header
  | headerAdjust
  | data
  deriving DecidableEq, Repr

/-- The read state, the bytes that `f_data` holds so far, `f_binary_message` and what was
dispatched. -/
structure MessageReader where
  readState : ReadState := .header
  data : List UInt8 := []
  binaryMessage : Option BinaryMessage := none
  dispatched : List BinaryMessage := []
  deriving DecidableEq, Repr

namespace MessageReader

/-- `get_binary_message()`; the header of a new message is written over. -/
def getBinaryMessage (s : MessageReader) : BinaryMessage := s.binaryMessage.getD { }

/-- How many bytes the loop asks the socket for. -/
def wanted (s : MessageReader) : ℕ :=
  match s.readState with
  | .header => Header.messageHeaderSize - s.data.length
  | .headerAdjust => 1
  | .data => s.getBinaryMessage.header.size.toNat - s.data.length

/-- The message is dispatched, and the next one starts. -/
def dispatch (s : MessageReader) (m : BinaryMessage) : MessageReader :=
  { readState := .header, data := [], binaryMessage := none, dispatched := s.dispatched ++ [m] }

/-- What follows a whole header. -/
def headerReceived (s : MessageReader) (m : BinaryMessage) : MessageReader :=
  if m.isMessageHeaderValid then
    if m.header.size = 0 then s.dispatch (m.setDataByPointer none)
    else { s with readState := .data, data := [], binaryMessage := some m }
  else { s with readState := .headerAdjust, binaryMessage := some m }

/-- What the loop does with the bytes that were read. -/
def consume (s : MessageReader) (chunk : List UInt8) : MessageReader :=
  match s.readState with
  | .header =>
    let data := s.data ++ chunk
    let s := { s with data }
    if data.length < Header.messageHeaderSize then s
    else s.headerReceived (s.getBinaryMessage.setMessageHeaderData data)
  | .headerAdjust =>
    s.headerReceived (chunk.foldl BinaryMessage.addMessageHeaderByte s.getBinaryMessage)
  | .data =>
    let data := s.data ++ chunk
    let s := { s with data }
    if s.getBinaryMessage.header.size.toNat ≤ data.length then
      s.dispatch (s.getBinaryMessage.setDataByPointer (some data))
    else s

end MessageReader

/-! ### The connection -/

/-- Two ends of a connection; the bytes that the socket accepted arrive in order. -/
structure MessageChannel where
  writer : MessageWriter := { }
  inFlight : List UInt8 := []
  reader : MessageReader := { }
  deriving DecidableEq, Repr

namespace MessageChannel

/-- The bytes that the writer gave to the socket are on their way. -/
def transmit (s : MessageChannel) (writer : MessageWriter) : MessageChannel :=
  { s with
    writer := { writer with accepted := [] }
    inFlight := s.inFlight ++ writer.accepted }

/-- One `read()` that returns up to `n` bytes, and what is done with them. -/
def readOnce (s : MessageChannel) (n : ℕ) : Option MessageChannel :=
  match s.inFlight.take (min n s.reader.wanted) with
  | [] => none
  | b :: rest => some
      { s with
        inFlight := s.inFlight.drop (b :: rest).length
        reader := s.reader.consume (b :: rest) }

/-- `process_read()`: it reads until a `read()` would block, the event limit is reached, or the time
is over. -/
def processRead (eventLimit : ℕ) : List ℕ → ℕ → MessageChannel → MessageChannel
  | [], _, s => s
  | n :: reads, count, s =>
    match s.readOnce n with
    | none => s
    | some s' =>
      let count := count + (s'.reader.dispatched.length - s.reader.dispatched.length)
      if eventLimit ≤ count then s' else processRead eventLimit reads count s'

end MessageChannel

/-- A message that is passed to `send_message()`. -/
structure OutgoingMessage where
  message : BinaryMessage
  wellFormed : message.WellFormed

/-- What happens on a connection, with the numbers of bytes that its socket accepts and returns. -/
inductive ChannelEvent
  | sendMessage (m : OutgoingMessage) (n k : ℕ)
  | processWrite (n : ℕ)
  | processRead (eventLimit : ℕ) (reads : List ℕ)

namespace MessageChannel

/-- The channel after an event. -/
def step (s : MessageChannel) : ChannelEvent → MessageChannel
  | .sendMessage m n k => s.transmit (s.writer.sendMessage n k m.message)
  | .processWrite n => s.transmit (s.writer.processWrite n)
  | .processRead eventLimit reads => processRead eventLimit reads 0 s

/-- The messages of a run. -/
def sent (events : List ChannelEvent) : List BinaryMessage :=
  events.filterMap fun
    | .sendMessage m _ _ => some m.message
    | _ => none

/-- Nothing is left to write or to read. -/
def Quiet (s : MessageChannel) : Prop := s.writer.output = [] ∧ s.inFlight = []

/-- **The messages were dispatched, each once and in order**: those that were dispatched so far are
the first ones, and they are all of them when nothing is left to write or to read. -/
def Delivered (s : MessageChannel) (messages : List BinaryMessage) : Prop :=
  s.reader.dispatched.map BinaryMessage.content <+: messages.map BinaryMessage.content ∧
    (s.Quiet → s.reader.dispatched.map BinaryMessage.content =
      messages.map BinaryMessage.content)

end MessageChannel

/-! ### How the bytes are read -/

namespace MessageReader

/-- One byte is read. -/
def feed (s : MessageReader) (b : UInt8) : MessageReader := s.consume [b]

/-- The first byte of a chunk, and then the others. -/
theorem consume_cons (s : MessageReader) (b : UInt8) {rest : List UInt8} (hrest : rest ≠ [])
    (h : (b :: rest).length ≤ s.wanted) :
    s.consume (b :: rest) = (s.feed b).consume rest ∧ rest.length ≤ (s.feed b).wanted := by
  have hpos : 0 < rest.length := List.length_pos_iff.2 hrest
  rw [List.length_cons] at h
  obtain ⟨readState, data, binaryMessage, dispatched⟩ := s
  cases readState with
  | header =>
    simp only [wanted] at h
    have hshort : (data ++ [b]).length < Header.messageHeaderSize := by
      rw [List.length_append, List.length_singleton]
      omega
    have hfeed : feed ⟨.header, data, binaryMessage, dispatched⟩ b =
        ⟨.header, data ++ [b], binaryMessage, dispatched⟩ := if_pos hshort
    rw [hfeed]
    refine ⟨?_, ?_⟩
    · simp only [consume, List.append_assoc, List.singleton_append, getBinaryMessage]
    · simp only [wanted, List.length_append, List.length_singleton]
      omega
  | headerAdjust =>
    simp only [wanted] at h
    omega
  | data =>
    simp only [wanted, getBinaryMessage] at h
    have hshort : ¬ (binaryMessage.getD { }).header.size.toNat ≤ (data ++ [b]).length := by
      rw [List.length_append, List.length_singleton]
      omega
    have hfeed : feed ⟨.data, data, binaryMessage, dispatched⟩ b =
        ⟨.data, data ++ [b], binaryMessage, dispatched⟩ := if_neg hshort
    rw [hfeed]
    refine ⟨?_, ?_⟩
    · simp only [consume, List.append_assoc, List.singleton_append, getBinaryMessage]
      rfl
    · simp only [wanted, getBinaryMessage, List.length_append, List.length_singleton]
      omega

/-- **It does not matter how the bytes are read**: one at a time, or as many as the loop wants. -/
theorem consume_eq_foldl (s : MessageReader) {chunk : List UInt8} (hne : chunk ≠ [])
    (h : chunk.length ≤ s.wanted) : s.consume chunk = chunk.foldl feed s := by
  induction chunk generalizing s with
  | nil => exact absurd rfl hne
  | cons b rest ih =>
    rw [List.foldl_cons]
    by_cases hrest : rest = []
    · rw [hrest]
      rfl
    · obtain ⟨heq, hle⟩ := s.consume_cons b hrest h
      rw [heq, ih (s.feed b) hrest hle]

/-- The reader waits for more bytes of a header or of the data; the header of the data is valid. -/
structure Hungry (s : MessageReader) : Prop where
  header : s.readState = .header → s.data.length < Header.messageHeaderSize
  data : s.readState = .data → s.getBinaryMessage.header.name ≠ Header.messageUnknown ∧
    s.data.length < s.getBinaryMessage.header.size.toNat
  dispatched : ∀ m ∈ s.dispatched, m.Deliverable

theorem Hungry.wanted_pos {s : MessageReader} (h : s.Hungry) : 0 < s.wanted := by
  unfold wanted
  split
  · next hstate => exact Nat.sub_pos_of_lt (h.header hstate)
  · exact Nat.one_pos
  · next hstate => exact Nat.sub_pos_of_lt (h.data hstate).2

theorem hungry_dispatch {s : MessageReader} (h : ∀ m ∈ s.dispatched, m.Deliverable)
    {m : BinaryMessage} (hm : m.Deliverable) : (s.dispatch m).Hungry where
  header _ := Nat.succ_pos 31
  data hstate := by cases hstate
  dispatched m' hm' := by
    rcases List.mem_append.1 hm' with hm' | hm'
    · exact h m' hm'
    · exact List.mem_singleton.1 hm' ▸ hm

theorem name_of_isValid {h : Header} (hvalid : h.isValid = true) :
    h.name ≠ Header.messageUnknown := by
  intro hname
  simp [Header.isValid, hname] at hvalid

theorem hungry_headerReceived {s : MessageReader} (h : ∀ m ∈ s.dispatched, m.Deliverable)
    (m : BinaryMessage) : (s.headerReceived m).Hungry := by
  unfold headerReceived
  split
  · next hvalid =>
    have hname := name_of_isValid hvalid
    split
    · exact hungry_dispatch h ⟨hname, Nat.two_pow_pos 32⟩
    · next hsize =>
      refine ⟨fun hstate => (by cases hstate), fun _ => ⟨hname, ?_⟩, h⟩
      exact Nat.pos_of_ne_zero fun hzero => hsize (UInt32.toNat_inj.1 hzero)
  · exact ⟨fun hstate => (by cases hstate), fun hstate => (by cases hstate), h⟩

/-- What one byte keeps. -/
theorem Hungry.feed {s : MessageReader} (h : s.Hungry) (b : UInt8) : (s.feed b).Hungry := by
  obtain ⟨readState, data, binaryMessage, dispatched⟩ := s
  cases readState with
  | header =>
    by_cases hlt : (data ++ [b]).length < Header.messageHeaderSize
    · have hfeed : MessageReader.feed ⟨.header, data, binaryMessage, dispatched⟩ b =
          ⟨.header, data ++ [b], binaryMessage, dispatched⟩ := if_pos hlt
      rw [hfeed]
      exact ⟨fun _ => hlt, fun hstate => (by cases hstate), h.dispatched⟩
    · have hfeed : MessageReader.feed ⟨.header, data, binaryMessage, dispatched⟩ b =
          headerReceived ⟨.header, data ++ [b], binaryMessage, dispatched⟩
            ((binaryMessage.getD { }).setMessageHeaderData (data ++ [b])) := if_neg hlt
      rw [hfeed]
      exact hungry_headerReceived (s := ⟨.header, data ++ [b], binaryMessage, dispatched⟩)
        h.dispatched _
  | headerAdjust => exact hungry_headerReceived h.dispatched _
  | data =>
    obtain ⟨hname, hlt⟩ := h.data rfl
    by_cases hle : (binaryMessage.getD { }).header.size.toNat ≤ (data ++ [b]).length
    · have hfeed : MessageReader.feed ⟨.data, data, binaryMessage, dispatched⟩ b =
          dispatch ⟨.data, data ++ [b], binaryMessage, dispatched⟩
            ((binaryMessage.getD { }).setDataByPointer (some (data ++ [b]))) := if_pos hle
      rw [hfeed]
      refine hungry_dispatch h.dispatched ⟨hname, ?_⟩
      have hlength : (data ++ [b]).length ≤ (binaryMessage.getD { }).header.size.toNat := by
        rw [List.length_append, List.length_singleton]
        exact hlt
      exact hlength.trans_lt (UInt32.toNat_lt _)
    · have hfeed : MessageReader.feed ⟨.data, data, binaryMessage, dispatched⟩ b =
          ⟨.data, data ++ [b], binaryMessage, dispatched⟩ := if_neg hle
      rw [hfeed]
      exact ⟨fun hstate => (by cases hstate), fun _ => ⟨hname, Nat.lt_of_not_le hle⟩,
        h.dispatched⟩

theorem hungry_foldl {s : MessageReader} (h : s.Hungry) (stream : List UInt8) :
    (stream.foldl feed s).Hungry := by
  induction stream generalizing s with
  | nil => exact h
  | cons b stream ih => exact ih (h.feed b)

theorem hungry_start : Hungry { } where
  header _ := Nat.succ_pos 31
  data hstate := by cases hstate
  dispatched m hm := absurd hm List.not_mem_nil

/-! ### A message on the wire -/

/-- The reader is between two messages. -/
structure Idle (s : MessageReader) : Prop where
  readState : s.readState = .header
  data : s.data = []
  binaryMessage : s.binaryMessage = none

end MessageReader

namespace BinaryMessage

/-- The bytes of a message on the wire. -/
def encode (m : BinaryMessage) : List UInt8 := m.getHeader.header.bytes ++ m.getHeader.written

theorem size_getHeader (m : BinaryMessage) : m.getHeader.header.size = m.header.size := rfl

/-- The header of a deliverable message has the size of its data, which is written whole. -/
theorem WellFormed.size_toNat {m : BinaryMessage} (h : m.WellFormed) (hm : m.Deliverable) :
    m.header.size.toNat = m.bytes.length := by
  rw [h.size, UInt32.toNat_ofNat_of_lt' hm.2]

theorem Deliverable.congr {m m' : BinaryMessage} (h : m.Deliverable)
    (hcontent : m.content = m'.content) : m'.Deliverable := by
  obtain ⟨hname, hserial⟩ := Prod.mk.inj hcontent
  rw [Deliverable, ← hname, ← (Prod.mk.inj hserial).2]
  exact h

theorem WellFormed.written_eq {m : BinaryMessage} (h : m.WellFormed) (hm : m.Deliverable) :
    m.getHeader.written = m.bytes := by
  have hsize := h.size_toNat hm
  obtain ⟨header, data, buffer⟩ := m
  unfold written
  rw [size_getHeader]
  split
  · cases data with
    | none => rfl
    | some data => exact List.take_of_length_le hsize.ge
  · next hzero =>
    rw [not_not.1 hzero] at hsize
    exact (List.eq_nil_of_length_eq_zero hsize.symm).symm

end BinaryMessage

namespace MessageReader

theorem headerReceived_of_valid {s : MessageReader} {m : BinaryMessage}
    (hvalid : m.isMessageHeaderValid = true) :
    s.headerReceived m =
      if m.header.size = 0 then s.dispatch (m.setDataByPointer none)
      else { s with readState := .data, data := [], binaryMessage := some m } := if_pos hvalid

/-- A whole header, read by a reader between two messages. -/
theorem foldl_header (dispatched : List BinaryMessage) (header : Header) :
    header.bytes.foldl feed ⟨.header, [], none, dispatched⟩ =
      headerReceived ⟨.header, header.bytes, none, dispatched⟩ { header } := by
  have hlength := header.length_bytes
  have hne : header.bytes ≠ [] :=
    List.ne_nil_of_length_pos (by rw [hlength]; exact Nat.succ_pos 31)
  have hle : header.bytes.length ≤ wanted ⟨.header, [], none, dispatched⟩ := hlength.le
  have hmemory : BinaryMessage.setMessageHeaderData { } header.bytes = { header } := by
    rw [BinaryMessage.setMessageHeaderData, Header.ofMemory_bytes]
  rw [← consume_eq_foldl _ hne hle, ← hmemory]
  have hlt : ¬ header.bytes.length < Header.messageHeaderSize := hlength.not_lt
  simp only [consume, getBinaryMessage, List.nil_append, Option.getD_none, if_neg hlt]

/-- The whole data of a message. -/
theorem foldl_data (dispatched : List BinaryMessage) {m : BinaryMessage} {data : List UInt8}
    (hne : data ≠ []) (hsize : m.header.size.toNat = data.length) :
    data.foldl feed ⟨.data, [], some m, dispatched⟩ =
      dispatch ⟨.data, data, some m, dispatched⟩ (m.setDataByPointer (some data)) := by
  have hle : data.length ≤ wanted ⟨.data, [], some m, dispatched⟩ := hsize.ge
  rw [← consume_eq_foldl _ hne hle]
  simp only [consume, getBinaryMessage, List.nil_append, Option.getD_some]
  exact if_pos hsize.le

/-- A deliverable message is dispatched when its bytes have arrived. -/
theorem Idle.foldl_encode {s : MessageReader} (h : s.Idle) {m : BinaryMessage}
    (hwell : m.WellFormed) (hm : m.Deliverable) :
    ∃ m' : BinaryMessage, m'.content = m.content ∧
      m.encode.foldl feed s = s.dispatch m' := by
  obtain ⟨readState, data, binaryMessage, dispatched⟩ := s
  obtain ⟨rfl, rfl, rfl⟩ : readState = .header ∧ data = [] ∧ binaryMessage = none :=
    ⟨h.readState, h.data, h.binaryMessage⟩
  let received : BinaryMessage := { header := m.getHeader.header }
  have hvalid : received.isMessageHeaderValid = true :=
    BinaryMessage.isValid_getHeader hwell.magic₀ hwell.magic₁ hwell.version hm.1
  have hsize : received.header.size.toNat = m.bytes.length := hwell.size_toNat hm
  rw [BinaryMessage.encode, List.foldl_append, foldl_header, hwell.written_eq hm,
    headerReceived_of_valid hvalid]
  by_cases hzero : received.header.size = 0
  · have hnil : m.bytes = [] := by
      rw [hzero] at hsize
      exact List.eq_nil_of_length_eq_zero hsize.symm
    refine ⟨received.setDataByPointer none, ?_, ?_⟩
    · rw [BinaryMessage.content, BinaryMessage.content, hnil]
      rfl
    · rw [if_pos hzero, hnil]
      rfl
  · have hne : m.bytes ≠ [] := by
      intro hnil
      rw [hnil] at hsize
      exact hzero (UInt32.toNat_inj.1 hsize)
    refine ⟨received.setDataByPointer (some m.bytes), rfl, ?_⟩
    rw [if_neg hzero, foldl_data dispatched hne hsize]
    rfl

/-- The bytes of deliverable messages. -/
theorem Idle.foldl_flatMap {s : MessageReader} (h : s.Idle) {messages : List BinaryMessage}
    (hwell : ∀ m ∈ messages, m.WellFormed) (hmessages : ∀ m ∈ messages, m.Deliverable) :
    ((messages.flatMap BinaryMessage.encode).foldl feed s).Idle ∧
      ((messages.flatMap BinaryMessage.encode).foldl feed s).dispatched.map BinaryMessage.content =
        s.dispatched.map BinaryMessage.content ++ messages.map BinaryMessage.content := by
  induction messages generalizing s with
  | nil => exact ⟨h, (List.append_nil _).symm⟩
  | cons m messages ih =>
    obtain ⟨m', hcontent, hfold⟩ := h.foldl_encode (hwell m List.mem_cons_self)
      (hmessages m List.mem_cons_self)
    rw [List.flatMap_cons, List.foldl_append, hfold]
    obtain ⟨hidle, hdispatched⟩ := ih (s := s.dispatch m') ⟨rfl, rfl, rfl⟩
      (fun m hm => hwell m (List.mem_cons_of_mem _ hm))
      (fun m hm => hmessages m (List.mem_cons_of_mem _ hm))
    refine ⟨hidle, hdispatched.trans ?_⟩
    rw [dispatch, List.map_append, List.map_singleton, hcontent, List.append_assoc,
      List.singleton_append, List.map_cons]

end MessageReader

/-! ### What was dispatched stays -/

namespace MessageReader

theorem dispatched_headerReceived (s : MessageReader) (m : BinaryMessage) :
    s.dispatched <+: (s.headerReceived m).dispatched := by
  unfold headerReceived
  split
  · split
    · exact List.prefix_append _ _
    · exact List.prefix_rfl
  · exact List.prefix_rfl

theorem dispatched_feed (s : MessageReader) (b : UInt8) :
    s.dispatched <+: (s.feed b).dispatched := by
  unfold feed consume
  split
  · dsimp only
    split
    · exact List.prefix_rfl
    · exact dispatched_headerReceived { s with data := s.data ++ [b] } _
  · exact dispatched_headerReceived s _
  · dsimp only
    split
    · exact List.prefix_append _ _
    · exact List.prefix_rfl

theorem dispatched_foldl (s : MessageReader) (stream : List UInt8) :
    s.dispatched <+: (stream.foldl feed s).dispatched := by
  induction stream generalizing s with
  | nil => exact List.prefix_rfl
  | cons b stream ih => exact (s.dispatched_feed b).trans (ih (s.feed b))

end MessageReader

/-! ### The bytes that are written -/

namespace MessageWriter

/-- The bytes that the socket did not accept yet. -/
def pending (s : MessageWriter) : List UInt8 := s.output.drop s.position

/-- `f_position` is the one of a byte that is still to be written. -/
def Positioned (s : MessageWriter) : Prop :=
  if s.output = [] then s.position = 0 else s.position < s.output.length

/-- The bytes that the socket accepted, and those that it will be given. -/
def stream (s : MessageWriter) : List UInt8 := s.accepted ++ s.pending

theorem positioned_of_nil {s : MessageWriter} (houtput : s.output = []) (hposition : s.position = 0) :
    s.Positioned := by
  rw [Positioned, if_pos houtput]
  exact hposition

theorem positioned_of_lt {s : MessageWriter} (hlt : s.position < s.output.length) :
    s.Positioned := by
  rw [Positioned, if_neg (List.ne_nil_of_length_pos (Nat.zero_lt_of_lt hlt))]
  exact hlt

theorem write_spec {s : MessageWriter} (h : s.Positioned) (n : ℕ) (data : List UInt8) :
    (s.write n data).Positioned ∧ (s.write n data).stream = s.stream ++ data := by
  unfold write
  split
  · next hdata =>
    rw [hdata, List.append_nil]
    exact ⟨h, rfl⟩
  · split
    · next houtput =>
      have hposition : s.position = 0 := by rwa [Positioned, if_pos houtput] at h
      refine ⟨?_, ?_⟩
      · rw [houtput, List.nil_append]
        by_cases hrest : data.drop n = []
        · exact positioned_of_nil hrest hposition
        · refine positioned_of_lt ?_
          rw [hposition]
          exact List.length_pos_iff.2 hrest
      · simp only [stream, pending, houtput, hposition, List.drop_zero, List.append_nil,
          List.nil_append, List.append_assoc, List.take_append_drop]
    · next houtput =>
      have hlt : s.position < s.output.length := by rwa [Positioned, if_neg houtput] at h
      refine ⟨positioned_of_lt ?_, ?_⟩
      · rw [List.length_append]
        exact Nat.lt_add_right _ hlt
      · simp only [stream, pending, List.drop_append_of_le_length hlt.le, List.append_assoc]

theorem sendMessage_spec {s : MessageWriter} (h : s.Positioned) (n k : ℕ) (m : BinaryMessage) :
    (s.sendMessage n k m).Positioned ∧ (s.sendMessage n k m).stream = s.stream ++ m.encode := by
  obtain ⟨hheader, hstream⟩ := write_spec h n m.getHeader.header.bytes
  unfold sendMessage BinaryMessage.encode
  dsimp only
  split
  · obtain ⟨hdata, hstream'⟩ := write_spec hheader k m.getHeader.written
    exact ⟨hdata, by rw [hstream', hstream, List.append_assoc]⟩
  · next hsize =>
    have hwritten : m.getHeader.written = [] := if_neg hsize
    exact ⟨hheader, by rw [hstream, hwritten, List.append_nil]⟩

theorem processWrite_spec {s : MessageWriter} (h : s.Positioned) (n : ℕ) :
    (s.processWrite n).Positioned ∧ (s.processWrite n).stream = s.stream := by
  unfold processWrite
  split
  · next hwriter =>
    have houtput : s.output ≠ [] := of_decide_eq_true hwriter
    have hlt : s.position < s.output.length := by rwa [Positioned, if_neg houtput] at h
    dsimp only
    split
    · next hle =>
      refine ⟨positioned_of_nil rfl rfl, ?_⟩
      -- all the bytes were accepted
      have hall : (s.output.drop s.position).take n = s.output.drop s.position := by
        refine List.take_of_length_le ?_
        rw [List.length_take, List.length_drop] at hle
        rw [List.length_drop]
        omega
      simp only [stream, pending, hall, List.drop_nil, List.append_nil]
    · next hmore =>
      refine ⟨positioned_of_lt (Nat.lt_of_not_le hmore), ?_⟩
      have htake := List.prefix_iff_eq_append.1 (List.take_prefix n (s.output.drop s.position))
      rw [List.drop_drop] at htake
      simp only [stream, pending, List.append_assoc, htake]
  · exact ⟨h, rfl⟩

/-- A socket that accepts all of it. -/
theorem output_processWrite (s : MessageWriter) :
    (s.processWrite s.output.length).output = [] := by
  unfold processWrite
  split
  · dsimp only
    rw [if_pos]
    rw [List.length_take, List.length_drop]
    omega
  · next hwriter => exact not_not.1 (of_decide_eq_false (Bool.eq_false_of_not_eq_true hwriter))

end MessageWriter

/-! ### What a run keeps -/

namespace MessageChannel

open MessageReader (feed)

variable {messages : List BinaryMessage} {consumed : List UInt8}

/-- **The bytes of the messages are in order**: those that the reader consumed, those on their way
and those that are still to be written. -/
structure Streamed (s : MessageChannel) (messages : List BinaryMessage) (consumed : List UInt8) :
    Prop where
  stream : consumed ++ (s.inFlight ++ s.writer.stream) = messages.flatMap BinaryMessage.encode
  reader : s.reader = consumed.foldl feed { }
  positioned : s.writer.Positioned
  accepted : s.writer.accepted = []

theorem streamed_start : Streamed { } [] [] :=
  ⟨rfl, rfl, MessageWriter.positioned_of_nil rfl rfl, rfl⟩

theorem Streamed.hungry {s : MessageChannel} (h : s.Streamed messages consumed) :
    s.reader.Hungry := by
  rw [h.reader]
  exact MessageReader.hungry_foldl MessageReader.hungry_start consumed

/-- What the writer was given goes behind the bytes that are on their way. -/
theorem Streamed.transmit {s : MessageChannel} (h : s.Streamed messages consumed)
    {writer : MessageWriter} {data : List UInt8}
    (hwriter : writer.Positioned ∧ writer.stream = s.writer.stream ++ data) :
    consumed ++ ((s.transmit writer).inFlight ++ (s.transmit writer).writer.stream) =
      messages.flatMap BinaryMessage.encode ++ data := by
  change consumed ++ (s.inFlight ++ writer.accepted ++ ([] ++ writer.pending)) = _
  have hstream : writer.accepted ++ writer.pending = s.writer.stream ++ data := hwriter.2
  rw [List.nil_append, List.append_assoc, hstream, ← h.stream]
  simp only [List.append_assoc]

/-- What a `read()` returns is fed to the reader. -/
theorem readOnce_consumed {s s' : MessageChannel} {n : ℕ} (hread : s.readOnce n = some s') :
    ∃ chunk, chunk ≠ [] ∧ s.inFlight = chunk ++ s'.inFlight ∧
      s'.reader = chunk.foldl feed s.reader ∧ s'.writer = s.writer := by
  unfold MessageChannel.readOnce at hread
  split at hread
  · cases hread
  · next b rest hchunk =>
    obtain rfl := Option.some.inj hread
    have hprefix : (b :: rest) <+: s.inFlight := hchunk ▸ List.take_prefix _ _
    have hwanted : (b :: rest).length ≤ s.reader.wanted := by
      rw [← hchunk, List.length_take]
      exact (Nat.min_le_left _ _).trans (Nat.min_le_right _ _)
    refine ⟨b :: rest, List.cons_ne_nil _ _, ?_, ?_, rfl⟩
    · exact (List.prefix_iff_eq_append.1 hprefix).symm
    · exact s.reader.consume_eq_foldl (List.cons_ne_nil _ _) hwanted

/-- So it is for a whole call. -/
theorem processRead_consumed (s : MessageChannel) (eventLimit : ℕ) (reads : List ℕ) (count : ℕ) :
    ∃ chunk, s.inFlight = chunk ++ (processRead eventLimit reads count s).inFlight ∧
      (processRead eventLimit reads count s).reader = chunk.foldl feed s.reader ∧
      (processRead eventLimit reads count s).writer = s.writer := by
  induction reads generalizing s count with
  | nil => exact ⟨[], rfl, rfl, rfl⟩
  | cons n reads ih =>
    unfold MessageChannel.processRead
    cases hread : s.readOnce n with
    | none => exact ⟨[], rfl, rfl, rfl⟩
    | some s' =>
      obtain ⟨chunk, -, hflight, hreader, hwriter⟩ := readOnce_consumed hread
      dsimp only
      split
      · exact ⟨chunk, hflight, hreader, hwriter⟩
      · obtain ⟨chunk', hflight', hreader', hwriter'⟩ := ih s' _
        refine ⟨chunk ++ chunk', ?_, ?_, hwriter'.trans hwriter⟩
        · rw [List.append_assoc, ← hflight', hflight]
        · rw [List.foldl_append, ← hreader, hreader']

/-- The bytes that are consumed were on their way. -/
theorem Streamed.consume {s s' : MessageChannel} (h : s.Streamed messages consumed)
    {chunk : List UInt8} (hflight : s.inFlight = chunk ++ s'.inFlight)
    (hreader : s'.reader = chunk.foldl feed s.reader) (hwriter : s'.writer = s.writer) :
    s'.Streamed messages (consumed ++ chunk) where
  stream := by
    rw [hwriter, ← h.stream, hflight]
    simp only [List.append_assoc]
  reader := by rw [hreader, h.reader, List.foldl_append]
  positioned := hwriter ▸ h.positioned
  accepted := hwriter ▸ h.accepted

theorem Streamed.processRead {s : MessageChannel} (h : s.Streamed messages consumed)
    (eventLimit : ℕ) (reads : List ℕ) (count : ℕ) :
    ∃ consumed, (processRead eventLimit reads count s).Streamed messages consumed := by
  obtain ⟨chunk, hflight, hreader, hwriter⟩ := s.processRead_consumed eventLimit reads count
  exact ⟨consumed ++ chunk, h.consume hflight hreader hwriter⟩

theorem Streamed.step {s : MessageChannel} (h : s.Streamed messages consumed)
    (event : ChannelEvent) :
    ∃ consumed, (s.step event).Streamed (messages ++ sent [event]) consumed := by
  cases event with
  | sendMessage m n k =>
    have hwriter := MessageWriter.sendMessage_spec h.positioned n k m.message
    refine ⟨consumed, ?_, h.reader, hwriter.1, rfl⟩
    rw [List.flatMap_append]
    exact (h.transmit hwriter).trans (congrArg _ (List.append_nil _).symm)
  | processWrite n =>
    have hwriter := MessageWriter.processWrite_spec h.positioned n
    refine ⟨consumed, ?_, h.reader, hwriter.1, rfl⟩
    rw [List.flatMap_append]
    exact h.transmit ⟨hwriter.1, hwriter.2.trans (List.append_nil _).symm⟩
  | processRead eventLimit reads =>
    obtain ⟨consumed', h'⟩ := h.processRead eventLimit reads 0
    exact ⟨consumed', (List.append_nil messages).symm ▸ h'⟩

theorem sent_append (events events' : List ChannelEvent) :
    sent (events ++ events') = sent events ++ sent events' := List.filterMap_append

theorem Streamed.foldl {s : MessageChannel} (h : s.Streamed messages consumed)
    (events : List ChannelEvent) :
    ∃ consumed, (events.foldl MessageChannel.step s).Streamed (messages ++ sent events) consumed := by
  induction events generalizing s messages consumed with
  | nil => exact ⟨consumed, (List.append_nil messages).symm ▸ h⟩
  | cons event events ih =>
    obtain ⟨consumed', h'⟩ := h.step event
    obtain ⟨consumed'', h''⟩ := ih h'
    rw [List.append_assoc, ← sent_append] at h''
    exact ⟨consumed'', h''⟩

/-- Deliverable messages are delivered whatever was read of their bytes so far. -/
theorem Streamed.delivered {s : MessageChannel} (h : s.Streamed messages consumed)
    (hwell : ∀ m ∈ messages, m.WellFormed) (hmessages : ∀ m ∈ messages, m.Deliverable) :
    s.Delivered messages := by
  have hidle : MessageReader.Idle { } := ⟨rfl, rfl, rfl⟩
  have hall := (hidle.foldl_flatMap hwell hmessages).2
  refine ⟨?_, fun hquiet => ?_⟩
  · have hprefix := MessageReader.dispatched_foldl s.reader (s.inFlight ++ s.writer.stream)
    rw [h.reader, ← List.foldl_append, h.stream] at hprefix
    have hmap := hprefix.map BinaryMessage.content
    rw [hall] at hmap
    rw [h.reader]
    exact hmap
  · have hstream : s.writer.stream = [] := by
      rw [MessageWriter.stream, MessageWriter.pending, hquiet.1, h.accepted, List.drop_nil,
        List.append_nil]
    have hconsumed := h.stream
    rw [hquiet.2, hstream, List.append_nil, List.append_nil] at hconsumed
    rw [h.reader, hconsumed, hall]
    rfl

/-! ### Everything arrives -/

theorem wellFormed_sent {events : List ChannelEvent} : ∀ m ∈ sent events, m.WellFormed := by
  intro m hm
  obtain ⟨event, -, hsome⟩ := List.mem_filterMap.1 hm
  cases event with
  | sendMessage m' n k =>
    obtain rfl := Option.some.inj hsome
    exact m'.wellFormed
  | processWrite n => cases hsome
  | processRead eventLimit reads => cases hsome

theorem Streamed.exists_readOnce {s : MessageChannel} (h : s.Streamed messages consumed)
    (hne : s.inFlight ≠ []) : ∃ s', s.readOnce 1 = some s' := by
  unfold MessageChannel.readOnce
  obtain ⟨b, rest, heq⟩ := List.exists_cons_of_ne_nil hne
  have hmin : min 1 s.reader.wanted = 1 := Nat.min_eq_left h.hungry.wanted_pos
  rw [hmin, heq]
  exact ⟨_, rfl⟩

/-- What is on its way can be read. -/
theorem Streamed.readAll {s : MessageChannel} (h : s.Streamed messages consumed)
    (houtput : s.writer.output = []) :
    ∃ rest, sent rest = [] ∧ (rest.foldl MessageChannel.step s).Quiet := by
  induction hlength : s.inFlight.length using Nat.strong_induction_on generalizing s consumed with
  | _ length ih =>
    by_cases hnil : s.inFlight = []
    · exact ⟨[], rfl, houtput, hnil⟩
    · obtain ⟨s', hread⟩ := h.exists_readOnce hnil
      obtain ⟨chunk, hchunk, hflight, hreader, hwriter⟩ := readOnce_consumed hread
      have hlt : s'.inFlight.length < length := by
        rw [← hlength, hflight, List.length_append]
        exact Nat.lt_add_of_pos_left (List.length_pos_iff.2 hchunk)
      have h' := h.consume hflight hreader hwriter
      obtain ⟨rest, hsent, hquiet⟩ := ih _ hlt h' (hwriter ▸ houtput) rfl
      refine ⟨.processRead 0 [1] :: rest, hsent, ?_⟩
      have hstep : s.step (.processRead 0 [1]) = s' := by
        simp only [MessageChannel.step, MessageChannel.processRead, hread, Nat.zero_le, if_true]
      rw [List.foldl_cons, hstep]
      exact hquiet

/-- Nothing prevents a connection from becoming quiet. -/
theorem Streamed.exists_quiet {s : MessageChannel} (h : s.Streamed messages consumed) :
    ∃ rest, sent rest = [] ∧ (rest.foldl MessageChannel.step s).Quiet := by
  obtain ⟨consumed', h'⟩ := h.step (.processWrite s.writer.output.length)
  have houtput : (s.step (.processWrite s.writer.output.length)).writer.output = [] :=
    MessageWriter.output_processWrite s.writer
  obtain ⟨rest, hsent, hquiet⟩ := h'.readAll houtput
  exact ⟨.processWrite s.writer.output.length :: rest, hsent, hquiet⟩

/-- What is dispatched is deliverable. -/
theorem Streamed.deliverable {s : MessageChannel} (h : s.Streamed messages consumed)
    (hdelivered : s.reader.dispatched.map BinaryMessage.content =
      messages.map BinaryMessage.content) : ∀ m ∈ messages, m.Deliverable := by
  intro m hm
  have hmem : m.content ∈ s.reader.dispatched.map BinaryMessage.content :=
    hdelivered ▸ List.mem_map_of_mem hm
  obtain ⟨m', hm', hcontent⟩ := List.mem_map.1 hmem
  exact (h.hungry.dispatched m' hm').congr hcontent

/-- **A sequence of messages is delivered by every run, which can always be completed, exactly when
each of them has a name and data whose size fits the header.** -/
theorem delivered_iff (messages : List OutgoingMessage) :
    (∀ events, sent events = messages.map OutgoingMessage.message →
      (events.foldl step { }).Delivered (sent events) ∧
        ∃ rest, sent rest = [] ∧ ((events ++ rest).foldl step { }).Quiet) ↔
      ∀ m ∈ messages, m.message.Deliverable := by
  refine ⟨fun h => ?_, fun h events hsent => ?_⟩
  · let events := messages.map fun m => ChannelEvent.sendMessage m 0 0
    have hsent : sent events = messages.map OutgoingMessage.message := by
      rw [sent, List.filterMap_map]
      exact congrFun List.filterMap_eq_map messages
    obtain ⟨rest, hrest, hquiet⟩ := (h events hsent).2
    have hall : sent (events ++ rest) = messages.map OutgoingMessage.message := by
      rw [sent_append, hrest, List.append_nil, hsent]
    obtain ⟨consumed, hstreamed⟩ := streamed_start.foldl (events ++ rest)
    have hdeliverable := hstreamed.deliverable ((h _ hall).1.2 hquiet)
    intro m hm
    refine hdeliverable m.message ?_
    rw [List.nil_append, hall]
    exact List.mem_map_of_mem hm
  · obtain ⟨consumed, hstreamed⟩ := streamed_start.foldl events
    rw [List.nil_append] at hstreamed
    refine ⟨hstreamed.delivered wellFormed_sent fun m hm => ?_, ?_⟩
    · rw [hsent] at hm
      obtain ⟨m', hm', rfl⟩ := List.mem_map.1 hm
      exact h m' hm'
    · obtain ⟨rest, hrest, hquiet⟩ := hstreamed.exists_quiet
      exact ⟨rest, hrest, by rwa [List.foldl_append]⟩

/-- A message without a name: its header is not valid. -/
theorem not_delivered_nameless :
    ¬ ∀ (messages : List OutgoingMessage) (events : List ChannelEvent),
      sent events = messages.map OutgoingMessage.message →
        (events.foldl step { }).Delivered (sent events) := by
  intro h
  let nameless : OutgoingMessage := ⟨.build 1 0 [], BinaryMessage.wellFormed_build 1 0 []⟩
  have hdelivered := h [nameless] [.sendMessage nameless 32 0, .processRead 5 [32]] rfl
  have hdispatched := hdelivered.2 (by unfold Quiet; decide)
  revert hdispatched
  decide

end MessageChannel

end Prinbee
