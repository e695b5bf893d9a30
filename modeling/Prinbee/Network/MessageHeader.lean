import Prinbee.BigInt.UInt512
import Prinbee.Lib.Splice
import Prinbee.Network.Crc16

/-!
# The header of a binary message

`binary_message.cpp`: a message is a header of 32 bytes and some data.  The header starts with the
letters `bm` and ends with the check value of its other bytes.  A receiver that finds an invalid
header drops its first byte and reads one more, until a header is valid.

## Main definitions

* `Header`, `BinaryMessage` — `binary_message::header_t` and the members the header depends on.
* `BinaryMessage.getHeader`, `isMessageHeaderValid`, `setMessageHeaderData`,
  `addMessageHeaderByte`.
* `BinaryMessage.receiveHeader` — the header states of `binary_client_impl::process_read()`.

## Main results

* `BinaryMessage.getHeader_received` — the header of any message that has a name is received, also
  after garbage.
-/

namespace Prinbee

open UInt512 (ofBytes toBytes)

/-! ### Integers in memory -/

theorem toBytes_uint32 {s : List UInt8} (h : s.length = 4) :
    toBytes 4 (UInt32.ofNat (ofBytes s)).toNat = s := by
  have hlt := UInt512.ofBytes_lt s
  rw [h] at hlt
  rw [UInt32.toNat_ofNat_of_lt' hlt, ← h, UInt512.toBytes_ofBytes]

theorem toBytes_uint64 {s : List UInt8} (h : s.length = 8) :
    toBytes 8 (UInt64.ofNat (ofBytes s)).toNat = s := by
  have hlt := UInt512.ofBytes_lt s
  rw [h] at hlt
  rw [UInt64.toNat_ofNat_of_lt' hlt, ← h, UInt512.toBytes_ofBytes]

theorem toBytes_uint16 {s : List UInt8} (h : s.length = 2) :
    toBytes 2 (UInt16.ofNat (ofBytes s)).toNat = s := by
  have hlt := UInt512.ofBytes_lt s
  rw [h] at hlt
  rw [UInt16.toNat_ofNat_of_lt' hlt, ← h, UInt512.toBytes_ofBytes]

theorem toBytes_crc16 (crc : UInt16) : toBytes 2 crc.toNat = crc16Bytes crc := by
  have hmod : ofBytes (crc16Bytes crc) = crc.toNat := by
    have hlt := crc.toNat_lt
    have hhigh : (crc >>> 8).toUInt8.toNat = crc.toNat / 256 := by
      rw [UInt16.toNat_toUInt8, UInt16.toNat_shiftRight, Nat.shiftRight_eq_div_pow]
      change crc.toNat / 256 % 256 = crc.toNat / 256
      omega
    have hlow : crc.toUInt8.toNat = crc.toNat % 256 := UInt16.toNat_toUInt8 crc
    rw [crc16Bytes, ofBytes, List.map_cons, List.map_cons, List.map_nil, Nat.ofDigits_cons,
      Nat.ofDigits_singleton, hhigh, hlow]
    exact Nat.mod_add_div crc.toNat 256
  rw [← hmod]
  exact UInt512.toBytes_ofBytes (crc16Bytes crc)

theorem toBytes_inj {k n n' : ℕ} (hn : n < 256 ^ k) (hn' : n' < 256 ^ k)
    (h : toBytes k n = toBytes k n') : n = n' := by
  have hof := congrArg ofBytes h
  rwa [UInt512.ofBytes_toBytes, UInt512.ofBytes_toBytes, Nat.mod_eq_of_lt hn,
    Nat.mod_eq_of_lt hn'] at hof

/-! ### The header -/

/-- `binary_message::header_t`.  `createdOn` holds the bits of a signed number. -/
structure Header where
  magic₀ : UInt8 := 98
  magic₁ : UInt8 := 109
  version : UInt8 := 1
  flags : UInt8 := 0
  name : UInt32 := 0
  createdOn : UInt64 := 0
  serialNumber : UInt32 := 0
  size : UInt32 := 0
  padding : UInt32 := 0
  dataCrc16 : UInt16 := 0
  headerCrc16 : UInt16 := 0
  deriving DecidableEq, Repr

namespace Header

/-- `sizeof(header_t)`. -/
def messageHeaderSize : ℕ := 32

/-- The bytes that `f_header_crc16` checks. -/
def checked (h : Header) : List UInt8 :=
  [h.magic₀, h.magic₁, h.version, h.flags] ++ toBytes 4 h.name.toNat ++
    toBytes 8 h.createdOn.toNat ++ toBytes 4 h.serialNumber.toNat ++ toBytes 4 h.size.toNat ++
    toBytes 4 h.padding.toNat ++ toBytes 2 h.dataCrc16.toNat

/-- The header in memory. -/
def bytes (h : Header) : List UInt8 := h.checked ++ toBytes 2 h.headerCrc16.toNat

/-- The header whose bytes are copied with `memcpy()`. -/
def ofMemory (l : List UInt8) : Header where
  magic₀ := l.getD 0 0
  magic₁ := l.getD 1 0
  version := l.getD 2 0
  flags := l.getD 3 0
  name := UInt32.ofNat (ofBytes (l.slice 4 4))
  createdOn := UInt64.ofNat (ofBytes (l.slice 8 8))
  serialNumber := UInt32.ofNat (ofBytes (l.slice 16 4))
  size := UInt32.ofNat (ofBytes (l.slice 20 4))
  padding := UInt32.ofNat (ofBytes (l.slice 24 4))
  dataCrc16 := UInt16.ofNat (ofBytes (l.slice 28 2))
  headerCrc16 := UInt16.ofNat (ofBytes (l.slice 30 2))

@[simp] theorem length_bytes (h : Header) : h.bytes.length = messageHeaderSize := by
  simp only [bytes, checked, List.length_append, UInt512.length_toBytes, List.length_cons,
    List.length_nil]
  rfl

theorem slice_four {l : List UInt8} (h : 4 ≤ l.length) :
    [l.getD 0 0, l.getD 1 0, l.getD 2 0, l.getD 3 0] = l.slice 0 4 := by
  rcases l with _ | ⟨a, _ | ⟨b, _ | ⟨c, _ | ⟨d, l⟩⟩⟩⟩
  · cases h
  · simp at h
  · simp at h
  · simp at h
  · rfl

/-- Every 32 bytes are a header. -/
theorem bytes_ofMemory {l : List UInt8} (h : l.length = messageHeaderSize) :
    (ofMemory l).bytes = l := by
  have hlen : ∀ off n, off + n ≤ 32 → (l.slice off n).length = n := fun off n hle =>
    List.length_slice_of_le (by rw [h]; exact hle)
  have hfour : 4 ≤ l.length := by rw [h]; decide
  rw [bytes, checked, ofMemory, slice_four hfour, toBytes_uint32 (hlen 4 4 (by decide)),
    toBytes_uint64 (hlen 8 8 (by decide)), toBytes_uint32 (hlen 16 4 (by decide)),
    toBytes_uint32 (hlen 20 4 (by decide)), toBytes_uint32 (hlen 24 4 (by decide)),
    toBytes_uint16 (hlen 28 2 (by decide)), toBytes_uint16 (hlen 30 2 (by decide)),
    List.slice_append_slice 0 4 4, List.slice_append_slice 0 8 8,
    List.slice_append_slice 0 16 4, List.slice_append_slice 0 20 4,
    List.slice_append_slice 0 24 4, List.slice_append_slice 0 28 2,
    List.slice_append_slice 0 30 2]
  exact List.take_of_length_le (by rw [List.length_drop, h]; decide)

/-- A header is known by its bytes. -/
theorem bytes_injective {h h' : Header} (heq : h.bytes = h'.bytes) : h = h' := by
  have hlen : ∀ k n n', (toBytes k n).length = (toBytes k n').length := fun k n n' => by
    rw [UInt512.length_toBytes, UInt512.length_toBytes]
  -- take the fields off from the last one
  obtain ⟨heq, hheader⟩ := List.append_inj' heq (hlen 2 _ _)
  obtain ⟨heq, hdata⟩ := List.append_inj' heq (hlen 2 _ _)
  obtain ⟨heq, hpadding⟩ := List.append_inj' heq (hlen 4 _ _)
  obtain ⟨heq, hsize⟩ := List.append_inj' heq (hlen 4 _ _)
  obtain ⟨heq, hserial⟩ := List.append_inj' heq (hlen 4 _ _)
  obtain ⟨heq, hcreated⟩ := List.append_inj' heq (hlen 8 _ _)
  obtain ⟨hfirst, hname⟩ := List.append_inj' heq (hlen 4 _ _)
  simp only [List.cons.injEq, and_true] at hfirst
  obtain ⟨hm₀, hm₁, hversion, hflags⟩ := hfirst
  have hname := UInt32.toNat_inj.1 (toBytes_inj h.name.toNat_lt h'.name.toNat_lt hname)
  have hcreated :=
    UInt64.toNat_inj.1 (toBytes_inj h.createdOn.toNat_lt h'.createdOn.toNat_lt hcreated)
  have hserial :=
    UInt32.toNat_inj.1 (toBytes_inj h.serialNumber.toNat_lt h'.serialNumber.toNat_lt hserial)
  have hsize := UInt32.toNat_inj.1 (toBytes_inj h.size.toNat_lt h'.size.toNat_lt hsize)
  have hpadding :=
    UInt32.toNat_inj.1 (toBytes_inj h.padding.toNat_lt h'.padding.toNat_lt hpadding)
  have hdata :=
    UInt16.toNat_inj.1 (toBytes_inj h.dataCrc16.toNat_lt h'.dataCrc16.toNat_lt hdata)
  have hheader :=
    UInt16.toNat_inj.1 (toBytes_inj h.headerCrc16.toNat_lt h'.headerCrc16.toNat_lt hheader)
  cases h
  cases h'
  simp only [Header.mk.injEq]
  exact ⟨hm₀, hm₁, hversion, hflags, hname, hcreated, hserial, hsize, hpadding, hdata, hheader⟩

/-- A header is the one of its bytes. -/
theorem ofMemory_bytes (h : Header) : ofMemory h.bytes = h :=
  bytes_injective (bytes_ofMemory h.length_bytes)

/-- `g_message_unknown`. -/
def messageUnknown : UInt32 := 0

/-- The checks of `is_message_header_valid()`. -/
def isValid (h : Header) : Bool :=
  if h.magic₀ ≠ 98 ∨ h.magic₁ ≠ 109 then false
  else if h.version = 0 then false
  else if h.name = messageUnknown then false
  else if crc16Compute h.bytes ≠ 0 then false
  else true

end Header

/-! ### Messages -/

/-- `binary_message`, with the bytes that `f_data` points to. -/
structure BinaryMessage where
  header : Header := { }
  data : Option (List UInt8) := none
  buffer : List UInt8 := []
  deriving DecidableEq, Repr

namespace BinaryMessage

/-- The constructor, with the serial number and the time it takes. -/
def create (serialNumber : UInt32) (now : UInt64) : BinaryMessage :=
  { header := { serialNumber := serialNumber, createdOn := now } }

/-- `set_name()`. -/
def setName (m : BinaryMessage) (name : UInt32) : BinaryMessage :=
  { m with header := { m.header with name := name } }

/-- `set_data()`; the header keeps 32 bits of the size. -/
def setData (m : BinaryMessage) (data : List UInt8) : BinaryMessage :=
  { header := { m.header with size := UInt32.ofNat data.length }, data := none, buffer := data }

/-- `set_data_by_pointer()`, with what the pointer leads to. -/
def setDataByPointer (m : BinaryMessage) (data : Option (List UInt8)) : BinaryMessage :=
  { header := { m.header with size := UInt32.ofNat (data.elim 0 List.length) }
    data := data, buffer := [] }

/-- `get_header()`: the message with its check values, whose header is sent. -/
def getHeader (m : BinaryMessage) : BinaryMessage :=
  let dataCrc16 :=
    if m.header.size ≠ 0 then crc16Compute ((m.data.getD m.buffer).take m.header.size.toNat)
    else 0
  let header := { m.header with dataCrc16 := dataCrc16 }
  { m with header := { header with headerCrc16 := crc16Compute header.checked } }

/-- `set_message_header_data()`. -/
def setMessageHeaderData (m : BinaryMessage) (data : List UInt8) : BinaryMessage :=
  { m with header := .ofMemory data }

/-- `add_message_header_byte()`. -/
def addMessageHeaderByte (m : BinaryMessage) (data : UInt8) : BinaryMessage :=
  { m with header := .ofMemory (m.header.bytes.drop 1 ++ [data]) }

/-- `is_message_header_valid()`. -/
def isMessageHeaderValid (m : BinaryMessage) : Bool := m.header.isValid

/-- `READ_STATE_HEADER_ADJUST`: a byte at a time until the header is valid. -/
def adjustHeader (m : BinaryMessage) : List UInt8 → Option (BinaryMessage × List UInt8)
  | [] => if m.isMessageHeaderValid then some (m, []) else none
  | b :: stream =>
    if m.isMessageHeaderValid then some (m, b :: stream)
    else adjustHeader (m.addMessageHeaderByte b) stream

/-- The header states of `process_read()`: a whole header first.  The message with the header
found in the stream, and what follows it. -/
def receiveHeader (m : BinaryMessage) (stream : List UInt8) :
    Option (BinaryMessage × List UInt8) :=
  if stream.length < Header.messageHeaderSize then none
  else
    adjustHeader (m.setMessageHeaderData (stream.take Header.messageHeaderSize))
      (stream.drop Header.messageHeaderSize)

/-! ### Sending -/

/-- The setters of a message that is made to be sent. -/
inductive Setter
  | name (name : UInt32)
  | data (data : List UInt8)
  | dataByPointer (data : Option (List UInt8))
  deriving DecidableEq, Repr

/-- Call a setter. -/
def set (m : BinaryMessage) : Setter → BinaryMessage
  | .name name => m.setName name
  | .data data => m.setData data
  | .dataByPointer data => m.setDataByPointer data

/-- A new message, and the setters called on it one after the other. -/
def build (serialNumber : UInt32) (now : UInt64) (setters : List Setter) : BinaryMessage :=
  setters.foldl set (create serialNumber now)

/-- The header starts as the constructor made it. -/
structure Started (m : BinaryMessage) : Prop where
  magic₀ : m.header.magic₀ = 98
  magic₁ : m.header.magic₁ = 109
  version : m.header.version = 1

theorem Started.set {m : BinaryMessage} (h : m.Started) (setter : Setter) :
    (m.set setter).Started := by
  cases setter with
  | name name => exact ⟨h.magic₀, h.magic₁, h.version⟩
  | data data => exact ⟨h.magic₀, h.magic₁, h.version⟩
  | dataByPointer data => exact ⟨h.magic₀, h.magic₁, h.version⟩

theorem started_build (serialNumber : UInt32) (now : UInt64) (setters : List Setter) :
    (build serialNumber now setters).Started := by
  have hfold : ∀ m : BinaryMessage, m.Started → (setters.foldl set m).Started := by
    induction setters with
    | nil => exact fun m h => h
    | cons setter setters ih => exact fun m h => ih _ (h.set setter)
  exact hfold _ ⟨rfl, rfl, rfl⟩

/-- The check value of the header makes it valid. -/
theorem isValid_getHeader {m : BinaryMessage} (hmagic₀ : m.header.magic₀ = 98)
    (hmagic₁ : m.header.magic₁ = 109) (hversion : m.header.version ≠ 0)
    (hname : m.header.name ≠ Header.messageUnknown) : m.getHeader.header.isValid = true := by
  have hcrc : crc16Compute m.getHeader.header.bytes = 0 := by
    rw [Header.bytes, toBytes_crc16]
    exact crc16Compute_append_self _
  have hversion' : m.getHeader.header.version ≠ 0 := hversion
  have hname' : m.getHeader.header.name ≠ Header.messageUnknown := hname
  rw [Header.isValid, if_neg, if_neg hversion', if_neg hname', if_neg (not_not.2 hcrc)]
  rintro (hm | hm)
  · exact hm hmagic₀
  · exact hm hmagic₁

theorem Started.isValid_getHeader {m : BinaryMessage} (h : m.Started)
    (hname : m.header.name ≠ Header.messageUnknown) : m.getHeader.header.isValid = true :=
  BinaryMessage.isValid_getHeader h.magic₀ h.magic₁ (by rw [h.version]; decide) hname

/-! ### Receiving -/

theorem bytes_addMessageHeaderByte (m : BinaryMessage) (b : UInt8) :
    (m.addMessageHeaderByte b).header.bytes = m.header.bytes.drop 1 ++ [b] := by
  refine Header.bytes_ofMemory ?_
  rw [List.length_append, List.length_drop, Header.length_bytes]
  rfl

/-- The bytes received one at a time push the header out. -/
theorem bytes_foldl_addMessageHeaderByte (m : BinaryMessage) (stream : List UInt8) :
    (stream.foldl addMessageHeaderByte m).header.bytes
      = (m.header.bytes ++ stream).drop stream.length := by
  induction stream generalizing m with
  | nil => rw [List.foldl_nil, List.append_nil, List.length_nil, List.drop_zero]
  | cons b stream ih =>
    have hone : 1 ≤ m.header.bytes.length := by rw [Header.length_bytes]; decide
    rw [List.foldl_cons, ih, bytes_addMessageHeaderByte, List.append_assoc, List.singleton_append,
      List.length_cons, Nat.add_comm stream.length 1, ← List.drop_drop,
      List.drop_append_of_le_length hone]

theorem foldl_addMessageHeaderByte_members (m : BinaryMessage) (stream : List UInt8) :
    stream.foldl addMessageHeaderByte m
      = { m with header := (stream.foldl addMessageHeaderByte m).header } := by
  induction stream generalizing m with
  | nil => rfl
  | cons b stream ih =>
    rw [List.foldl_cons, ih]
    rfl

/-- A whole header leaves nothing of what was there before. -/
theorem foldl_addMessageHeaderByte (r : BinaryMessage) (g : List UInt8) (h : Header) :
    (g ++ h.bytes).foldl addMessageHeaderByte r = { r with header := h } := by
  rw [foldl_addMessageHeaderByte_members]
  congr 1
  apply Header.bytes_injective
  have hlen : (g ++ h.bytes).length = (r.header.bytes ++ g).length := by
    rw [List.length_append, List.length_append, Header.length_bytes, Header.length_bytes,
      Nat.add_comm]
  rw [bytes_foldl_addMessageHeaderByte, hlen, ← List.append_assoc, List.drop_left]

/-- The receiver reads on as long as no window is valid. -/
theorem adjustHeader_eq (m : BinaryMessage) (stream rest : List UInt8)
    (hinvalid : ∀ i, i < stream.length → (Header.ofMemory
      ((m.header.bytes ++ stream).slice i Header.messageHeaderSize)).isValid = false)
    (hvalid : (stream.foldl addMessageHeaderByte m).header.isValid = true) :
    m.adjustHeader (stream ++ rest) = some (stream.foldl addMessageHeaderByte m, rest) := by
  induction stream generalizing m with
  | nil =>
    have hm : m.isMessageHeaderValid = true := hvalid
    cases rest with
    | nil => rw [List.append_nil, adjustHeader, if_pos hm]; rfl
    | cons b rest => rw [List.nil_append, adjustHeader, if_pos hm]; rfl
  | cons b stream ih =>
    have hm : ¬ m.isMessageHeaderValid = true := by
      have hfirst := hinvalid 0 (Nat.succ_pos _)
      rw [List.slice_append_left _ (by rw [Header.length_bytes]; decide), List.slice,
        List.drop_zero, List.take_of_length_le (by rw [Header.length_bytes]),
        Header.ofMemory_bytes] at hfirst
      rw [isMessageHeaderValid, hfirst]
      decide
    rw [List.cons_append, adjustHeader, if_neg hm]
    refine ih (m.addMessageHeaderByte b) (fun i hi => ?_) hvalid
    -- a window of the bytes that follow is one of the bytes from here
    have hone : 1 ≤ m.header.bytes.length := by rw [Header.length_bytes]; decide
    have hnext := hinvalid (i + 1) (Nat.succ_lt_succ hi)
    rw [List.slice, Nat.add_comm i 1, ← List.drop_drop,
      List.drop_append_of_le_length hone] at hnext
    rw [bytes_addMessageHeaderByte, List.append_assoc, List.singleton_append]
    exact hnext

/-- Garbage in which no window is a valid header, and a valid header. -/
theorem receiveHeader_eq (r : BinaryMessage) (g rest : List UInt8) {h : Header}
    (hvalid : h.isValid = true)
    (hinvalid : ∀ i, i + Header.messageHeaderSize < (g ++ h.bytes).length →
      (Header.ofMemory ((g ++ h.bytes).slice i Header.messageHeaderSize)).isValid = false) :
    r.receiveHeader (g ++ h.bytes ++ rest) = some ({ r with header := h }, rest) := by
  have hlen : Header.messageHeaderSize ≤ (g ++ h.bytes).length := by
    rw [List.length_append, Header.length_bytes]
    exact Nat.le_add_left _ _
  have hfirst : (r.setMessageHeaderData ((g ++ h.bytes).take Header.messageHeaderSize)).header.bytes
      = (g ++ h.bytes).take Header.messageHeaderSize :=
    Header.bytes_ofMemory (by rw [List.length_take, Nat.min_eq_left hlen])
  have hfold : ((g ++ h.bytes).drop Header.messageHeaderSize).foldl addMessageHeaderByte
      (r.setMessageHeaderData ((g ++ h.bytes).take Header.messageHeaderSize))
      = { r with header := h } := by
    rw [foldl_addMessageHeaderByte_members]
    congr 1
    apply Header.bytes_injective
    rw [bytes_foldl_addMessageHeaderByte, hfirst, List.take_append_drop, List.length_drop,
      List.length_append, Header.length_bytes, Nat.add_sub_cancel, List.drop_left]
  rw [receiveHeader, if_neg (by rw [List.length_append]; omega),
    List.take_append_of_le_length hlen, List.drop_append_of_le_length hlen, ← hfold]
  refine adjustHeader_eq _ _ rest (fun i hi => ?_) ?_
  · rw [hfirst, List.take_append_drop]
    rw [List.length_drop] at hi
    exact hinvalid i (by omega)
  · rw [hfold]
    exact hvalid

/-- **The header of a message that has a name is received**: by a receiver that takes it whole, by
one that takes it a byte at a time after any bytes, and by the read loop after any bytes in which no
window before the last one is a valid header. -/
theorem getHeader_received (serialNumber : UInt32) (now : UInt64) (setters : List Setter)
    (hname : (build serialNumber now setters).header.name ≠ Header.messageUnknown) :
    let h := (build serialNumber now setters).getHeader.header
    (∀ r : BinaryMessage, r.setMessageHeaderData h.bytes = { r with header := h } ∧
      (r.setMessageHeaderData h.bytes).isMessageHeaderValid = true) ∧
    (∀ (r : BinaryMessage) (g : List UInt8),
      (g ++ h.bytes).foldl addMessageHeaderByte r = { r with header := h } ∧
      ((g ++ h.bytes).foldl addMessageHeaderByte r).isMessageHeaderValid = true) ∧
    (∀ (r : BinaryMessage) (g rest : List UInt8),
      (∀ i, i + Header.messageHeaderSize < (g ++ h.bytes).length →
        (Header.ofMemory ((g ++ h.bytes).slice i Header.messageHeaderSize)).isValid = false) →
      r.receiveHeader (g ++ h.bytes ++ rest) = some ({ r with header := h }, rest)) := by
  intro h
  have hvalid : h.isValid = true := (started_build serialNumber now setters).isValid_getHeader hname
  refine ⟨fun r => ?_, fun r g => ?_, fun r g rest hinvalid => ?_⟩
  · have heq : r.setMessageHeaderData h.bytes = { r with header := h } := by
      rw [setMessageHeaderData, Header.ofMemory_bytes]
    exact ⟨heq, by rw [heq]; exact hvalid⟩
  · have heq := foldl_addMessageHeaderByte r g h
    exact ⟨heq, by rw [heq]; exact hvalid⟩
  · exact receiveHeader_eq r g rest hvalid hinvalid

/-- A `PING` with no data, after the single byte 7. -/
theorem getHeader_received_ping :
    (create 5 0).receiveHeader
        ([7] ++ ((build 1 2 [.name 0x474E4950]).getHeader.header).bytes ++ [3])
      = some ({ create 5 0 with header := (build 1 2 [.name 0x474E4950]).getHeader.header },
          [3]) := by
  refine (getHeader_received 1 2 [.name 0x474E4950] (by decide)).2.2 (create 5 0) [7] [3] ?_
  intro i hi
  have hzero : i = 0 := by
    rw [List.length_append, Header.length_bytes] at hi
    have : i + 32 < 1 + 32 := hi
    omega
  subst hzero
  decide

end BinaryMessage

end Prinbee
