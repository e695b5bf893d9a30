import Prinbee.Lib.Crc
import Prinbee.Network.MessageStream

/-!
# Corrupted messages

The table of `crc16.cpp` divides by the polynomial `0xA001`, whose high bit is its constant term, a
byte at a time and the low bit of a byte first.  A header ends with its check value, low byte first,
so a valid header is a sequence of bits that the polynomial divides.  The header also has the check
value of the data, which `process_read()` never looks at.

## Main definitions

* `byteBits`, `bitsOf` — the bits of a byte and of bytes, the low ones first.
* `crc16Poly` — the polynomial of the table.
* `BinaryMessage.Corrupted` — data that do not have the check value of the header.
* `MessageChannel.NotDispatched` — a message is not dispatched with these data.

## Main results

* `toBitVec_crc16Compute` — `crc16_compute()` is the division.
* `BinaryMessage.corrupted_invalid` — a header that is altered within 16 bits is not valid.
* `MessageChannel.notDispatched_iff` — corrupted data are dispatched as soon as they have been read.
-/

namespace Prinbee

/-! ### The table -/

/-- The polynomial of the table. -/
def crc16Poly : BitVec 16 := 0xA001

/-- The bits of a byte, the low one first. -/
def byteBits (b : UInt8) : List Bool := (List.range 8).map b.toBitVec.getLsbD

/-- The bits of bytes. -/
def bitsOf (data : List UInt8) : List Bool := data.flatMap byteBits

@[simp] theorem length_byteBits (b : UInt8) : (byteBits b).length = 8 := by
  rw [byteBits, List.length_map, List.length_range]

@[simp] theorem bitsOf_cons (b : UInt8) (data : List UInt8) :
    bitsOf (b :: data) = byteBits b ++ bitsOf data := rfl

@[simp] theorem length_bitsOf (data : List UInt8) : (bitsOf data).length = 8 * data.length := by
  induction data with
  | nil => rfl
  | cons b data ih =>
    rw [bitsOf_cons, List.length_append, length_byteBits, ih, List.length_cons]
    omega

theorem getD_byteBits (b : UInt8) (i : ℕ) : (byteBits b).getD i false = b.toBitVec.getLsbD i := by
  by_cases hi : i < 8
  · rw [List.getD_eq_getElem _ _ (by rwa [length_byteBits])]
    simp [byteBits]
  · rw [List.getD_eq_default _ _ (by rw [length_byteBits]; omega),
      BitVec.getLsbD_of_ge _ _ (by omega)]

/-- The table, all of its entries at once. -/
theorem map_crc16Tbl : crc16Tbl.map UInt16.toBitVec =
    (List.range 256).map fun b => Crc.shifts crc16Poly 8 (BitVec.ofNat 16 b) := by
  decide +kernel

/-- An entry of the table is its index divided. -/
theorem crc16Tbl_eq_shifts : ∀ b : Fin 256,
    (crc16Tbl.getD b.val 0).toBitVec = Crc.shifts crc16Poly 8 (BitVec.ofNat 16 b.val) := by
  intro b
  have hentry := congrArg (fun entries => entries.getD b.val (UInt16.toBitVec 0)) map_crc16Tbl
  have hlt : b.val <
      ((List.range 256).map fun b => Crc.shifts crc16Poly 8 (BitVec.ofNat 16 b)).length := by simp
  rw [List.getD_map, List.getD_eq_getElem _ _ hlt, List.getElem_map, List.getElem_range] at hentry
  exact hentry

/-- The register that holds the bits of a byte. -/
theorem ofBits_byteBits (b : UInt8) :
    (Crc.ofBits (byteBits b) : BitVec 16) = b.toBitVec.setWidth 16 := by
  apply BitVec.eq_of_getLsbD_eq
  intro i hi
  rw [Crc.getLsbD_ofBits _ hi, getD_byteBits, BitVec.getLsbD_setWidth]
  simp [hi]

/-- The low byte of the register, and the bits that eight steps move down. -/
theorem shifts_eight (c : BitVec 16) :
    Crc.shifts crc16Poly 8 c
      = Crc.shifts crc16Poly 8 (BitVec.ofNat 16 (c.toNat % 256)) ^^^ c >>> 8 := by
  have hlow : ∀ i, (BitVec.ofNat 16 (c.toNat % 256)).getLsbD i = (decide (i < 8) && c.getLsbD i) := by
    intro i
    rw [BitVec.getLsbD_ofNat, show (256 : ℕ) = 2 ^ 8 from rfl, Nat.testBit_mod_two_pow]
    by_cases hi : i < 8
    · simp [hi, show i < 16 by omega, BitVec.getLsbD]
    · simp [hi]
  have hsplit : c = BitVec.ofNat 16 (c.toNat % 256) ^^^ (c ^^^ BitVec.ofNat 16 (c.toNat % 256)) := by
    rw [BitVec.xor_comm c, ← BitVec.xor_assoc, BitVec.xor_self, BitVec.zero_xor]
  -- what is left of the register has its low byte clear
  have hhigh : ∀ i, i < 8 → (c ^^^ BitVec.ofNat 16 (c.toNat % 256)).getLsbD i = false := by
    intro i hi
    rw [BitVec.getLsbD_xor, hlow]
    simp [hi]
  have hmove : (c ^^^ BitVec.ofNat 16 (c.toNat % 256)) >>> 8 = c >>> 8 := by
    apply BitVec.eq_of_getLsbD_eq
    intro i _
    rw [BitVec.getLsbD_ushiftRight, BitVec.getLsbD_xor, hlow, BitVec.getLsbD_ushiftRight]
    simp
  calc Crc.shifts crc16Poly 8 c
      = Crc.shifts crc16Poly 8 (BitVec.ofNat 16 (c.toNat % 256)
          ^^^ (c ^^^ BitVec.ofNat 16 (c.toNat % 256))) := by rw [← hsplit]
    _ = Crc.shifts crc16Poly 8 (BitVec.ofNat 16 (c.toNat % 256)) ^^^ c >>> 8 := by
        rw [Crc.shifts_xor, Crc.shifts_of_low crc16Poly hhigh, hmove]

/-- `next_crc()` divides by the bits of a byte. -/
theorem toBitVec_nextCrc (crc : UInt16) (b : UInt8) :
    (nextCrc crc b).toBitVec = Crc.remainder crc16Poly crc.toBitVec (byteBits b) := by
  have hfit : (byteBits b).length ≤ 16 := by rw [length_byteBits]; decide
  rw [Crc.remainder_eq_shifts _ _ hfit, length_byteBits, ofBits_byteBits, shifts_eight]
  have hindex : (((crc &&& 0xFF) ^^^ b.toUInt16).toNat : ℕ)
      = (crc.toBitVec ^^^ b.toBitVec.setWidth 16).toNat % 256 := by
    rw [and_low_byte]
    apply Nat.eq_of_testBit_eq
    intro i
    rw [show (256 : ℕ) = 2 ^ 8 from rfl, Nat.testBit_mod_two_pow]
    simp only [UInt16.toNat_xor, UInt8.toNat_toUInt16, UInt16.toNat_toUInt8, BitVec.toNat_xor,
      BitVec.toNat_setWidth, UInt16.toNat_toBitVec, UInt8.toNat_toBitVec, Nat.testBit_xor]
    have hb : b.toNat % 2 ^ 16 = b.toNat := Nat.mod_eq_of_lt (by have := b.toNat_lt; omega)
    rw [Nat.testBit_mod_two_pow, hb]
    by_cases hi : i < 8
    · simp [hi]
    · have hout : b.toNat.testBit i = false :=
        Nat.testBit_lt_two_pow (Nat.lt_of_lt_of_le b.toNat_lt (Nat.pow_le_pow_right (by decide)
          (by omega)))
      simp [hi, hout]
  have hentry := crc16Tbl_eq_shifts ⟨_, Nat.mod_lt
    (crc.toBitVec ^^^ b.toBitVec.setWidth 16).toNat (by decide : 0 < 256)⟩
  have hmove : (crc.toBitVec ^^^ b.toBitVec.setWidth 16) >>> 8 = crc.toBitVec >>> 8 := by
    apply BitVec.eq_of_getLsbD_eq
    intro i _
    rw [BitVec.getLsbD_ushiftRight, BitVec.getLsbD_xor, BitVec.getLsbD_setWidth,
      BitVec.getLsbD_of_ge b.toBitVec (8 + i) (by omega), BitVec.getLsbD_ushiftRight]
    simp
  rw [hmove, nextCrc]
  simp only [hindex, UInt16.toBitVec_xor, hentry]
  exact BitVec.xor_comm _ _

/-- **`crc16_compute()` is the division** of the bits. -/
theorem toBitVec_crc16Compute (data : List UInt8) :
    (crc16Compute data).toBitVec = Crc.remainder crc16Poly 0#16 (bitsOf data) := by
  have hfold : ∀ crc : UInt16, (data.foldl nextCrc crc).toBitVec
      = Crc.remainder crc16Poly crc.toBitVec (bitsOf data) := by
    induction data with
    | nil => exact fun crc => rfl
    | cons b data ih =>
      intro crc
      rw [List.foldl_cons, ih, toBitVec_nextCrc, bitsOf_cons, Crc.remainder_append]
  exact hfold 0

/-! ### Headers -/

namespace BinaryMessage

/-- **A header that is altered within 16 bits is not valid**, wherever these bits are. -/
theorem corrupted_invalid (m : BinaryMessage) (altered : Header)
    (hvalid : m.isMessageHeaderValid = true)
    (hne : bitsOf altered.bytes ≠ bitsOf m.header.bytes)
    (hburst : ∃ p, ∀ i, (bitsOf altered.bytes).getD i false ≠ (bitsOf m.header.bytes).getD i false →
      p ≤ i ∧ i < p + 16) :
    isMessageHeaderValid { m with header := altered } = false := by
  obtain ⟨p, hburst⟩ := hburst
  have hcrc : crc16Compute m.header.bytes = 0 := by
    by_contra hcrc
    rw [isMessageHeaderValid, Header.isValid] at hvalid
    simp [hcrc] at hvalid
  have hlen : (bitsOf altered.bytes).length = (bitsOf m.header.bytes).length := by
    rw [length_bitsOf, length_bitsOf, Header.length_bytes, Header.length_bytes]
  have hdiffer := Crc.remainder_ne_of_burst (by decide : crc16Poly.getLsbD (16 - 1) = true) hlen
    hne hburst
  rw [← toBitVec_crc16Compute, ← toBitVec_crc16Compute, hcrc] at hdiffer
  have haltered : crc16Compute altered.bytes ≠ 0 := fun h => hdiffer (by rw [h])
  rw [isMessageHeaderValid, Header.isValid]
  simp [haltered]

/-- A `PING`. -/
def pingHeader : Header := (build 1 2 [.name 0x474E4950]).getHeader.header

/-- A `PING` whose check value has its lowest bit altered. -/
theorem corrupted_invalid_ping :
    isMessageHeaderValid { header := { pingHeader with
      headerCrc16 := pingHeader.headerCrc16 ^^^ 1 } } = false := by
  refine corrupted_invalid { header := pingHeader } _ (by decide +kernel) (by decide +kernel)
    ⟨240, fun i hi => ?_⟩
  by_cases hlt : i < 256
  · refine ⟨?_, hlt⟩
    by_contra hbefore
    have htake : (bitsOf ({ pingHeader with
        headerCrc16 := pingHeader.headerCrc16 ^^^ 1 } : Header).bytes).take 240 =
        (bitsOf pingHeader.bytes).take 240 := by
      decide +kernel
    have hsame := congrArg (fun bits => bits.getD i false) htake
    simp only [List.getD_eq_getElem?_getD, List.getElem?_take_of_lt (Nat.not_le.1 hbefore)] at hsame hi
    exact hi hsame
  · have hout : ∀ h : Header, (bitsOf h.bytes).getD i false = false := fun h =>
      List.getD_eq_default _ _ (by
        rw [length_bitsOf, Header.length_bytes]
        exact Nat.le_of_not_lt hlt)
    exact absurd ((hout _).trans (hout _).symm) hi

/-- As many bytes as the header says, with another check value than the one in the header. -/
def Corrupted (m : BinaryMessage) (data : List UInt8) : Prop :=
  data.length = m.getHeader.header.size.toNat ∧ crc16Compute data ≠ m.getHeader.header.dataCrc16

end BinaryMessage

/-! ### Data -/

namespace MessageReader

/-- A header that has not arrived whole. -/
theorem dispatched_foldl_header (before : List BinaryMessage) {chunk : List UInt8}
    (hlt : chunk.length < Header.messageHeaderSize) :
    (chunk.foldl feed ⟨.header, [], none, before⟩).dispatched = before := by
  by_cases hnil : chunk = []
  · rw [hnil]
    rfl
  · have hle : chunk.length ≤ wanted ⟨.header, [], none, before⟩ := hlt.le
    rw [← consume_eq_foldl _ hnil hle]
    simp only [consume, List.nil_append, if_pos hlt]

/-- Data that have not arrived whole. -/
theorem dispatched_foldl_data (before : List BinaryMessage) {m : BinaryMessage}
    {chunk : List UInt8} (hlt : chunk.length < m.header.size.toNat) :
    (chunk.foldl feed ⟨.data, [], some m, before⟩).dispatched = before := by
  by_cases hnil : chunk = []
  · rw [hnil]
    rfl
  · have hle : chunk.length ≤ wanted ⟨.data, [], some m, before⟩ := hlt.le
    rw [← consume_eq_foldl _ hnil hle]
    have hnot : ¬ m.header.size.toNat ≤ chunk.length := Nat.not_le_of_lt hlt
    simp only [consume, getBinaryMessage, List.nil_append, Option.getD_some]
    exact congrArg dispatched (if_neg hnot)

end MessageReader

namespace MessageChannel

open MessageReader (feed)

/-- The bytes of a header have arrived, with data behind them, and whatever follows. -/
def arrived (reader : MessageReader) (m : BinaryMessage) (data rest : List UInt8) :
    MessageChannel :=
  { inFlight := m.getHeader.header.bytes ++ (data ++ rest), reader }

/-- Calls of `process_read()`, each with its event limit and the sizes of its reads. -/
def processReads (s : MessageChannel) (calls : List (ℕ × List ℕ)) : MessageChannel :=
  calls.foldl (fun s call => processRead call.1 call.2 0 s) s

/-- What is dispatched next is not the message with these data. -/
def NotDispatched (s s' : MessageChannel) (m : BinaryMessage) (data : List UInt8) : Prop :=
  ∀ m', s.reader.dispatched ++ [m'] <+: s'.reader.dispatched →
    m'.content ≠ (m.header.name, m.header.serialNumber, data)

theorem processReads_consumed (s : MessageChannel) (calls : List (ℕ × List ℕ)) :
    ∃ chunk, s.inFlight = chunk ++ (s.processReads calls).inFlight ∧
      (s.processReads calls).reader = chunk.foldl feed s.reader := by
  induction calls generalizing s with
  | nil => exact ⟨[], rfl, rfl⟩
  | cons call calls ih =>
    obtain ⟨chunk, hflight, hreader, -⟩ := s.processRead_consumed call.1 call.2 0
    obtain ⟨chunk', hflight', hreader'⟩ := ih (processRead call.1 call.2 0 s)
    refine ⟨chunk ++ chunk', ?_, ?_⟩
    · rw [List.append_assoc, processReads, List.foldl_cons]
      exact hflight.trans (congrArg (chunk ++ ·) hflight')
    · rw [List.foldl_append, ← hreader]
      exact hreader'

/-- Less than the header and its data: nothing is dispatched. -/
theorem dispatched_partial {m : OutgoingMessage}
    (hname : m.message.header.name ≠ Header.messageUnknown) (hsize : m.message.header.size ≠ 0)
    (dispatched : List BinaryMessage) {data : List UInt8}
    (hlength : data.length = m.message.getHeader.header.size.toNat) {chunk : List UInt8}
    (hread : chunk <+: m.message.getHeader.header.bytes ++ data)
    (hne : chunk ≠ m.message.getHeader.header.bytes ++ data) :
    (chunk.foldl feed ⟨.header, [], none, dispatched⟩).dispatched = dispatched := by
  let received : BinaryMessage := { header := m.message.getHeader.header }
  have hvalid : received.isMessageHeaderValid = true :=
    BinaryMessage.isValid_getHeader m.wellFormed.magic₀ m.wellFormed.magic₁ m.wellFormed.version
      hname
  have hheader := received.header.length_bytes
  by_cases hlt : chunk.length < Header.messageHeaderSize
  · exact MessageReader.dispatched_foldl_header dispatched hlt
  · -- the header is there, and some of the data are missing
    have hle : received.header.bytes.length ≤ chunk.length :=
      hheader.le.trans (Nat.le_of_not_lt hlt)
    obtain ⟨part, rfl⟩ := List.prefix_of_prefix_length_le (List.prefix_append _ data) hread hle
    have hpart := (List.prefix_append_right_inj _).1 hread
    have hshort : part.length < received.header.size.toNat := by
      refine Nat.lt_of_le_of_ne (hpart.length_le.trans hlength.le) fun heq => hne ?_
      rw [hpart.eq_of_length (heq.trans hlength.symm)]
    have hsize' : received.header.size ≠ 0 := hsize
    rw [List.foldl_append, MessageReader.foldl_header,
      MessageReader.headerReceived_of_valid hvalid, if_neg hsize']
    exact MessageReader.dispatched_foldl_data dispatched hshort

/-- The header and its data, whatever these are. -/
theorem foldl_whole {m : OutgoingMessage} (hname : m.message.header.name ≠ Header.messageUnknown)
    (hsize : m.message.header.size ≠ 0)
    (dispatched : List BinaryMessage) {data : List UInt8}
    (hlength : data.length = m.message.getHeader.header.size.toNat) :
    ∃ m' : BinaryMessage,
      m'.content = (m.message.header.name, m.message.header.serialNumber, data) ∧
      ((m.message.getHeader.header.bytes ++ data).foldl feed
        ⟨.header, [], none, dispatched⟩).dispatched = dispatched ++ [m'] := by
  let received : BinaryMessage := { header := m.message.getHeader.header }
  have hvalid : received.isMessageHeaderValid = true :=
    BinaryMessage.isValid_getHeader m.wellFormed.magic₀ m.wellFormed.magic₁ m.wellFormed.version
      hname
  have hne : data ≠ [] := by
    rintro rfl
    exact hsize (UInt32.toNat_inj.1 hlength.symm)
  have hsize' : received.header.size ≠ 0 := hsize
  refine ⟨received.setDataByPointer (some data), rfl, ?_⟩
  rw [List.foldl_append, MessageReader.foldl_header, MessageReader.headerReceived_of_valid hvalid,
    if_neg hsize']
  -- the loop only counts the bytes of the data
  exact congrArg MessageReader.dispatched
    (MessageReader.foldl_data dispatched hne (m := received) hlength.symm)

/-- **Corrupted data are dispatched as soon as they have been read**, however they are read: the
message is kept back only as long as bytes of it are missing, or if it has no name. -/
theorem notDispatched_iff (earlier : List UInt8) (hidle : (earlier.foldl feed { }).Idle)
    (m : OutgoingMessage) (hsize : m.message.header.size ≠ 0) (data rest : List UInt8)
    (hdata : m.message.Corrupted data) (calls : List (ℕ × List ℕ)) :
    NotDispatched (arrived (earlier.foldl feed { }) m.message data rest)
        ((arrived (earlier.foldl feed { }) m.message data rest).processReads calls)
        m.message data ↔
      m.message.header.name = Header.messageUnknown ∨
        rest.length < ((arrived (earlier.foldl feed { }) m.message data rest).processReads
          calls).inFlight.length := by
  have hhungry := MessageReader.hungry_foldl MessageReader.hungry_start earlier
  generalize earlier.foldl feed { } = reader at hidle hhungry ⊢
  obtain ⟨chunk, hflight, hreader⟩ :=
    (arrived reader m.message data rest).processReads_consumed calls
  generalize (arrived reader m.message data rest).processReads calls = s at hflight hreader ⊢
  obtain ⟨readState, held, binaryMessage, dispatched⟩ := reader
  obtain ⟨rfl, rfl, rfl⟩ : readState = .header ∧ held = [] ∧ binaryMessage = none :=
    ⟨hidle.readState, hidle.data, hidle.binaryMessage⟩
  replace hflight : m.message.getHeader.header.bytes ++ data ++ rest = chunk ++ s.inFlight :=
    (List.append_assoc _ _ _).trans hflight
  have hreader : s.reader = chunk.foldl feed ⟨.header, [], none, dispatched⟩ := hreader
  have hlength : (m.message.getHeader.header.bytes ++ data).length + rest.length =
      chunk.length + s.inFlight.length := by
    rw [← List.length_append, hflight, List.length_append]
  by_cases hname : m.message.header.name = Header.messageUnknown
  · refine iff_of_true (fun m' hm' hcontent => ?_) (Or.inl hname)
    have hmem : m' ∈ s.reader.dispatched :=
      hm'.subset (List.mem_append_right _ (List.mem_singleton_self m'))
    have hdeliverable := (MessageReader.hungry_foldl hhungry chunk).dispatched m' (hreader ▸ hmem)
    exact hdeliverable.1 ((Prod.mk.inj hcontent).1.trans hname)
  · rw [or_iff_right hname]
    have hwhole : m.message.getHeader.header.bytes ++ data <+: chunk ++ s.inFlight :=
      hflight ▸ List.prefix_append _ rest
    have hchunk := List.prefix_append chunk s.inFlight
    by_cases hlt : rest.length < s.inFlight.length
    · -- some bytes of the message are missing
      have hshort : chunk.length < (m.message.getHeader.header.bytes ++ data).length := by omega
      have hnone := dispatched_partial hname hsize dispatched hdata.1
        (List.prefix_of_prefix_length_le hchunk hwhole hshort.le) fun heq => by
          rw [heq] at hshort
          exact lt_irrefl _ hshort
      refine iff_of_true (fun m' hm' _ => ?_) hlt
      rw [hreader, hnone] at hm'
      have hle : (dispatched ++ [m']).length ≤ dispatched.length := hm'.length_le
      rw [List.length_append, List.length_singleton] at hle
      omega
    · -- all of them were read, and perhaps more
      have hle : (m.message.getHeader.header.bytes ++ data).length ≤ chunk.length := by omega
      obtain ⟨more, rfl⟩ := List.prefix_of_prefix_length_le hwhole hchunk hle
      obtain ⟨m', hcontent, hdispatched⟩ := foldl_whole hname hsize dispatched hdata.1
      refine iff_of_false (fun hnot => hnot m' ?_ hcontent) hlt
      rw [hreader, List.foldl_append]
      change dispatched ++ [m'] <+: _
      rw [← hdispatched]
      exact MessageReader.dispatched_foldl _ more

/-- A message with one byte of data. -/
def oneByte : OutgoingMessage :=
  ⟨.build 1 2 [.name 0x474E4950, .data [1]], BinaryMessage.wellFormed_build 1 2 _⟩

/-- One bit of the byte is lost, and the message arrives in two reads. -/
theorem notDispatched_iff_oneByte :
    NotDispatched (arrived { } oneByte.message [0] [])
        ((arrived { } oneByte.message [0] []).processReads [(5, [32, 1])]) oneByte.message [0] ↔
      oneByte.message.header.name = Header.messageUnknown ∨
        0 < ((arrived { } oneByte.message [0] []).processReads [(5, [32, 1])]).inFlight.length :=
  notDispatched_iff [] ⟨rfl, rfl, rfl⟩ oneByte (by decide) [0] []
    ⟨by decide, by decide⟩ [(5, [32, 1])]

/-- Its other byte is dispatched. -/
theorem not_notDispatched :
    ¬ ∀ (m : OutgoingMessage) (data : List UInt8), m.message.header.size ≠ 0 →
      m.message.Corrupted data → ∀ calls,
        NotDispatched (arrived { } m.message data [])
          ((arrived { } m.message data []).processReads calls) m.message data := by
  intro h
  have hnot := h oneByte [0] (by decide) ⟨by decide, by decide⟩ [(5, [32, 1])]
  let received : BinaryMessage := { header := oneByte.message.getHeader.header }
  refine hnot (received.setDataByPointer (some [0])) ?_ ?_
  · decide +kernel
  · decide

end MessageChannel

end Prinbee
