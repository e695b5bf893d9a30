import Prinbee.BigInt.UInt512
import Prinbee.Data.Convert
import Prinbee.Lib.Splice

/-!
# The event files of a journal

`journal.cpp`: a journal file is a header of 8 bytes and events one after the other.  An event is
a header of 32 bytes, the offsets of its attachments, its request identifier and the attachments
that are small enough to be saved inline.  Nothing in the file says where the last event ends: the
loader goes from header to header until one of them does not pass its checks.

## Main definitions

* `Status` — `status_t`.
* `journalHeader`, `eventHeader` — the headers as they are written.
* `EventFile.Valid`, `EventFile.Live` — the checks of the loader on the header at an offset.
* `EventFile.liveOffsets` — where the chain of headers has a live one.
-/

namespace Prinbee

open UInt512 (ofBytes toBytes)

/-- `status_t`, without `STATUS_UNKNOWN`, which no event in a file has. -/
inductive Status
  | ready
  | forwarded
  | acknowledged
  | completed
  | failed
  deriving DecidableEq, Repr

namespace Status

/-- The number saved in a file. -/
def code : Status → UInt8
  | ready => 1
  | forwarded => 2
  | acknowledged => 3
  | completed => 4
  | failed => 100

/-- The status with that number. -/
def ofCode (c : UInt8) : Option Status :=
  if c = 1 then some ready
  else if c = 2 then some forwarded
  else if c = 3 then some acknowledged
  else if c = 4 then some completed
  else if c = 100 then some failed
  else none

/-- The process still works on the event. -/
def isLive : Status → Bool
  | ready | forwarded | acknowledged => true
  | completed | failed => false

/-- The changes that `update_event_status()` accepts. -/
def mayBecome : Status → Status → Bool
  | ready, forwarded | ready, acknowledged | ready, completed | ready, failed => true
  | forwarded, acknowledged | forwarded, completed | forwarded, failed => true
  | acknowledged, completed | acknowledged, failed => true
  | _, _ => false

@[simp] theorem ofCode_code (s : Status) : ofCode s.code = some s := by cases s <;> rfl

end Status

/-! ### Times

A `snapdev::timespec_ex` is a number of nanoseconds. -/

namespace Timespec

/-- The seconds are a 64-bit signed integer. -/
def Fits (t : ℤ) : Prop := -(2 ^ 63 * 10 ^ 9) ≤ t ∧ t < 2 ^ 63 * 10 ^ 9

/-- `f_time`: `tv_sec` and `tv_nsec` as two unsigned words. -/
def words (t : ℤ) : ℕ × ℕ := ((t / 10 ^ 9 % 2 ^ 64).toNat, (t % 10 ^ 9).toNat)

/-- The time of two words; the first one is read as a signed integer. -/
def ofWords (sec nsec : ℕ) : ℤ :=
  (if sec < 2 ^ 63 then (sec : ℤ) else sec - 2 ^ 64) * 10 ^ 9 + nsec

/-- `is_in_the_future(g_time_epsilon)`. -/
def isInTheFuture (now t : ℤ) : Bool := now + 5 * 10 ^ 9 < t

theorem ofWords_words {t : ℤ} (h : Fits t) : ofWords (words t).1 (words t).2 = t := by
  obtain ⟨hlo, hhi⟩ := h
  have hsec : -(2 ^ 63) ≤ t / 10 ^ 9 ∧ t / 10 ^ 9 < 2 ^ 63 := by omega
  have hnsec : ((t % 10 ^ 9).toNat : ℤ) = t % 10 ^ 9 :=
    Int.toNat_of_nonneg (Int.emod_nonneg _ (by decide))
  have hword : ((t / 10 ^ 9 % 2 ^ 64).toNat : ℤ) = t / 10 ^ 9 % 2 ^ 64 :=
    Int.toNat_of_nonneg (Int.emod_nonneg _ (by decide))
  have hsigned : (if (t / 10 ^ 9 % 2 ^ 64).toNat < 2 ^ 63 then ((t / 10 ^ 9 % 2 ^ 64).toNat : ℤ)
      else (t / 10 ^ 9 % 2 ^ 64).toNat - 2 ^ 64) = t / 10 ^ 9 := by
    rw [hword]
    split <;> omega
  rw [words, ofWords, hsigned, hnsec]
  omega

theorem words_lt (t : ℤ) : (words t).1 < 2 ^ 64 ∧ (words t).2 < 2 ^ 64 := by
  rw [words]
  omega

end Timespec

/-! ### What is written -/

/-- `event_journal_header_t`. -/
def journalHeader : Bytes := [69, 86, 84, 74, 1, 0, 0, 0]

/-- `event_journal_event_t`. -/
def eventHeader (status : Status) (requestIdSize size : ℕ) (time : ℤ)
    (attachmentCount : ℕ) : Bytes :=
  [101, 118, status.code, UInt8.ofNat requestIdSize] ++ toBytes 4 size ++
    toBytes 8 (Timespec.words time).1 ++ toBytes 8 (Timespec.words time).2 ++
    [UInt8.ofNat attachmentCount] ++ List.replicate 7 0

theorem length_eventHeader (status : Status) (requestIdSize size : ℕ) (time : ℤ)
    (attachmentCount : ℕ) :
    (eventHeader status requestIdSize size time attachmentCount).length = 32 := by
  simp only [eventHeader, List.length_append, UInt512.length_toBytes, List.length_cons,
    List.length_nil, List.length_replicate]

/-- `seekp()` and `write()`: past the end of the file the gap reads as zeroes. -/
def writeAt (file : Bytes) (offset : ℕ) (data : Bytes) : Bytes :=
  (file ++ List.replicate (offset - file.length) 0).overwrite offset data

theorem writeAt_of_le {file : Bytes} {offset : ℕ} (data : Bytes) (h : offset ≤ file.length) :
    writeAt file offset data = file.overwrite offset data := by
  rw [writeAt, Nat.sub_eq_zero_of_le h, List.replicate_zero, List.append_nil]

/-- `ftruncate()`. -/
def resizeFile (file : Bytes) (size : ℕ) : Bytes :=
  file.take size ++ List.replicate (size - file.length) 0

namespace EventFile

/-! ### What the loader reads -/

/-- `f_status` of the header at an offset. -/
def status (file : Bytes) (offset : ℕ) : UInt8 := file.getD (offset + 2) 0

/-- `f_request_id_size`. -/
def requestIdSize (file : Bytes) (offset : ℕ) : ℕ := (file.getD (offset + 3) 0).toNat

/-- `f_size`. -/
def size (file : Bytes) (offset : ℕ) : ℕ := ofBytes (file.slice (offset + 4) 4)

/-- `f_time`. -/
def time (file : Bytes) (offset : ℕ) : ℤ :=
  Timespec.ofWords (ofBytes (file.slice (offset + 8) 8)) (ofBytes (file.slice (offset + 16) 8))

/-- `f_attachment_count`. -/
def attachmentCount (file : Bytes) (offset : ℕ) : ℕ := (file.getD (offset + 24) 0).toNat

/-- The header, the offsets of the attachments and the request identifier. -/
def prefixSize (file : Bytes) (offset : ℕ) : ℕ :=
  32 + 4 * attachmentCount file offset + requestIdSize file offset

/-- The request identifier of the event at an offset. -/
def requestId (file : Bytes) (offset : ℕ) : Bytes :=
  file.slice (offset + 32 + 4 * attachmentCount file offset) (requestIdSize file offset)

/-- `load_event_locations()` goes on after the header at this offset: it is all there, it has its
magic and a known status, its sizes agree and leave at least one byte of data, and its time is not
in the future. -/
def Valid (now : ℤ) (file : Bytes) (offset : ℕ) : Prop :=
  offset + 32 ≤ file.length ∧ file.getD offset 0 = 101 ∧ file.getD (offset + 1) 0 = 118 ∧
    (Status.ofCode (status file offset)).isSome ∧ requestIdSize file offset ≠ 0 ∧
    size file offset + offset ≤ file.length ∧ prefixSize file offset < size file offset ∧
    Timespec.isInTheFuture now (time file offset) = false

instance (now : ℤ) (file : Bytes) (offset : ℕ) : Decidable (Valid now file offset) := by
  unfold Valid
  infer_instance

/-- The event is one that the process still works on. -/
def Live (file : Bytes) (offset : ℕ) : Prop :=
  (Status.ofCode (status file offset)).any Status.isLive = true

instance (file : Bytes) (offset : ℕ) : Decidable (Live file offset) := by
  unfold Live
  infer_instance

/-- The magic and the version of the file. -/
def HasHeader (file : Bytes) : Prop := 8 ≤ file.length ∧ file.take 6 = journalHeader.take 6

instance (file : Bytes) : Decidable (HasHeader file) := by
  unfold HasHeader
  infer_instance

/-- The chain of headers from an offset on: where they are live. -/
def liveFrom (now : ℤ) (file : Bytes) : ℕ → ℕ → List ℕ
  | 0, _ => []
  | fuel + 1, offset =>
    if Valid now file offset then
      let next := liveFrom now file fuel (offset + size file offset)
      if Live file offset then offset :: next else next
    else []

/-- The offsets of the live headers that a reader meets who goes from header to header, from the
first one to one that is not valid. -/
def liveOffsets (now : ℤ) (file : Bytes) : List ℕ :=
  if HasHeader file then liveFrom now file file.length 8 else []

/-! ### The readers see the bytes of the event only -/

section Readers

variable {file file' : Bytes} {offset offset' n : ℕ}

theorem getD_eq_of_slice (h : file.slice offset n = file'.slice offset' n) {i : ℕ} (hi : i < n) :
    file.getD (offset + i) 0 = file'.getD (offset' + i) 0 := by
  have hget := congrArg (fun l => l[i]?.getD 0) h
  simp only [List.getElem?_slice, if_pos hi] at hget
  rw [List.getD_eq_getElem?_getD, List.getD_eq_getElem?_getD]
  exact hget

theorem slice_eq_of_slice (h : file.slice offset n = file'.slice offset' n) {i m : ℕ}
    (hi : i + m ≤ n) : file.slice (offset + i) m = file'.slice (offset' + i) m := by
  rw [← List.slice_slice hi, ← List.slice_slice hi, h]

/-- What the header at `offset` says is what the header at `offset'` says, when their bytes are the
same. -/
structure SameHeader (file : Bytes) (offset : ℕ) (file' : Bytes) (offset' : ℕ) : Prop where
  magic₀ : file.getD offset 0 = file'.getD offset' 0
  magic₁ : file.getD (offset + 1) 0 = file'.getD (offset' + 1) 0
  status : status file offset = status file' offset'
  requestIdSize : requestIdSize file offset = requestIdSize file' offset'
  size : size file offset = size file' offset'
  time : time file offset = time file' offset'
  attachmentCount : attachmentCount file offset = attachmentCount file' offset'

theorem sameHeader (h : file.slice offset n = file'.slice offset' n) (hn : 32 ≤ n) :
    SameHeader file offset file' offset' where
  magic₀ := getD_eq_of_slice h (show 0 < n by omega)
  magic₁ := getD_eq_of_slice h (show 1 < n by omega)
  status := getD_eq_of_slice h (show 2 < n by omega)
  requestIdSize := congrArg UInt8.toNat (getD_eq_of_slice h (show 3 < n by omega))
  size := congrArg ofBytes (slice_eq_of_slice h (show 4 + 4 ≤ n by omega))
  time := congrArg₂ Timespec.ofWords
    (congrArg ofBytes (slice_eq_of_slice h (show 8 + 8 ≤ n by omega)))
    (congrArg ofBytes (slice_eq_of_slice h (show 16 + 8 ≤ n by omega)))
  attachmentCount := congrArg UInt8.toNat (getD_eq_of_slice h (show 24 < n by omega))

theorem SameHeader.prefixSize (h : SameHeader file offset file' offset') :
    prefixSize file offset = prefixSize file' offset' := by
  rw [EventFile.prefixSize, EventFile.prefixSize, h.attachmentCount, h.requestIdSize]

theorem SameHeader.requestId (h : SameHeader file offset file' offset')
    (hs : file.slice offset n = file'.slice offset' n) (hn : EventFile.prefixSize file offset ≤ n) :
    requestId file offset = requestId file' offset' := by
  rw [EventFile.requestId, EventFile.requestId, h.attachmentCount, h.requestIdSize, Nat.add_assoc,
    Nat.add_assoc]
  apply slice_eq_of_slice hs
  rw [← h.attachmentCount, ← h.requestIdSize]
  exact hn

/-- The checks see what is left of the file. -/
theorem valid_congr (now : ℤ) (hd : file.drop offset = file'.drop offset)
    (hlen : file.length = file'.length) : Valid now file offset ↔ Valid now file' offset := by
  have hslice : ∀ n, file.slice offset n = file'.slice offset n := fun n => by
    rw [List.slice, List.slice, hd]
  have h := sameHeader (hslice 32) le_rfl
  rw [Valid, Valid, hlen, h.magic₀, h.magic₁, h.status, h.requestIdSize, h.size, h.prefixSize,
    h.time]

end Readers

/-! ### Reading a new event -/

section NewEvent

variable {st : Status} {requestIdSize sz : ℕ} {t : ℤ} {count : ℕ} (rest : Bytes)

/-- The fields of a header, one after the other. -/
theorem eventHeader_append : eventHeader st requestIdSize sz t count ++ rest =
    [101, 118, st.code, UInt8.ofNat requestIdSize] ++ (toBytes 4 sz ++
      (toBytes 8 (Timespec.words t).1 ++ (toBytes 8 (Timespec.words t).2 ++
        (UInt8.ofNat count :: (List.replicate 7 0 ++ rest))))) := by
  simp only [eventHeader, List.append_assoc, List.cons_append, List.nil_append]

theorem size_eventHeader (h : sz < 2 ^ 32) :
    size (eventHeader st requestIdSize sz t count ++ rest) 0 = sz := by
  have hslice := List.slice_append_middle [101, 118, st.code, UInt8.ofNat requestIdSize]
    (toBytes 4 sz) (toBytes 8 (Timespec.words t).1 ++ (toBytes 8 (Timespec.words t).2 ++
      (UInt8.ofNat count :: (List.replicate 7 0 ++ rest))))
  rw [UInt512.length_toBytes] at hslice
  rw [size, eventHeader_append]
  change ofBytes (List.slice _ 4 4) = sz
  rw [show (List.slice _ 4 4 : Bytes) = _ from hslice, UInt512.ofBytes_toBytes,
    Nat.mod_eq_of_lt (by norm_num; omega)]

theorem time_eventHeader (h : Timespec.Fits t) :
    time (eventHeader st requestIdSize sz t count ++ rest) 0 = t := by
  have hwords := Timespec.words_lt t
  have hsec := List.slice_append_middle
    ([101, 118, st.code, UInt8.ofNat requestIdSize] ++ toBytes 4 sz)
    (toBytes 8 (Timespec.words t).1) (toBytes 8 (Timespec.words t).2 ++
      (UInt8.ofNat count :: (List.replicate 7 0 ++ rest)))
  have hnsec := List.slice_append_middle
    ([101, 118, st.code, UInt8.ofNat requestIdSize] ++ toBytes 4 sz ++
      toBytes 8 (Timespec.words t).1)
    (toBytes 8 (Timespec.words t).2) (UInt8.ofNat count :: (List.replicate 7 0 ++ rest))
  simp only [List.length_append, UInt512.length_toBytes, List.append_assoc, List.length_cons,
    List.length_nil] at hsec hnsec
  rw [time, eventHeader_append]
  change Timespec.ofWords (ofBytes (List.slice _ 8 8)) (ofBytes (List.slice _ 16 8)) = t
  rw [show (List.slice _ 8 8 : Bytes) = _ from hsec, show (List.slice _ 16 8 : Bytes) = _ from hnsec,
    UInt512.ofBytes_toBytes, UInt512.ofBytes_toBytes, Nat.mod_eq_of_lt (by norm_num; omega),
    Nat.mod_eq_of_lt (by norm_num; omega), Timespec.ofWords_words h]

theorem attachmentCount_eventHeader (h : count < 256) :
    attachmentCount (eventHeader st requestIdSize sz t count ++ rest) 0 = count := by
  have hlen : ([101, 118, st.code, UInt8.ofNat requestIdSize] ++ (toBytes 4 sz ++
      (toBytes 8 (Timespec.words t).1 ++ toBytes 8 (Timespec.words t).2))).length = 24 := by
    simp only [List.length_append, UInt512.length_toBytes, List.length_cons, List.length_nil]
  have hassoc : [101, 118, st.code, UInt8.ofNat requestIdSize] ++ (toBytes 4 sz ++
      (toBytes 8 (Timespec.words t).1 ++ (toBytes 8 (Timespec.words t).2 ++
        (UInt8.ofNat count :: (List.replicate 7 0 ++ rest))))) =
      ([101, 118, st.code, UInt8.ofNat requestIdSize] ++ (toBytes 4 sz ++
        (toBytes 8 (Timespec.words t).1 ++ toBytes 8 (Timespec.words t).2))) ++
        (UInt8.ofNat count :: (List.replicate 7 0 ++ rest)) := by
    simp only [List.append_assoc]
  rw [attachmentCount, eventHeader_append, hassoc, List.getD_append_right _ _ _ _ (by omega), hlen]
  change (UInt8.ofNat count).toNat = count
  exact UInt8.toNat_ofNat_of_lt' h

theorem requestIdSize_eventHeader (h : requestIdSize < 256) :
    EventFile.requestIdSize (eventHeader st requestIdSize sz t count ++ rest) 0 = requestIdSize :=
  UInt8.toNat_ofNat_of_lt' h

end NewEvent

end EventFile

end Prinbee
