import Prinbee.Data.Convert
import Prinbee.Lib.Blocks
import Prinbee.Lib.Run
import Prinbee.Lib.Splice

/-!
# The hash of streamed data

`hash` is updated with 8 bytes at a time.  Up to 7 bytes wait in `f_temp`, the last one first, for
the data of the next `add()`; `get()` mixes them in without using them up.  Numbers of 32 bits wrap.

## Main definitions

* `Hash` — the fields of the class.
* `Hash.add`, `Hash.get` — the functions.
* `Hash.Call`, `Hash.call` — the calls that are made to it.
* `Hash.Holds` — the hash has taken some data.

## Main results

* `Hash.Holds.add`, `Hash.Holds.get` — what a call does to a hash that has taken data.
* `Hash.get_run` — the hash of the data does not depend on the calls that added it.
-/

namespace Prinbee

open Blocks (absorb)

/-- The fields of `hash`.  The bytes that `f_buffer` points to are those that are left of the data,
`f_size` is their number; `f_temp` is its first `f_temp_size` bytes. -/
structure Hash where
  hash : UInt32
  totalSize : ℕ
  buffer : Bytes
  temp : Bytes

namespace Hash

/-- The constructor. -/
def new (seed : UInt32) : Hash := ⟨seed, 0, [], []⟩

/-- `NOT_REACHED()`. -/
def notReached : Failure := .undefinedBehavior

/-- `get_byte()`. -/
def getByte (h : Hash) : Except Failure (UInt32 × Hash) :=
  if 0 < h.temp.length then
    .ok ((h.temp.getLastD 0).toUInt32, { h with temp := h.temp.dropLast })
  else
    match h.buffer with
    | v :: buffer => .ok (v.toUInt32, { h with buffer })
    | [] => .error notReached

/-- `peek_byte()`: the bytes are in reverse order in `f_temp`. -/
def peekByte (h : Hash) (pos : ℕ) : Except Failure UInt32 :=
  if pos < h.temp.length then .ok (h.temp.getD (h.temp.length - pos - 1) 0).toUInt32
  else .error notReached

/-- `buffer_size()`. -/
def bufferSize (h : Hash) : ℕ := (h.temp.length + h.buffer.length) % 2 ^ 64

/-- Four bytes, the first one in the high bits. -/
def word (a b c d : UInt32) : UInt32 := (a <<< 24) + (b <<< 16) + (c <<< 8) + (d <<< 0)

/-- The sum of four bytes that are taken.  The compilers take them from left to right. -/
def getWord (h : Hash) : Except Failure (UInt32 × Hash) := do
  let (a, h) ← h.getByte
  let (b, h) ← h.getByte
  let (c, h) ← h.getByte
  let (d, h) ← h.getByte
  .ok (word a b c d, h)

/-- `get_64bits()`. -/
def get64bits (h : Hash) : Except Failure (UInt32 × UInt32 × Hash) :=
  if h.temp.length = 0 ∧ 8 ≤ h.buffer.length then
    let b (i : ℕ) : UInt32 := (h.buffer.getD i 0).toUInt32
    .ok (word (b 0) (b 1) (b 2) (b 3), word (b 4) (b 5) (b 6) (b 7),
      { h with buffer := h.buffer.drop 8 })
  else if 8 ≤ h.bufferSize then do
    let (v1, h) ← h.getWord
    let (v2, h) ← h.getWord
    .ok (v1, v2, h)
  else .error notReached

/-- `peek_64bits()`. -/
def peek64bits (h : Hash) : Except Failure (UInt32 × UInt32) := do
  match h.bufferSize with
  | 7 =>
    .ok (word (← h.peekByte 0) (← h.peekByte 1) (← h.peekByte 2) (← h.peekByte 3),
      word 0 (← h.peekByte 4) (← h.peekByte 5) (← h.peekByte 6))
  | 6 =>
    .ok (word (← h.peekByte 0) (← h.peekByte 1) (← h.peekByte 2) (← h.peekByte 3),
      word 0 0 (← h.peekByte 4) (← h.peekByte 5))
  | 5 =>
    .ok (word (← h.peekByte 0) (← h.peekByte 1) (← h.peekByte 2) (← h.peekByte 3),
      word 0 0 0 (← h.peekByte 4))
  | 4 =>
    .ok (word (← h.peekByte 0) (← h.peekByte 1) (← h.peekByte 2) (← h.peekByte 3), 0)
  | 3 => .ok (word 0 (← h.peekByte 0) (← h.peekByte 1) (← h.peekByte 2), 0)
  | 2 => .ok (word 0 0 (← h.peekByte 0) (← h.peekByte 1), 0)
  | 1 => .ok (word 0 0 0 (← h.peekByte 0), 0)
  | _ => .error notReached

/-- The update of the hash with two words. -/
def mix (h v1 v2 : UInt32) : UInt32 :=
  h ^^^ ((h <<< 7) ^^^ (v1 * (h >>> 3)) ^^^ (~~~((h <<< 11) + (v2 ^^^ (h >>> 5)))))

/-- The update of `get()` with the first bytes that wait. -/
def mixFirst (h v : UInt32) : UInt32 := h ^^^ ~~~((h <<< 11) + (v ^^^ (h >>> 5)))

/-- The update of `get()` with the bytes that follow them. -/
def mixNext (h v : UInt32) : UInt32 := h ^^^ ((h <<< 7) ^^^ v * (h >>> 3))

/-- The hash with the words of the bytes that wait. -/
def finish (h : UInt32) (sz : ℕ) (v1 v2 : UInt32) : UInt32 :=
  let (h, loop, sz, v1) : UInt32 × UInt32 × ℕ × UInt32 :=
    if 4 ≤ sz then (mixFirst h v1, 1, sz - 4, v2) else (h, 0, sz, v1)
  let (h, loop, sz, v1) : UInt32 × UInt32 × ℕ × UInt32 :=
    if 3 ≤ sz then
      let v2 := v1 >>> 8
      (if loop ≠ 0 then mixNext h v2 else mixFirst h v2, loop + 1, 1, v1 &&& 255)
    else if sz = 2 then (if loop ≠ 0 then mixNext h v1 else mixFirst h v1, loop, 0, v1)
    else (h, loop, sz, v1)
  if 0 < sz then h + ((v1 ^^^ (h * 0xA5A5A5A5)) + loop) else h

/-- `get()`. -/
def get (h : Hash) : Except Failure UInt32 :=
  let sz := h.bufferSize
  if 0 < sz then do
    let (v1, v2) ← h.peek64bits
    .ok (finish h.hash sz v1 v2)
  else .ok h.hash

/-- `size()`. -/
def size (h : Hash) : ℕ := h.totalSize

/-! ### Taking bytes -/

/-- The bytes that are not in the hash yet. -/
def data (h : Hash) : Bytes := h.temp.reverse ++ h.buffer

theorem length_data (h : Hash) : h.data.length = h.temp.length + h.buffer.length := by
  rw [data, List.length_append, List.length_reverse]

theorem bufferSize_eq {h : Hash} (hsize : h.data.length < 2 ^ 64) :
    h.bufferSize = h.data.length := by
  rw [bufferSize, ← length_data, Nat.mod_eq_of_lt hsize]

/-- The fields that taking a byte does not change. -/
def SameTotals (h h' : Hash) : Prop := h'.hash = h.hash ∧ h'.totalSize = h.totalSize

/-- The first byte is taken. -/
theorem getByte_eq {h : Hash} {c : UInt8} {rest : Bytes} (hdata : h.data = c :: rest) :
    ∃ h', h.getByte = .ok (c.toUInt32, h') ∧ h'.data = rest ∧ h.SameTotals h' := by
  rw [data] at hdata
  rw [getByte]
  rcases List.eq_nil_or_concat h.temp with htemp | ⟨temp, d, htemp⟩
  · rw [htemp, List.reverse_nil, List.nil_append] at hdata
    refine ⟨{ h with buffer := rest }, ?_, ?_, rfl, rfl⟩
    · rw [if_neg (by simp [htemp]), hdata]
    · rw [data, htemp]
      rfl
  · rw [htemp, List.concat_eq_append, List.reverse_concat, List.cons_append,
      List.cons.injEq] at hdata
    refine ⟨{ h with temp := temp }, ?_, hdata.2, rfl, rfl⟩
    rw [htemp, List.concat_eq_append, if_pos (by simp), List.getLastD_concat,
      List.dropLast_concat, hdata.1]

/-- What a byte is taken from has one byte more. -/
theorem length_of_getByte {h h' : Hash} {v : UInt32} (heq : h.getByte = .ok (v, h')) :
    h'.data.length + 1 = h.data.length := by
  cases hdata : h.data with
  | nil =>
    have hlength := h.length_data
    rw [hdata, List.length_nil] at hlength
    have hbuffer : h.buffer = [] := List.length_eq_zero_iff.1 (by omega)
    rw [getByte, if_neg (by omega), hbuffer] at heq
    cases heq
  | cons c rest =>
    obtain ⟨h₁, h₁eq, hrest, -⟩ := getByte_eq hdata
    rw [h₁eq] at heq
    cases heq
    rw [hrest, List.length_cons]

theorem length_of_getWord {h h' : Hash} {v : UInt32} (heq : h.getWord = .ok (v, h')) :
    h'.data.length + 4 = h.data.length := by
  obtain ⟨⟨a, ha⟩, heqa, heq⟩ := bind_eq_ok.1 heq
  obtain ⟨⟨b, hb⟩, heqb, heq⟩ := bind_eq_ok.1 heq
  obtain ⟨⟨c, hc⟩, heqc, heq⟩ := bind_eq_ok.1 heq
  obtain ⟨⟨d, hd⟩, heqd, heq⟩ := bind_eq_ok.1 heq
  cases heq
  rw [← length_of_getByte heqa, ← length_of_getByte heqb, ← length_of_getByte heqc,
    ← length_of_getByte heqd]

theorem length_of_get64bits {h h' : Hash} {v1 v2 : UInt32}
    (heq : h.get64bits = .ok (v1, v2, h')) : h'.data.length + 8 = h.data.length := by
  rw [get64bits] at heq
  split at heq
  · cases heq
    simp only [length_data, List.length_drop]
    omega
  · split at heq
    · obtain ⟨⟨v1, h₁⟩, heq₁, heq⟩ := bind_eq_ok.1 heq
      obtain ⟨⟨v2, h₂⟩, heq₂, heq⟩ := bind_eq_ok.1 heq
      cases heq
      rw [← length_of_getWord heq₁, ← length_of_getWord heq₂]
    · cases heq

/-- The first four bytes are taken. -/
theorem getWord_eq {h : Hash} {a b c d : UInt8} {rest : Bytes}
    (hdata : h.data = a :: b :: c :: d :: rest) :
    ∃ h', h.getWord = .ok (word a.toUInt32 b.toUInt32 c.toUInt32 d.toUInt32, h') ∧
      h'.data = rest ∧ h.SameTotals h' := by
  obtain ⟨ha, heqa, hdata, hasha, totala⟩ := getByte_eq hdata
  obtain ⟨hb, heqb, hdata, hashb, totalb⟩ := getByte_eq hdata
  obtain ⟨hc, heqc, hdata, hashc, totalc⟩ := getByte_eq hdata
  obtain ⟨hd, heqd, hdata, hashd, totald⟩ := getByte_eq hdata
  refine ⟨hd, ?_, hdata, ?_, ?_⟩
  · exact bind_eq_ok.2 ⟨_, heqa, bind_eq_ok.2 ⟨_, heqb, bind_eq_ok.2 ⟨_, heqc,
      bind_eq_ok.2 ⟨_, heqd, rfl⟩⟩⟩⟩
  · rw [hashd, hashc, hashb, hasha]
  · rw [totald, totalc, totalb, totala]

/-- The update of the hash with the 8 bytes of a block. -/
def update (h : UInt32) (block : Bytes) : UInt32 :=
  let b (i : ℕ) : UInt32 := (block.getD i 0).toUInt32
  mix h (word (b 0) (b 1) (b 2) (b 3)) (word (b 4) (b 5) (b 6) (b 7))

/-- A block is taken, with the bytes that wait or without. -/
theorem get64bits_eq {h : Hash} {block rest : Bytes} (hblock : block.length = 8)
    (hdata : h.data = block ++ rest) (hsize : h.data.length < 2 ^ 64) :
    ∃ v1 v2 h', h.get64bits = .ok (v1, v2, h') ∧ mix h.hash v1 v2 = update h.hash block ∧
      h'.data = rest ∧ h.SameTotals h' := by
  have hlength : h.data.length = 8 + rest.length := by
    rw [hdata, List.length_append, hblock]
  obtain ⟨b0, b1, b2, b3, b4, b5, b6, b7, rfl⟩ : ∃ b0 b1 b2 b3 b4 b5 b6 b7,
      block = [b0, b1, b2, b3, b4, b5, b6, b7] := by
    match block, hblock with
    | [b0, b1, b2, b3, b4, b5, b6, b7], _ => exact ⟨b0, b1, b2, b3, b4, b5, b6, b7, rfl⟩
  rw [get64bits]
  split
  · next hfast =>
    -- nothing waits
    have hbuffer := hdata
    rw [data, List.length_eq_zero_iff.1 hfast.1, List.reverse_nil, List.nil_append] at hbuffer
    refine ⟨_, _, { h with buffer := rest }, ?_, rfl, ?_, rfl, rfl⟩
    · rw [hbuffer]
      rfl
    · rw [data, List.length_eq_zero_iff.1 hfast.1]
      rfl
  · rw [bufferSize_eq hsize, if_pos (by omega)]
    obtain ⟨h₁, heq₁, hdata, hhash₁, htotal₁⟩ := getWord_eq hdata
    obtain ⟨h₂, heq₂, hdata, hhash₂, htotal₂⟩ := getWord_eq hdata
    refine ⟨_, _, h₂, ?_, rfl, hdata, hhash₂.trans hhash₁, htotal₂.trans htotal₁⟩
    exact bind_eq_ok.2 ⟨_, heq₁, bind_eq_ok.2 ⟨_, heq₂, rfl⟩⟩

/-! ### Adding data -/

/-- `process_buffer()`. -/
def processBuffer (h : Hash) : Except Failure Hash :=
  if 8 ≤ h.bufferSize then
    match _heq : h.get64bits with
    | .error e => .error e
    | .ok (v1, v2, h') => processBuffer { h' with hash := mix h'.hash v1 v2 }
  else
    -- the bytes that wait are moved up, and the others are copied below them, the last one first
    .ok { h with temp := h.buffer.reverse ++ h.temp, buffer := [] }
termination_by h.data.length
decreasing_by
  have hlength := length_of_get64bits _heq
  change h'.data.length < h.data.length
  omega

/-- `add()`. -/
def add (h : Hash) (v : Bytes) : Except Failure Hash :=
  processBuffer { h with totalSize := (h.totalSize + v.length) % 2 ^ 64, buffer := v }

/-- The whole blocks are in the hash, and the bytes that are left wait. -/
theorem processBuffer_eq {h : Hash} (hsize : h.data.length < 2 ^ 64) :
    ∃ h', h.processBuffer = .ok h' ∧ h'.buffer = [] ∧ h'.totalSize = h.totalSize ∧
      (h'.hash, h'.temp.reverse) = absorb 8 update h.hash h.data := by
  induction hn : h.data.length using Nat.strong_induction_on generalizing h with
  | _ n ih =>
    subst hn
    rw [processBuffer]
    by_cases hlt : 8 ≤ h.data.length
    · rw [if_pos (by rwa [bufferSize_eq hsize])]
      have hblock := List.length_take_of_le hlt
      have hsplit := (List.take_append_drop 8 h.data).symm
      obtain ⟨v1, v2, h₁, heq, hmix, hdata, hhash, htotal⟩ := get64bits_eq hblock hsplit hsize
      have hlength := length_of_get64bits heq
      split
      · next herror =>
        rw [heq] at herror
        cases herror
      · next hok =>
        rw [heq] at hok
        cases hok
        obtain ⟨h', h'eq, hbuffer, htotal', habsorb⟩ :=
          ih h₁.data.length (by omega) (h := { h₁ with hash := mix h₁.hash v1 v2 })
            (show h₁.data.length < 2 ^ 64 by omega) rfl
        refine ⟨h', h'eq, hbuffer, htotal'.trans htotal, ?_⟩
        rw [hsplit, Blocks.absorb_block (by decide) _ hblock, ← hmix, ← hdata, ← hhash]
        exact habsorb
    · rw [if_neg (by rwa [bufferSize_eq hsize]), Blocks.absorb_of_lt _ (by omega)]
      refine ⟨_, rfl, rfl, rfl, ?_⟩
      rw [List.reverse_append, List.reverse_reverse, data]

/-! ### The calls -/

/-- A call to the hash: the result of `get()` is not kept. -/
inductive Call
  | add (v : Bytes)
  | get

/-- What a call does; `get()` does not change the hash. -/
def call (h : Hash) : Call → Except Failure Hash
  | .add v => h.add v
  | .get => do
    let _ ← h.get
    .ok h

/-- The data that a call adds. -/
def Call.added : Call → Bytes
  | .add v => v
  | .get => []

/-- The hash has taken some data: its whole blocks are in the hash, and the bytes that are left
wait. -/
structure Holds (seed : UInt32) (data : Bytes) (h : Hash) : Prop where
  buffer : h.buffer = []
  totalSize : h.totalSize = data.length % 2 ^ 64
  absorb : (h.hash, h.temp.reverse) = absorb 8 update seed data

section

variable {seed : UInt32} {data v : Bytes} {h h' : Hash}

theorem holds_new (seed : UInt32) : (new seed).Holds seed [] := by
  refine ⟨rfl, rfl, ?_⟩
  rw [Blocks.absorb_of_lt _ (by decide)]
  rfl

/-- The data says what the fields are. -/
theorem Holds.unique (hh : h.Holds seed data) (hh' : h'.Holds seed data) : h = h' := by
  have hfields := hh.absorb.trans hh'.absorb.symm
  rw [Prod.mk.injEq, List.reverse_inj] at hfields
  cases h
  cases h'
  simp only [mk.injEq]
  exact ⟨hfields.1, hh.totalSize.trans hh'.totalSize.symm, hh.buffer.trans hh'.buffer.symm,
    hfields.2⟩

theorem Holds.length_temp (hh : h.Holds seed data) : h.temp.length < 8 := by
  have hlt := Blocks.length_absorb_lt (show 0 < 8 by decide) (f := update) seed data
  rw [← hh.absorb, List.length_reverse] at hlt
  exact hlt

/-- More data is added. -/
theorem Holds.add (hh : h.Holds seed data) (hsize : (data ++ v).length < 2 ^ 64) :
    ∃ h', h.add v = .ok h' ∧ h'.Holds seed (data ++ v) := by
  have hle := Blocks.length_absorb_le (n := 8) (f := update) seed data
  rw [← hh.absorb, List.length_reverse] at hle
  obtain ⟨h', heq, hbuffer, htotal, habsorb⟩ := processBuffer_eq
    (h := { h with totalSize := (h.totalSize + v.length) % 2 ^ 64, buffer := v }) (by
      rw [length_data]
      rw [List.length_append] at hsize
      exact (Nat.add_le_add_right hle _).trans_lt hsize)
  refine ⟨h', heq, hbuffer, ?_, ?_⟩
  · rw [htotal, hh.totalSize, List.length_append, Nat.mod_add_mod]
  · rw [habsorb, Blocks.absorb_append, ← hh.absorb]
    rfl

/-- The bytes that wait are read. -/
theorem peek64bits_ok (hbuffer : h.buffer = []) (hpos : 0 < h.temp.length)
    (hlt : h.temp.length < 8) : ∃ words, h.peek64bits = .ok words := by
  obtain ⟨hash, totalSize, buffer, temp⟩ := h
  obtain rfl : buffer = [] := hbuffer
  match temp, hpos, hlt with
  | [_], _, _ => exact ⟨_, rfl⟩
  | [_, _], _, _ => exact ⟨_, rfl⟩
  | [_, _, _], _, _ => exact ⟨_, rfl⟩
  | [_, _, _, _], _, _ => exact ⟨_, rfl⟩
  | [_, _, _, _, _], _, _ => exact ⟨_, rfl⟩
  | [_, _, _, _, _, _], _, _ => exact ⟨_, rfl⟩
  | [_, _, _, _, _, _, _], _, _ => exact ⟨_, rfl⟩

/-- There is a result at any time. -/
theorem Holds.get (hh : h.Holds seed data) : ∃ v, h.get = .ok v := by
  have hlt := hh.length_temp
  have hsize : h.bufferSize = h.temp.length := by
    rw [bufferSize, hh.buffer, List.length_nil, Nat.add_zero, Nat.mod_eq_of_lt (by omega)]
  rw [Hash.get, hsize]
  by_cases hpos : 0 < h.temp.length
  · obtain ⟨words, hwords⟩ := peek64bits_ok hh.buffer hpos hlt
    rw [if_pos hpos, hwords]
    exact ⟨_, rfl⟩
  · rw [if_neg hpos]
    exact ⟨_, rfl⟩

end

/-- The hash has taken the data of the calls. -/
theorem holds_run (seed : UInt32) {calls : List Call}
    (hsize : (calls.flatMap Call.added).length < 2 ^ 64) :
    ∃ h, calls.foldlM call (new seed) = .ok h ∧ h.Holds seed (calls.flatMap Call.added) := by
  induction calls using List.reverseRecOn with
  | nil => exact ⟨_, rfl, holds_new seed⟩
  | append_singleton calls c ih =>
    rw [List.flatMap_append, List.flatMap_singleton] at hsize ⊢
    obtain ⟨h, hrun, hh⟩ := ih (by
      rw [List.length_append] at hsize
      omega)
    rw [List.foldlM_append, hrun, ok_bind, List.foldlM_cons]
    cases c with
    | add v =>
      obtain ⟨h', hadd, hh'⟩ := hh.add hsize
      exact ⟨h', bind_eq_ok.2 ⟨h', hadd, rfl⟩, hh'⟩
    | get =>
      obtain ⟨v, hget⟩ := hh.get
      refine ⟨h, bind_eq_ok.2 ⟨h, bind_eq_ok.2 ⟨v, hget, rfl⟩, rfl⟩, ?_⟩
      rwa [Call.added, List.append_nil]

/-- **The hash does not depend on the calls that added the data**: after any of them, with calls to
`get()` in between, it is the one after all the data is added at once. -/
theorem get_run (seed : UInt32) (calls : List Call)
    (hsize : (calls.flatMap Call.added).length < 2 ^ 64) :
    ∃ h h' v, calls.foldlM call (new seed) = .ok h ∧
      (new seed).add (calls.flatMap Call.added) = .ok h' ∧
      h.get = .ok v ∧ h'.get = .ok v ∧ h.size = (calls.flatMap Call.added).length := by
  obtain ⟨h, hrun, hh⟩ := holds_run seed hsize
  obtain ⟨h', hadd, hh'⟩ := (holds_new seed).add hsize
  obtain ⟨v, hget⟩ := hh.get
  rw [List.nil_append] at hh'
  refine ⟨h, h', v, hrun, hadd, hget, ?_, ?_⟩
  · rwa [← hh.unique hh']
  · rw [size, hh.totalSize, Nat.mod_eq_of_lt hsize]

/-- Ten bytes in three calls. -/
theorem get_run_tenBytes :
    ∃ h h' v, [Call.add [1, 2, 3], .get, .add [], .add [4, 5, 6, 7, 8, 9], .get,
        .add [10]].foldlM call (new 7) = .ok h ∧
      (new 7).add [1, 2, 3, 4, 5, 6, 7, 8, 9, 10] = .ok h' ∧
      h.get = .ok v ∧ h'.get = .ok v ∧ h.size = 10 :=
  get_run 7 [.add [1, 2, 3], .get, .add [], .add [4, 5, 6, 7, 8, 9], .get, .add [10]] (by decide)

end Hash

end Prinbee
