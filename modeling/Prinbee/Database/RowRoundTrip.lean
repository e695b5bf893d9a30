import Prinbee.Database.Row
import Prinbee.Database.CellRoundTrip
import Prinbee.Data.ConvertRoundTrip

/-!
# Rows read back

A row that was saved is read back cell by cell, and the zeroes that the allocation of its space adds
after it are not taken for a cell.  The row has the same columns again, and the same values where
each of them is representable.

## Main definitions

* `Row.Valid` — the cells of a row of a table.
* `Row.RoundTrips` — the row is read back, whatever its padding.

## Main results

* `Row.roundTrips_iff` — when a row is read back.
-/

namespace Prinbee

namespace Row

open Cell (IsSet Rereads Representable)

variable {F : Type} {fmt : FloatFormat F} {lib : Conversions} {t : Table} {cells cells' : Cells F}
  {c : Cell F} {bytes : Bytes}

/-- The cells of a row: each one of a column of the table, as `get_cell()` finds it, with a value that
was set, in the order of the identifiers. -/
structure Valid (fmt : FloatFormat F) (t : Table) (version : UInt32) (cells : Cells F) : Prop where
  column : ∀ c ∈ cells, t.getColumn (id c) version = .ok (some c.schemaColumn)
  isSet : ∀ c ∈ cells, IsSet fmt c.schemaColumn c
  sorted : cells.Pairwise fun c d => id c < id d

/-! ### The map of the cells -/

theorem put_append (h : ∀ d ∈ cells, id d < id c) : put c cells = cells ++ [c] := by
  induction cells with
  | nil => rfl
  | cons d cells ih =>
    have hd := h d List.mem_cons_self
    rw [put, if_neg (UInt16.lt_asymm hd), if_neg (UInt16.ne_of_lt hd).symm,
      ih fun x hx => h x (List.mem_cons_of_mem d hx), List.cons_append]

/-- A column that has no cell yet gets a new one. -/
theorem getCell_new (h : ∀ d ∈ cells, id d < id c)
    (hcolumn : t.getColumn (id c) 0 = .ok (some c.schemaColumn)) :
    getCell fmt t cells (id c) = .ok (.new fmt c.schemaColumn) := by
  have hnone : cells.find? (id · = id c) = none :=
    List.find?_eq_none.2 fun d hd => by simpa using UInt16.ne_of_lt (h d hd)
  rw [getCell, hnone]
  simp only
  rw [hcolumn, ok_bind]

/-! ### The identifiers -/

/-- A column has an identifier that is not 0. -/
theorem id_ne_zero {version : UInt32} (h : t.getColumn (id c) version = .ok (some c.schemaColumn)) :
    (id c).toNat ≠ 0 := by
  rw [Table.getColumn] at h
  obtain ⟨s, -, hfind⟩ := bind_eq_ok.1 h
  have hsome : s.columns.reverse.find? (·.columnId = id c) = some c.schemaColumn :=
    Except.ok.inj hfind
  have hmem := List.mem_of_find?_eq_some hsome
  have hne := s.id_ne_zero _ (List.mem_reverse.1 hmem)
  exact fun hzero => hne (UInt16.toNat_inj.1 hzero)

theorem readBe_id (c : Cell F) (rest : Bytes) :
    readBe 2 (pushBe 2 (id c).toNat ++ rest) = .ok ((id c).toNat, rest) := by
  have hlt : (id c).toNat % 256 ^ 2 = (id c).toNat := Nat.mod_eq_of_lt (UInt16.toNat_lt _)
  rw [readBe_pushBe, hlt]

/-! ### The cells, one after the other -/

/-- The cells, with what each one comes back as. -/
inductive Reread (fmt : FloatFormat F) : Cells F → Bytes → Cells F → Prop
  | nil : Reread fmt [] [] []
  | cons {c c' : Cell F} {cells cells' : Cells F} {value bytes : Bytes}
    (hvalue : c.valueToBinary fmt = .ok value) (hread : Rereads fmt c.schemaColumn value c')
    (hsame : c' = c ↔ c.Representable) (h : Reread fmt cells bytes cells') :
    Reread fmt (c :: cells) (pushBe 2 (id c).toNat ++ value ++ bytes) (c' :: cells')

theorem reread (hset : ∀ c ∈ cells, IsSet fmt c.schemaColumn c)
    (h : cellsToBinary fmt cells = .ok bytes) : ∃ cells', Reread fmt cells bytes cells' := by
  induction cells generalizing bytes with
  | nil =>
    cases h
    exact ⟨[], .nil⟩
  | cons c cells ih =>
    rw [cellsToBinary] at h
    obtain ⟨cell, hcell, h⟩ := bind_eq_ok.1 h
    obtain ⟨rest, hrest, h⟩ := bind_eq_ok.1 h
    cases h
    rw [cellToBinary] at hcell
    obtain ⟨value, hvalue, hcell⟩ := bind_eq_ok.1 hcell
    cases hcell
    obtain ⟨c', hread, hsame⟩ := (hset c List.mem_cons_self).settled.rereads hvalue
    obtain ⟨cells', h'⟩ := ih (fun d hd => hset d (List.mem_cons_of_mem c hd)) hrest
    exact ⟨c' :: cells', .cons hvalue hread hsame h'⟩

theorem Reread.eq_iff (h : Reread fmt cells bytes cells') :
    cells' = cells ↔ ∀ c ∈ cells, c.Representable := by
  induction h with
  | nil => simp
  | cons hvalue hread hsame h ih =>
    rw [List.cons.injEq, List.forall_mem_cons, hsame, ih]

theorem Reread.length_le (h : Reread fmt cells bytes cells') : cells.length ≤ bytes.length := by
  induction h with
  | nil => exact Nat.le_refl 0
  | cons hvalue hread hsame h ih =>
    rw [List.length_cons, List.length_append, List.length_append, length_pushBe]
    omega

/-- The loop reads each cell, and ends at the padding. -/
theorem Reread.fromCurrent (h : Reread fmt cells bytes cells')
    (hcolumn : ∀ c ∈ cells, t.getColumn (id c) 0 = .ok (some c.schemaColumn))
    (hsorted : cells.Pairwise fun c d => id c < id d) {fuel : ℕ} {done : Cells F}
    (hdone : ∀ d ∈ done, ∀ c ∈ cells, id d < id c) (hfuel : cells.length < fuel) (n : ℕ) :
    fromCurrent fmt t fuel done (bytes ++ List.replicate n 0) = .ok (done ++ cells') := by
  induction h generalizing fuel done with
  | nil =>
    cases fuel with
    | zero => exact absurd hfuel (Nat.not_lt_zero _)
    | succ fuel =>
      rw [Row.fromCurrent, List.nil_append, List.append_nil, List.length_replicate]
      by_cases hn : 2 ≤ n
      · -- two bytes of the padding are the identifier 0
        have hzero : readBe 2 (List.replicate n 0) = .ok (0, List.replicate (n - 2) 0) := by
          rw [readBe, if_pos (by rw [List.length_replicate]; exact hn), List.take_replicate,
            List.drop_replicate, List.reverse_replicate, UInt512.ofBytes_replicate_zero]
        rw [if_pos hn, hzero, ok_bind]
        simp only [if_true]
      · rw [if_neg hn]
  | @cons c c' cells cells' value bytes hvalue hread hsame h ih =>
    cases fuel with
    | zero => exact absurd hfuel (Nat.not_lt_zero _)
    | succ fuel =>
      obtain ⟨hfirst, hrest⟩ := List.pairwise_cons.1 hsorted
      have hcol := hcolumn c List.mem_cons_self
      have hlt : ∀ d ∈ done, id d < id c := fun d hd => hdone d hd c List.mem_cons_self
      have hid : id c' = id c := congrArg SchemaColumn.columnId hread.schemaColumn
      have hput : put c' done = done ++ [c'] := put_append fun d hd => hid ▸ hlt d hd
      rw [Row.fromCurrent, List.append_assoc, List.append_assoc, if_pos (by
        rw [List.length_append, length_pushBe]; omega), readBe_id, ok_bind]
      simp only
      rw [if_neg (id_ne_zero hcol), UInt16.ofNat_toNat, getCell_new hlt hcol, ok_bind, hread.read,
        ok_bind]
      simp only
      rw [hput, ih (fun d hd => hcolumn d (List.mem_cons_of_mem c hd)) hrest
        (fun d hd x hx => ?_) (Nat.lt_of_succ_lt_succ hfuel), List.append_assoc,
        List.singleton_append]
      rcases List.mem_append.1 hd with hd | hd
      · exact hdone d hd x (List.mem_cons_of_mem c hx)
      · rw [List.mem_singleton.1 hd, hid]
        exact hfirst x hx

/-! ### Rows -/

/-- The row is read back from its bytes, with any number of zeroes after them. -/
def RoundTrips (fmt : FloatFormat F) (lib : Conversions) (t : Table) (cells : Cells F) (bytes : Bytes) :
    Prop :=
  ∀ n, fromBinary fmt lib t (bytes ++ List.replicate n 0) = .ok cells

/-- What a row comes back as, whatever its padding. -/
theorem exists_fromBinary (lib : Conversions) (hvalid : Valid fmt t 0 cells)
    (h : toBinary fmt t cells = .ok bytes) :
    ∃ cells', (∀ n, fromBinary fmt lib t (bytes ++ List.replicate n 0) = .ok cells') ∧
      (cells' = cells ↔ ∀ c ∈ cells, c.Representable) := by
  rw [toBinary] at h
  obtain ⟨values, hvalues, h⟩ := bind_eq_ok.1 h
  simp only at h
  split at h
  · cases h
  cases h
  obtain ⟨cells', hread⟩ := reread hvalid.isSet hvalues
  refine ⟨cells', fun n => ?_, hread.eq_iff⟩
  have hversion : t.getSchemaVersion.toNat % 256 ^ 4 = t.getSchemaVersion.toNat :=
    Nat.mod_eq_of_lt (UInt32.toNat_lt _)
  have hlen := hread.length_le
  have hcurrent : fromCurrent fmt t ((pushBe 4 t.getSchemaVersion.toNat ++
      (values ++ List.replicate n 0)).length + 1) [] (values ++ List.replicate n 0) =
      .ok ([] ++ cells') :=
    hread.fromCurrent hvalid.column hvalid.sorted (fun d hd => absurd hd List.not_mem_nil)
      (by rw [List.length_append, List.length_append]; omega) n
  rw [fromBinary, List.append_assoc, readBe_pushBe, ok_bind, hversion]
  simp only [UInt32.ofNat_toNat, ne_eq, not_true_eq_false, if_false]
  rw [hcurrent, List.nil_append]

/-- **A row is read back** exactly when the value of each of its cells is representable. -/
theorem roundTrips_iff (hvalid : Valid fmt t 0 cells) (h : toBinary fmt t cells = .ok bytes) :
    RoundTrips fmt lib t cells bytes ↔ ∀ c ∈ cells, c.Representable := by
  obtain ⟨cells', hfrom, hsame⟩ := exists_fromBinary lib hvalid h
  rw [← hsame]
  constructor
  · intro hall
    exact Except.ok.inj ((hfrom 0).symm.trans (hall 0))
  · rintro heq n
    rw [hfrom n, heq]

/-! ### A table -/

/-- The bits of a number where they are: enough for cells that have no floating point. -/
def plainFloat : FloatFormat (UInt64 × UInt64) where
  zero := (0, 0)
  ofFloat bits := (bits.toUInt64, 0)
  toFloat x := x.1.toUInt32
  ofDouble bits := (bits, 0)
  toDouble x := x.1
  ofWords x := x
  words x := x
  ofFloat_zero := rfl
  ofFloat_toFloat bits := by simp
  ofDouble_zero := rfl
  ofDouble_toDouble _ := rfl
  ofWords_words _ := rfl

/-- A column whose name is a letter. -/
def column (letter : UInt8) (columnId : UInt16) (type : StructType) : SchemaColumn :=
  ⟨[letter], columnId, type, 0⟩

/-- A table with one version of its schema. -/
def tableOf (columns : List SchemaColumn) (h : ∀ c ∈ columns, c.columnId ≠ 0) : Table where
  name := [116]
  schemaTable := ⟨0, columns, h⟩
  schemaTableByVersion version := if version = 0 then some ⟨0, columns, h⟩ else none

/-- A cell after one call of a setter. -/
def cellOf (letter : UInt8) (columnId : UInt16) (type : StructType)
    (changed : Cell (UInt64 × UInt64) → Cell (UInt64 × UInt64)) : Cell (UInt64 × UInt64) :=
  changed (.new plainFloat (column letter columnId type))

theorem roundTrips_two :
    RoundTrips plainFloat hexConversions
      (tableOf [column 97 1 .int16, column 98 2 .p8string] (by decide))
      [cellOf 97 1 .int16 (·.setInteger (-2)), cellOf 98 2 .p8string ({ · with string := [120] })]
      [0, 0, 0, 0, 0, 1, 255, 254, 0, 2, 1, 120] :=
  (roundTrips_iff
    ⟨by simp only [List.forall_mem_cons]; exact ⟨rfl, rfl, by simp⟩,
      by
        simp only [List.forall_mem_cons]
        exact ⟨.set (.int16 (-2)) .new rfl, .set (.string [120]) .new rfl, by simp⟩,
      by simp only [List.pairwise_cons]; exact ⟨by decide, by decide, .nil⟩⟩
    rfl).2 (by simp only [List.forall_mem_cons]; exact ⟨trivial, trivial, by simp⟩)

/-- A row with one value that is not representable is not read back. -/
theorem not_roundTrips (lib : Conversions) (hvalid : Valid fmt t 0 [c])
    (h : toBinary fmt t [c] = .ok bytes) (hrep : ¬ c.Representable) :
    ¬ RoundTrips fmt lib t [c] bytes := by
  intro hround
  obtain ⟨cells', hfrom, hsame⟩ := exists_fromBinary lib hvalid h
  have heq : cells' = [c] := Except.ok.inj ((hfrom 0).symm.trans (hround 0))
  exact hrep (hsame.1 heq c List.mem_cons_self)

theorem valid_singleton {version : UInt32}
    (hcolumn : t.getColumn (id c) version = .ok (some c.schemaColumn))
    (hset : IsSet fmt c.schemaColumn c) : Valid fmt t version [c] :=
  ⟨List.forall_mem_singleton.2 hcolumn, List.forall_mem_singleton.2 hset,
    List.pairwise_singleton ..⟩

/-- `2 ^ 63` in an unsigned column of 64 bits, and `2 ^ 128` in one of 128 bits. -/
theorem not_roundTrips_uint64_uint128 :
    ¬ RoundTrips plainFloat hexConversions (tableOf [column 97 1 .uint64] (by decide))
        [cellOf 97 1 .uint64 (·.setUinteger (2 ^ 63))] [0, 0, 0, 0, 0, 1, 128, 0, 0, 0, 0, 0, 0, 0] ∧
      ¬ RoundTrips plainFloat hexConversions (tableOf [column 97 1 .uint128] (by decide))
        [cellOf 97 1 .uint128 ({ · with integer := UInt512.ofWords [0, 0, 1] })]
        ([0, 0, 0, 0, 0, 1] ++ List.replicate 16 0) := by
  constructor
  · have hvalue : (9223372036854775808 : UInt64).toNat = 2 ^ 63 := by decide
    have hset : (Cell.new plainFloat (column 97 1 .uint64)).set plainFloat
        (.uint64 9223372036854775808) = .ok (cellOf 97 1 .uint64 (·.setUinteger (2 ^ 63))) := by
      rw [Cell.set, hvalue]
      rfl
    refine not_roundTrips _ (valid_singleton rfl (.set _ .new hset)) rfl ?_
    exact Nat.not_lt.2 (Nat.le_of_eq (Cell.toNat_setUinteger _ (by decide)).symm)
  · refine not_roundTrips _ (valid_singleton rfl (.set (.uint128 (.ofWords [0, 0, 1])) .new rfl))
      rfl ?_
    have hvalue : (UInt512.ofWords [0, 0, 1]).toNat = 2 ^ 128 := by decide
    exact Nat.not_lt.2 (Nat.le_of_eq hvalue.symm)

end Row

end Prinbee
