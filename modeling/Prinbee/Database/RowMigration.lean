import Prinbee.Database.RowRoundTrip

/-!
# Rows of an older schema

A row that was saved under an older version of the schema is read with that version, and its values
are copied to the columns of the current one.  The cell it is copied to is looked for by the
identifier that the column had, with the lookup that asks for version 0, and the loop takes the
padding after the row for one more column.  So the row is migrated where there is no padding, the
columns keep their identifiers and version 0 is the current one.

## Main definitions

* `Row.Migrates` — what reading the row has to give.
* `Row.Carried` — the rows that reach the right columns.

## Main results

* `Row.migrates_iff` — such a row is migrated exactly when there is no padding after it.
-/

namespace Prinbee

namespace Cell

variable {F : Type} {fmt : FloatFormat F} {column : SchemaColumn} {c : Cell F} {type : StructType}

/-! ### Copies between columns of the same type -/

theorem integer_eq_zero {n : ℕ} (h : IntegerOf type n) (hu : storage type ≠ .unsigned)
    (hs : storage type ≠ .signed) : n = 0 := by
  cases type <;> first | exact h | exact absurd rfl hu | exact absurd rfl hs

theorem float_eq_zero {x : F} (h : FloatOf fmt type x) (hf : storage type ≠ .float) :
    x = fmt.zero := by
  cases type <;> first | exact h | exact absurd rfl hf

theorem string_eq_nil {s : Bytes} (h : StringOf type s) (hs : storage type ≠ .string) : s = [] := by
  cases type <;> first | exact h | exact absurd rfl hs

/-- A type that has no place in a cell is not saved. -/
theorem valueToBinary_ne_ok {value : Bytes} (hnone : storage c.schemaColumn.type = .none) :
    c.valueToBinary fmt ≠ .ok value := by
  intro h
  rw [valueToBinary] at h
  cases htype : c.schemaColumn.type <;> rw [htype] at h hnone <;> first
    | exact absurd hnone (by decide)
    | cases h

/-- The cell of a column with the value of another cell. -/
def withValue (column : SchemaColumn) (c : Cell F) : Cell F := { c with schemaColumn := column }

/-- The copy to a new cell of the same type has the whole value. -/
theorem Settled.copyFrom {k : SchemaColumn} {value : Bytes} (lib : Conversions)
    (h : Settled fmt column c) (htype : k.type = column.type)
    (hvalue : c.valueToBinary fmt = .ok value) :
    (Cell.new fmt k).copyFrom fmt lib c = .ok (withValue k c) := by
  have hsame : (Cell.new fmt k).schemaColumn.type = c.schemaColumn.type := by
    rw [h.schemaColumn]
    exact htype
  have hinteger := fun hu hs => UInt512.toNat_inj
    ((integer_eq_zero h.integer hu hs).trans UInt512.toNat_zero.symm)
  have hfloat := fun hf => float_eq_zero h.float hf
  have hstring := fun hs => string_eq_nil h.string hs
  rw [Cell.copyFrom, if_pos hsame, copySame, h.schemaColumn]
  obtain ⟨col, n, x, s⟩ := c
  obtain rfl : col = column := h.schemaColumn
  simp only at hinteger hfloat hstring
  cases hstorage : storage col.type with
  | void =>
    rw [hstorage] at hinteger hfloat hstring
    obtain rfl := hinteger (by decide) (by decide)
    obtain rfl := hfloat (by decide)
    obtain rfl := hstring (by decide)
    rfl
  | unsigned | signed =>
    rw [hstorage] at hfloat hstring
    obtain rfl := hfloat (by decide)
    obtain rfl := hstring (by decide)
    rfl
  | float =>
    rw [hstorage] at hinteger hstring
    obtain rfl := hinteger (by decide) (by decide)
    obtain rfl := hstring (by decide)
    rfl
  | string =>
    rw [hstorage] at hinteger hfloat
    obtain rfl := hinteger (by decide) (by decide)
    obtain rfl := hfloat (by decide)
    rfl
  | none => exact absurd hvalue (valueToBinary_ne_ok hstorage)

end Cell

namespace Row

open Cell (IsSet Rereads Representable withValue)

variable {F : Type} {fmt : FloatFormat F} {lib : Conversions} {t : Table} {old : SchemaTable}
  {cells cells' : Cells F} {c : Cell F} {bytes : Bytes} {k : SchemaColumn}

/-! ### The migration of a row -/

/-- The column of the current schema that has the name of the column of a cell. -/
def currentColumn (t : Table) (c : Cell F) : Option SchemaColumn :=
  t.schemaTable.getColumnByName c.schemaColumn.name

/-- What the cells of an older schema have to give: the same value in the column of the same name
and type, and no cell of any other column. -/
structure Migrated (t : Table) (cells result : Cells F) : Prop where
  kept : ∀ c ∈ cells, ∀ k, currentColumn t c = some k → k.type = c.schemaColumn.type →
    withValue k c ∈ result
  only : ∀ d ∈ result, ∃ c ∈ cells, currentColumn t c = some d.schemaColumn

/-- The row is migrated when it is read from its bytes, with `n` zeroes after them. -/
def Migrates (fmt : FloatFormat F) (lib : Conversions) (t : Table) (cells : Cells F) (bytes : Bytes)
    (n : ℕ) : Prop :=
  ∃ result, fromBinary fmt lib t (bytes ++ List.replicate n 0) = .ok result ∧
    Migrated t cells result

/-- The lookups without a version find the current schema, the columns that are still there have the
same identifier, and their values are representable, in a form that converts where the type
changed. -/
structure Carried (fmt : FloatFormat F) (lib : Conversions) (t : Table) (cells : Cells F) : Prop where
  current : t.schemaTableByVersion 0 = some t.schemaTable
  sameId : ∀ c ∈ cells, ∀ k, currentColumn t c = some k → t.schemaTable.getColumn (id c) = some k
  representable : ∀ c ∈ cells, ∀ k, currentColumn t c = some k → c.Representable
  converts : ∀ c ∈ cells, ∀ k, currentColumn t c = some k → k.type ≠ c.schemaColumn.type →
    ∃ d, (Cell.new fmt k).copyFrom fmt lib c = .ok d

theorem columnId_of_getColumn {s : SchemaTable} {columnId : UInt16}
    (h : s.getColumn columnId = some k) : k.columnId = columnId := by
  have hfound := List.find?_some h
  simpa using hfound

/-- A copy stays in its column. -/
theorem schemaColumn_copyFrom {d e : Cell F} (h : d.copyFrom fmt lib c = .ok e) :
    e.schemaColumn = d.schemaColumn := by
  rw [Cell.copyFrom] at h
  split at h
  · rw [Cell.copySame] at h
    split at h <;> first | (cases h; rfl) | cases h
  · obtain ⟨value, -, h⟩ := bind_eq_ok.1 h
    have hfloat : ∀ {size : ℕ} {read : ℕ → F}, d.setFloat lib value size read = .ok e →
        e.schemaColumn = d.schemaColumn := fun hset => by
      rw [Cell.setFloat] at hset
      obtain ⟨buf, -, hset⟩ := bind_eq_ok.1 hset
      split at hset
      · cases hset
        rfl
      · cases hset
    split at h
    · cases h
      rfl
    · obtain ⟨buf, -, h⟩ := bind_eq_ok.1 h
      cases h
      rfl
    · obtain ⟨buf, -, h⟩ := bind_eq_ok.1 h
      cases h
      rfl
    · split at h
      · exact hfloat h
      · split at h
        · exact hfloat h
        · exact hfloat h
    · cases h
      rfl
    · cases h

/-- The cell that the value of a column which is still there is copied to. -/
theorem Carried.copyFrom (h : Carried fmt lib t cells) (hc : c ∈ cells)
    (hset : IsSet fmt c.schemaColumn c) {value : Bytes} (hvalue : c.valueToBinary fmt = .ok value)
    (hk : currentColumn t c = some k) :
    ∃ d, (Cell.new fmt k).copyFrom fmt lib c = .ok d ∧ d.schemaColumn = k ∧
      (k.type = c.schemaColumn.type → d = withValue k c) := by
  by_cases htype : k.type = c.schemaColumn.type
  · exact ⟨_, hset.settled.copyFrom lib htype hvalue, rfl, fun _ => rfl⟩
  · obtain ⟨d, hd⟩ := h.converts c hc k hk htype
    exact ⟨d, hd, schemaColumn_copyFrom hd, fun hsame => absurd hsame htype⟩

/-- The cells of a row, one after the other: each one that is still there is copied to a new cell of
its column. -/
theorem Reread.fromVersion (h : Reread fmt cells bytes cells') (hcarried : Carried fmt lib t cells)
    {version : UInt32} (hvalid : Valid fmt t version cells) :
    ∃ result, (∀ (fuel : ℕ) (done : Cells F) (rest : Bytes), (∀ d ∈ done, ∀ c ∈ cells, id d < id c) →
        fromVersion fmt lib t version (cells.length + fuel) done (bytes ++ rest) =
          fromVersion fmt lib t version fuel (done ++ result) rest) ∧
      Migrated t cells result := by
  induction h with
  | nil =>
    refine ⟨[], fun fuel done rest _ => ?_, ⟨fun c hc => absurd hc List.not_mem_nil,
      fun d hd => absurd hd List.not_mem_nil⟩⟩
    rw [List.length_nil, Nat.zero_add, List.nil_append, List.append_nil]
  | @cons c c' cells cells' value bytes hvalue hread hsame h ih =>
    obtain ⟨hfirst, hrest⟩ := List.pairwise_cons.1 hvalid.sorted
    have hmem : c ∈ c :: cells := List.mem_cons_self
    have hin : ∀ {d : Cell F}, d ∈ cells → d ∈ c :: cells := fun hd => List.mem_cons_of_mem c hd
    obtain ⟨result, hrun, hmig⟩ := ih
      ⟨hcarried.current, fun d hd => hcarried.sameId d (hin hd),
        fun d hd => hcarried.representable d (hin hd), fun d hd => hcarried.converts d (hin hd)⟩
      ⟨fun d hd => hvalid.column d (hin hd), fun d hd => hvalid.isSet d (hin hd), hrest⟩
    -- one turn of the loop, up to the column of the current schema
    have hstep : ∀ (fuel : ℕ) (done : Cells F) (rest : Bytes),
        Row.fromVersion fmt lib t version (cells.length + 1 + fuel) done
          (pushBe 2 (id c).toNat ++ value ++ bytes ++ rest) =
        if (currentColumn t c).isSome then do
          let cell ← getCell fmt t done (id c)
          let cell ← cell.copyFrom fmt lib c'
          Row.fromVersion fmt lib t version (cells.length + fuel) (put cell done) (bytes ++ rest)
        else Row.fromVersion fmt lib t version (cells.length + fuel) done (bytes ++ rest) := by
      intro fuel done rest
      have hne : pushBe 2 (id c).toNat ++ (value ++ (bytes ++ rest)) ≠ [] := fun hnil => by
        have := congrArg List.length hnil
        rw [List.length_append, length_pushBe, List.length_nil] at this
        omega
      have hname : t.getColumnByName c.schemaColumn.name 0 = .ok (currentColumn t c) := by
        rw [Table.getColumnByName, Table.getSchema, hcarried.current, ok_bind, currentColumn]
      rw [show cells.length + 1 + fuel = cells.length + fuel + 1 by omega, Row.fromVersion,
        List.append_assoc, List.append_assoc, if_pos hne, readBe_id, ok_bind]
      simp only
      rw [UInt16.ofNat_toNat, hvalid.column c hmem, ok_bind]
      simp only
      rw [hread.read, ok_bind]
      simp only
      generalize t.getColumnByName c.schemaColumn.name 0 = found at hname
      subst hname
      cases currentColumn t c <;> rfl
    cases hk : currentColumn t c with
    | none =>
      refine ⟨result, fun fuel done rest hdone => ?_, ⟨fun d hd k hkd htype => ?_, fun d hd => ?_⟩⟩
      · rw [List.length_cons, hstep, hk, Option.isSome_none, if_neg Bool.false_ne_true]
        exact hrun fuel done rest fun d hd x hx => hdone d hd x (hin hx)
      · rcases List.mem_cons.1 hd with rfl | hd
        · rw [hk] at hkd
          cases hkd
        · exact hmig.kept d hd k hkd htype
      · obtain ⟨x, hx, hcur⟩ := hmig.only d hd
        exact ⟨x, hin hx, hcur⟩
    | some k =>
      obtain rfl : c' = c := hsame.2 (hcarried.representable c hmem k hk)
      obtain ⟨d, hcopy, hcol, hwith⟩ := hcarried.copyFrom hmem (hvalid.isSet c' hmem) hvalue hk
      have hcolumn := hcarried.sameId c' hmem k hk
      have hid : id d = id c' := by
        rw [id, hcol, columnId_of_getColumn hcolumn]
      refine ⟨d :: result, fun fuel done rest hdone => ?_, ⟨fun x hx k' hk' htype => ?_,
        fun x hx => ?_⟩⟩
      · have hlt : ∀ x ∈ done, id x < id d := fun x hx => hid ▸ hdone x hx c' hmem
        have hget : t.getColumn (id d) 0 = .ok (some d.schemaColumn) := by
          rw [Table.getColumn, Table.getSchema, hcarried.current, ok_bind, hid, hcolumn, hcol]
        have hcell : getCell fmt t done (id c') = .ok (.new fmt k) := by
          rw [← hid, getCell_new hlt hget, hcol]
        rw [List.length_cons, hstep, hk, Option.isSome_some, if_pos rfl, hcell, ok_bind, hcopy,
          ok_bind, put_append hlt, hrun fuel (done ++ [d]) rest (fun x hx y hy => ?_),
          List.append_assoc, List.singleton_append]
        rcases List.mem_append.1 hx with hx | hx
        · exact hdone x hx y (hin hy)
        · rw [List.mem_singleton.1 hx, hid]
          exact hfirst y hy
      · rcases List.mem_cons.1 hx with rfl | hx
        · obtain rfl : k = k' := Option.some.inj (hk.symm.trans hk')
          exact List.mem_cons.2 (.inl (hwith htype).symm)
        · exact List.mem_cons_of_mem d (hmig.kept x hx k' hk' htype)
      · rcases List.mem_cons.1 hx with rfl | hx
        · exact ⟨c', hmem, by rw [hk, hcol]⟩
        · obtain ⟨y, hy, hcur⟩ := hmig.only x hx
          exact ⟨y, hin hy, hcur⟩

/-- The padding is taken for a column that the older schema does not have, or for half of an
identifier. -/
theorem fromVersion_padding {version : UInt32} {fuel : ℕ} {done result : Cells F} {n : ℕ}
    (hold : t.schemaTableByVersion version = some old) (hn : n ≠ 0) :
    fromVersion fmt lib t version fuel done (List.replicate n 0) ≠ .ok result := by
  intro h
  cases fuel with
  | zero => cases h
  | succ fuel =>
    have hne : List.replicate n (0 : UInt8) ≠ [] := by simpa using hn
    rw [fromVersion, if_pos hne] at h
    obtain ⟨⟨columnId, rest⟩, hread, h⟩ := bind_eq_ok.1 h
    rw [readBe] at hread
    split at hread
    · cases hread
      have hzero : old.getColumn 0 = none := by
        refine List.find?_eq_none.2 fun k hk => ?_
        simpa using old.id_ne_zero k (List.mem_reverse.1 hk)
      rw [List.take_replicate, List.reverse_replicate, UInt512.ofBytes_replicate_zero] at h
      simp only at h
      rw [Table.getColumn, Table.getSchema, hold, ok_bind, show UInt16.ofNat 0 = 0 from rfl,
        hzero] at h
      cases h
    · cases hread

/-- **A row of an older schema that reaches the right columns is migrated** exactly when there is no
padding after it. -/
theorem migrates_iff (old : SchemaTable)
    (hold : t.schemaTableByVersion old.schemaVersion = some old)
    (hversion : old.schemaVersion ≠ t.getSchemaVersion)
    (hvalid : Valid fmt t old.schemaVersion cells)
    (h : toBinary fmt { t with schemaTable := old } cells = .ok bytes)
    (hcarried : Carried fmt lib t cells) (n : ℕ) : Migrates fmt lib t cells bytes n ↔ n = 0 := by
  rw [toBinary] at h
  obtain ⟨values, hvalues, h⟩ := bind_eq_ok.1 h
  simp only at h
  split at h
  · cases h
  cases h
  obtain ⟨cells', hread⟩ := reread hvalid.isSet hvalues
  obtain ⟨result, hrun, hmig⟩ := hread.fromVersion hcarried hvalid
  have hlen := hread.length_le
  have hbe : old.schemaVersion.toNat % 256 ^ 4 = old.schemaVersion.toNat :=
    Nat.mod_eq_of_lt (UInt32.toNat_lt _)
  -- the fuel that is left after the cells
  obtain ⟨fuel, hfuel⟩ : ∃ fuel, (pushBe 4 old.schemaVersion.toNat ++
      (values ++ List.replicate n 0)).length + 1 = cells.length + (fuel + 1) :=
    ⟨(pushBe 4 old.schemaVersion.toNat ++ (values ++ List.replicate n 0)).length - cells.length, by
      rw [List.length_append, List.length_append]
      omega⟩
  have hfrom : fromBinary fmt lib t (pushBe 4 old.schemaVersion.toNat ++ values ++
      List.replicate n 0) =
      fromVersion fmt lib t old.schemaVersion (fuel + 1) result (List.replicate n 0) := by
    rw [fromBinary, List.append_assoc, readBe_pushBe, ok_bind, hbe]
    simp only [UInt32.ofNat_toNat]
    rw [if_pos hversion, hfuel, hrun (fuel + 1) [] _ (fun d hd => absurd hd List.not_mem_nil),
      List.nil_append]
  rw [Migrates]
  constructor
  · rintro ⟨result', hok, -⟩
    by_contra hn
    exact fromVersion_padding hold hn (hfrom.symm.trans hok)
  · rintro rfl
    refine ⟨result, hfrom.trans ?_, hmig⟩
    rw [fromVersion, List.replicate_zero, if_neg (by simp)]

/-- A table with an older schema, of version 1, and a current one, which version 0 leads to. -/
def tableOfVersions (before after : List SchemaColumn) (hbefore : ∀ c ∈ before, c.columnId ≠ 0)
    (hafter : ∀ c ∈ after, c.columnId ≠ 0) : Table where
  name := [116]
  schemaTable := ⟨2, after, hafter⟩
  schemaTableByVersion version :=
    if version = 1 then some ⟨1, before, hbefore⟩
    else if version = 0 ∨ version = 2 then some ⟨2, after, hafter⟩
    else none

/-- A column that stays and one that is dropped. -/
theorem migrates_dropped :
    Migrates plainFloat hexConversions
      (tableOfVersions [column 97 1 .uint8, column 98 2 .uint8] [column 97 1 .uint8]
        (by decide) (by decide))
      [cellOf 97 1 .uint8 (·.setUinteger 7), cellOf 98 2 .uint8 (·.setUinteger 9)]
      [0, 0, 0, 1, 0, 1, 7, 0, 2, 9] 0 :=
  (migrates_iff ⟨1, [column 97 1 .uint8, column 98 2 .uint8], by decide⟩ rfl (by decide)
    ⟨by simp only [List.forall_mem_cons]; exact ⟨rfl, rfl, by simp⟩,
      by
        simp only [List.forall_mem_cons]
        exact ⟨.set (.uint8 7) .new rfl, .set (.uint8 9) .new rfl, by simp⟩,
      by simp only [List.pairwise_cons]; exact ⟨by decide, by decide, .nil⟩⟩
    rfl
    ⟨rfl,
      by
        simp only [List.forall_mem_cons]
        exact ⟨fun k hk => hk, (fun k hk => nomatch hk), by simp⟩,
      by
        simp only [List.forall_mem_cons]
        exact ⟨fun _ _ => trivial, fun _ _ => trivial, by simp⟩,
      by
        simp only [List.forall_mem_cons]
        refine ⟨fun k hk hne => absurd ?_ hne, (fun k hk => nomatch hk), by simp⟩
        cases hk
        rfl⟩ 0).2 rfl

/-- One zero after a row whose schema did not change, and a column whose identifier did. -/
theorem not_migrates_padding_id :
    ¬ Migrates plainFloat hexConversions
        (tableOfVersions [column 97 1 .uint8] [column 97 1 .uint8] (by decide) (by decide))
        [cellOf 97 1 .uint8 (·.setUinteger 7)] [0, 0, 0, 1, 0, 1, 7] 1 ∧
      ¬ Migrates plainFloat hexConversions
        (tableOfVersions [column 97 1 .uint8] [column 98 1 .uint8, column 97 2 .uint8]
          (by decide) (by decide))
        [cellOf 97 1 .uint8 (·.setUinteger 7)] [0, 0, 0, 1, 0, 1, 7] 0 := by
  constructor
  · rintro ⟨result, hok, -⟩
    cases hok
  · rintro ⟨result, hok, hmig⟩
    have hresult : result = [cellOf 98 1 .uint8 (·.setUinteger 7)] := (Except.ok.inj hok).symm
    have hkept := hmig.kept _ List.mem_cons_self (column 97 2 .uint8) rfl rfl
    rw [hresult, List.mem_singleton] at hkept
    exact absurd (congrArg Cell.schemaColumn hkept) (by decide)

end Row

end Prinbee
