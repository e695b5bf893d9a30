import Prinbee.Database.PrimaryIndexMap
import Prinbee.Lib.BinarySearch

/-!
# The list of the schemata of a table

A SCHL block holds the versions of the schemata of a table and where each one is, the latest version
first.  `get_schema()` searches by halves, and compares the versions with `memcmp()`: as they are in
the memory of a little endian processor, the low byte comes first.

## Main definitions

* `VersionNumber`, `SchemaEntry`, `SchemaListBlock` — a block with its entries.
* `SchemaListBlock.getSchema` — the function, on the page of the block.
* `SchemaListBlock.LooksUp` — what it has to return.

## Main results

* `SchemaListBlock.searchLoop_eq` — the loop is a binary search.
* `SchemaListBlock.looksUp_iff` — the versions are found when their bytes are in order, too.
-/

namespace Prinbee

open UInt512 (ofBytes toBytes length_toBytes ofBytes_toBytes)

/-- `version_t`. -/
structure VersionNumber where
  major : UInt16
  minor : UInt16
  deriving DecidableEq, Repr, Inhabited

namespace VersionNumber

/-- `version_t()`. -/
def null : VersionNumber := ⟨0, 0⟩

/-- `to_binary()`. -/
def toBinary (v : VersionNumber) : ℕ := v.major.toNat <<< 16 + v.minor.toNat

/-- `to_string()`. -/
def toString (v : VersionNumber) : String :=
  ToString.toString v.major.toNat ++ "." ++ ToString.toString v.minor.toNat

/-- The memory of the binary number. -/
def memory (v : VersionNumber) : Bytes := toBytes 4 v.toBinary

theorem toBinary_lt (v : VersionNumber) : v.toBinary < 256 ^ 4 := by
  have hmajor := v.major.toNat_lt
  have hminor := v.minor.toNat_lt
  rw [toBinary, Nat.shiftLeft_eq]
  omega

theorem toBinary_injective {v w : VersionNumber} (h : v.toBinary = w.toBinary) : v = w := by
  have hv := v.minor.toNat_lt
  have hw := w.minor.toNat_lt
  rw [toBinary, toBinary, Nat.shiftLeft_eq, Nat.shiftLeft_eq] at h
  cases v
  cases w
  simp only [mk.injEq, ← UInt16.toNat_inj]
  dsimp only at h hv hw
  omega

@[simp] theorem length_memory (v : VersionNumber) : v.memory.length = 4 := length_toBytes _ _

theorem memory_injective {v w : VersionNumber} (h : v.memory = w.memory) : v = w := by
  have hnumber := congrArg ofBytes h
  rw [memory, memory, ofBytes_toBytes, ofBytes_toBytes, Nat.mod_eq_of_lt v.toBinary_lt,
    Nat.mod_eq_of_lt w.toBinary_lt] at hnumber
  exact toBinary_injective hnumber

/-- What `memcmp()` compares of a version. -/
def key (v : VersionNumber) : ℕ := keyValue v.memory

theorem key_injective {v w : VersionNumber} (h : v.key = w.key) : v = w :=
  memory_injective (keyValue_inj (by rw [length_memory, length_memory]) h)

theorem memcmp_memory (v w : VersionNumber) :
    memcmp v.memory w.memory = compare v.key w.key :=
  memcmp_eq (by rw [length_memory, length_memory])

end VersionNumber

/-- An entry of the list. -/
structure SchemaEntry where
  version : VersionNumber
  reference : UInt64
  deriving DecidableEq, Repr, Inhabited

/-- `sizeof(std::uint32_t) + sizeof(reference_t)`. -/
def SchemaEntry.size : ℕ := 12

/-- An entry in memory. -/
def SchemaEntry.memory (e : SchemaEntry) : Bytes :=
  e.version.memory ++ toBytes 8 e.reference.toNat

/-- A SCHL block: its version, the entries, and the bytes that follow them. -/
structure SchemaListBlock where
  structureVersion : VersionNumber
  entries : List SchemaEntry
  rest : Bytes
  count_lt : entries.length < 2 ^ 16

namespace SchemaListBlock

/-- `get_static_size()`. -/
def staticSize : ℕ := 10

/-- The page of the block. -/
def page (b : SchemaListBlock) : Bytes :=
  (DbType.schemaList.magic ++ b.structureVersion.memory ++ toBytes 2 b.entries.length) ++
    (b.entries.flatMap SchemaEntry.memory ++ b.rest)

/-! ### The search -/

/-- Bytes of a page that are read by `memcmp()` or `memcpy()`. -/
def readAt (page : Bytes) (offset size : ℕ) : Except Failure Bytes :=
  if offset + size ≤ page.length then .ok (page.slice offset size) else .error .undefinedBehavior

/-- `get_count()`. -/
def getCount (page : Bytes) : ℕ := ofBytes (page.slice 8 2)

/-- A reference that is copied out of the page. -/
def readReference (page : Bytes) (offset : ℕ) : Except Failure UInt64 := do
  let bytes ← readAt page offset 8
  .ok (UInt64.ofNat (ofBytes bytes))

/-- The error of a version that is not in the list. -/
def schemaNotFound (version : VersionNumber) : Failure :=
  .thrown .schemaNotFound
    ("schema with version " ++ version.toString ++ " was not found in this table.")

/-- The loop of `get_schema()`. -/
def searchLoop (page : Bytes) (version : VersionNumber) (i j : ℕ) : Except Failure UInt64 :=
  if i < j then do
    let p := (j - i) / 2 + i
    let ptr := staticSize + p * SchemaEntry.size
    let bytes ← readAt page ptr 4
    match memcmp bytes version.memory with
    | .gt => searchLoop page version (p + 1) j
    | .lt => searchLoop page version i p
    | .eq => readReference page (ptr + 4)
  else .error (schemaNotFound version)
termination_by j - i

/-- `get_schema()`. -/
def getSchema (page : Bytes) (version : VersionNumber) : Except Failure UInt64 :=
  let count := getCount page
  if count < 2 then
    .error (.thrown .logicError
      ("block_schema_list::get_schema() has a count of " ++ toString count
        ++ ", which is too small (expected at least 2)."))
  else if version = .null then readReference page (staticSize + 4)
  else searchLoop page version 0 count

/-- **What the block has to return**: the reference of a version, the first one for the null
version, and an exception for a version that is not there. -/
structure LooksUp (b : SchemaListBlock) : Prop where
  found : ∀ e ∈ b.entries, e.version ≠ .null → getSchema b.page e.version = .ok e.reference
  latest : ∀ e, b.entries.head? = some e → getSchema b.page .null = .ok e.reference
  notFound : ∀ v, v ≠ .null → (∀ e ∈ b.entries, e.version ≠ v) →
    getSchema b.page v = .error (schemaNotFound v)

/-! ### Reading the page -/

theorem readAt_append (a b c : Bytes) :
    readAt (a ++ (b ++ c)) a.length b.length = .ok b := by
  rw [readAt, if_pos (by simp only [List.length_append]; omega), List.slice_append_middle]

theorem length_entry (e : SchemaEntry) : e.memory.length = SchemaEntry.size := by
  rw [SchemaEntry.memory, List.length_append, VersionNumber.length_memory, length_toBytes]
  rfl

section

variable (b : SchemaListBlock)

/-- The entry at an index. -/
def entryAt (p : ℕ) : SchemaEntry := b.entries.getD p default

theorem getElem_entries {p : ℕ} (h : p < b.entries.length) : b.entries[p] = b.entryAt p :=
  (List.getD_eq_getElem _ _ h).symm

theorem entryAt_mem {p : ℕ} (h : p < b.entries.length) : b.entryAt p ∈ b.entries := by
  rw [← b.getElem_entries h]
  exact List.getElem_mem h

theorem exists_entryAt {e : SchemaEntry} (h : e ∈ b.entries) :
    ∃ p < b.entries.length, b.entryAt p = e := by
  obtain ⟨p, hp, heq⟩ := List.getElem_of_mem h
  exact ⟨p, hp, by rw [← b.getElem_entries hp, heq]⟩

/-- What is before an entry, and after it. -/
theorem page_split {p : ℕ} (h : p < b.entries.length) :
    ∃ before after, b.page = before ++ ((b.entryAt p).memory ++ after) ∧
      before.length = staticSize + p * SchemaEntry.size := by
  have hsplit := (List.take_append_drop p b.entries).symm
  rw [List.drop_eq_getElem_cons h, b.getElem_entries h] at hsplit
  refine ⟨DbType.schemaList.magic ++ b.structureVersion.memory ++ toBytes 2 b.entries.length ++
    (b.entries.take p).flatMap SchemaEntry.memory,
    (b.entries.drop (p + 1)).flatMap SchemaEntry.memory ++ b.rest, ?_, ?_⟩
  · have hflatMap := congrArg (List.flatMap SchemaEntry.memory) hsplit
    rw [List.flatMap_append, List.flatMap_cons] at hflatMap
    rw [page, hflatMap]
    simp only [List.append_assoc]
  · have htake : ((b.entries.take p).flatMap SchemaEntry.memory).length = p * SchemaEntry.size := by
      rw [List.length_flatMap, List.map_congr_left fun e _ => length_entry e, List.map_const',
        List.sum_replicate, List.length_take, Nat.min_eq_left h.le]
      rfl
    simp only [List.length_append, htake, VersionNumber.length_memory, length_toBytes]
    rfl

/-- The version of an entry in the page. -/
theorem readAt_version {p : ℕ} (h : p < b.entries.length) :
    readAt b.page (staticSize + p * SchemaEntry.size) 4 = .ok (b.entryAt p).version.memory := by
  obtain ⟨before, after, hpage, hlength⟩ := b.page_split h
  have hread := readAt_append before (b.entryAt p).version.memory
    (toBytes 8 (b.entryAt p).reference.toNat ++ after)
  rwa [hlength, VersionNumber.length_memory, ← List.append_assoc (VersionNumber.memory _),
    ← SchemaEntry.memory, ← hpage] at hread

/-- The reference of an entry in the page. -/
theorem readReference_eq {p : ℕ} (h : p < b.entries.length) :
    readReference b.page (staticSize + p * SchemaEntry.size + 4) =
      .ok (b.entryAt p).reference := by
  obtain ⟨before, after, hpage, hlength⟩ := b.page_split h
  have hread := readAt_append (before ++ (b.entryAt p).version.memory)
    (toBytes 8 (b.entryAt p).reference.toNat) after
  rw [List.length_append, hlength, VersionNumber.length_memory, length_toBytes,
    List.append_assoc before, ← List.append_assoc (VersionNumber.memory _),
    ← SchemaEntry.memory, ← hpage] at hread
  have hlt : (b.entryAt p).reference.toNat < 256 ^ 8 := (b.entryAt p).reference.toNat_lt
  rw [readReference, hread, ok_bind, ofBytes_toBytes, Nat.mod_eq_of_lt hlt, UInt64.ofNat_toNat]

theorem getCount_eq : getCount b.page = b.entries.length := by
  have hlt : b.entries.length < 256 ^ 2 := b.count_lt
  have hlength : (DbType.schemaList.magic ++ b.structureVersion.memory).length = 8 := by
    rw [List.length_append, VersionNumber.length_memory]
    rfl
  have hslice := List.slice_append_middle (DbType.schemaList.magic ++ b.structureVersion.memory)
    (toBytes 2 b.entries.length) (b.entries.flatMap SchemaEntry.memory ++ b.rest)
  rw [hlength, length_toBytes] at hslice
  rw [getCount, page, List.append_assoc (_ ++ _), hslice, ofBytes_toBytes, Nat.mod_eq_of_lt hlt]

/-! ### The search is a binary search -/

/-- What `memcmp()` compares of an entry. -/
def keyAt (p : ℕ) : ℕ := (b.entryAt p).version.key

/-- The loop is a binary search. -/
theorem searchLoop_eq (version : VersionNumber) {i j : ℕ} (hj : j ≤ b.entries.length) :
    searchLoop b.page version i j =
      match BinarySearch.search (fun p => compare (b.keyAt p) version.key) i j with
      | some p => .ok (b.entryAt p).reference
      | none => .error (schemaNotFound version) := by
  have hstep {i j : ℕ} (hlt : i < j) (hj : j ≤ b.entries.length) :
      searchLoop b.page version i j =
        match compare (b.keyAt ((j - i) / 2 + i)) version.key with
        | .gt => searchLoop b.page version ((j - i) / 2 + i + 1) j
        | .lt => searchLoop b.page version i ((j - i) / 2 + i)
        | .eq => .ok (b.entryAt ((j - i) / 2 + i)).reference := by
    have hp : (j - i) / 2 + i < b.entries.length := by omega
    rw [searchLoop, if_pos hlt]
    dsimp only
    rw [b.readAt_version hp, ok_bind, VersionNumber.memcmp_memory, b.readReference_eq hp]
    rfl
  fun_induction BinarySearch.search (fun p => compare (b.keyAt p) version.key) i j with
  | case1 i j hlt p hcmp ih =>
    rw [hstep hlt hj, hcmp]
    exact ih hj
  | case2 i j hlt p hcmp ih =>
    rw [hstep hlt hj, hcmp]
    exact ih (by omega)
  | case3 i j hlt p hcmp => rw [hstep hlt hj, hcmp]
  | case4 i j hlt => rw [searchLoop, if_neg hlt]

/-- `get_schema()` of a version that is not null. -/
theorem getSchema_eq (hcount : 2 ≤ b.entries.length) {version : VersionNumber}
    (h : version ≠ .null) :
    getSchema b.page version = searchLoop b.page version 0 b.entries.length := by
  rw [getSchema, getCount_eq, if_neg (by omega), if_neg h]

theorem getSchema_null (hcount : 2 ≤ b.entries.length) :
    getSchema b.page .null = .ok (b.entryAt 0).reference := by
  have hread := b.readReference_eq (p := 0) (by omega)
  rw [getSchema, getCount_eq, if_neg (by omega), if_pos rfl]
  rwa [Nat.zero_mul, Nat.add_zero] at hread

end

/-! ### When the versions are found -/

section

variable {b : SchemaListBlock}

/-- The versions decrease, as numbers. -/
def Decreasing (b : SchemaListBlock) : Prop :=
  b.entries.Pairwise fun e e' => e'.version.toBinary < e.version.toBinary

/-- The versions decrease in memory. -/
def DecreasingInMemory (b : SchemaListBlock) : Prop :=
  b.entries.Pairwise fun e e' => memcmp e.version.memory e'.version.memory = .gt

theorem decreasing_iff : b.Decreasing ↔ ∀ p q, p < q → q < b.entries.length →
    (b.entryAt q).version.toBinary < (b.entryAt p).version.toBinary := by
  rw [Decreasing, List.pairwise_iff_getElem]
  constructor
  · intro h p q hpq hq
    have hlt := h p q (hpq.trans hq) hq hpq
    rwa [getElem_entries, getElem_entries] at hlt
  · intro h p q hp hq hpq
    rw [getElem_entries, getElem_entries]
    exact h p q hpq hq

theorem decreasingInMemory_iff : b.DecreasingInMemory ↔ ∀ p q, p < q → q < b.entries.length →
    b.keyAt q < b.keyAt p := by
  rw [DecreasingInMemory, List.pairwise_iff_getElem]
  constructor
  · intro h p q hpq hq
    have hlt := h p q (hpq.trans hq) hq hpq
    rwa [getElem_entries, getElem_entries, VersionNumber.memcmp_memory, compare_gt_iff_gt] at hlt
  · intro h p q hp hq hpq
    rw [getElem_entries, getElem_entries, VersionNumber.memcmp_memory, compare_gt_iff_gt]
    exact h p q hpq hq

/-- A version is at one index only. -/
theorem entryAt_injective (h : b.Decreasing) {p q : ℕ} (hp : p < b.entries.length)
    (hq : q < b.entries.length) (heq : (b.entryAt p).version = (b.entryAt q).version) : p = q := by
  rw [decreasing_iff] at h
  rcases Nat.lt_trichotomy p q with hlt | rfl | hlt
  · have := h p q hlt hq
    rw [heq] at this
    exact absurd this (lt_irrefl _)
  · rfl
  · have := h q p hlt hp
    rw [heq] at this
    exact absurd this (lt_irrefl _)

/-- The versions that decrease in memory are found, and no other one. -/
theorem looksUp_of_decreasingInMemory (hcount : 2 ≤ b.entries.length)
    (h : b.DecreasingInMemory) : b.LooksUp := by
  rw [decreasingInMemory_iff] at h
  refine ⟨fun e he hnull => ?_, fun e he => ?_, fun v hnull hv => ?_⟩
  · obtain ⟨m, hm, rfl⟩ := b.exists_entryAt he
    have hsearch : BinarySearch.search (fun p => compare (b.keyAt p) (b.entryAt m).version.key) 0
        b.entries.length = some m := by
      apply BinarySearch.search_of_sorted (Nat.zero_le m) hm
      · exact fun p _ hp => compare_gt_iff_gt.2 (h p m hp hm)
      · exact compare_eq_iff_eq.2 rfl
      · exact fun p hp hlt => compare_lt_iff_lt.2 (h m p hp hlt)
    rw [b.getSchema_eq hcount hnull, b.searchLoop_eq _ le_rfl, hsearch]
  · have hzero : b.entryAt 0 = e := by
      rw [List.head?_eq_getElem?, List.getElem?_eq_getElem (by omega), Option.some_inj,
        getElem_entries] at he
      exact he
    rw [b.getSchema_null hcount, hzero]
  · rw [b.getSchema_eq hcount hnull, b.searchLoop_eq _ le_rfl]
    cases hsearch : BinarySearch.search (fun p => compare (b.keyAt p) v.key) 0 b.entries.length with
    | none => rfl
    | some p =>
      obtain ⟨-, hp, heq⟩ := BinarySearch.search_eq_some hsearch
      have hversion := VersionNumber.key_injective (compare_eq_iff_eq.1 heq)
      exact absurd hversion (hv _ (b.entryAt_mem hp))

/-- Every entry is found by its version; the null version is the last one. -/
theorem LooksUp.search_eq (h : b.LooksUp) (hcount : 2 ≤ b.entries.length) (hdec : b.Decreasing)
    {m : ℕ} (hm : m < b.entries.length) :
    BinarySearch.search (fun p => compare (b.keyAt p) (b.keyAt m)) 0 b.entries.length = some m := by
  by_cases hnull : (b.entryAt m).version = .null
  · apply BinarySearch.search_of_sorted (Nat.zero_le m) hm
    · intro p _ hp
      have hne : b.keyAt p ≠ b.keyAt m := by
        intro heq
        have := b.entryAt_injective hdec (hp.trans hm) hm (VersionNumber.key_injective heq)
        omega
      have hzero : b.keyAt m = 0 := by
        rw [keyAt, hnull]
        decide
      apply compare_gt_iff_gt.2
      omega
    · exact compare_eq_iff_eq.2 rfl
    · intro p hp hlt
      have hless := decreasing_iff.1 hdec m p hp hlt
      rw [hnull] at hless
      exact absurd hless (Nat.not_lt_zero _)
  · have hfound := h.found _ (b.entryAt_mem hm) hnull
    rw [b.getSchema_eq hcount hnull, b.searchLoop_eq _ le_rfl] at hfound
    cases hsearch : BinarySearch.search (fun p => compare (b.keyAt p) (b.keyAt m)) 0
        b.entries.length with
    | none =>
      unfold keyAt at hsearch
      unfold keyAt at hfound
      rw [hsearch] at hfound
      cases hfound
    | some p =>
      obtain ⟨-, hp, heq⟩ := BinarySearch.search_eq_some hsearch
      have hversion := VersionNumber.key_injective (compare_eq_iff_eq.1 heq)
      rw [b.entryAt_injective hdec hp hm hversion]

/-- **The lookups are right if and only if** the versions, which decrease as numbers, decrease as
`memcmp()` compares them, too. -/
theorem looksUp_iff (b : SchemaListBlock) (hcount : 2 ≤ b.entries.length) (h : b.Decreasing) :
    b.LooksUp ↔ b.DecreasingInMemory := by
  constructor
  · intro hlooksUp
    rw [decreasingInMemory_iff]
    intro p q hpq hq
    apply BinarySearch.sorted_of_search _ (Nat.zero_le p) hpq hq
    intro m _ hm
    exact hlooksUp.search_eq hcount h hm
  · exact looksUp_of_decreasingInMemory hcount

end

/-- A list of two versions. -/
def twoVersions (latest previous : VersionNumber) : SchemaListBlock where
  structureVersion := ⟨0, 1⟩
  entries := [⟨latest, 8192⟩, ⟨previous, 4096⟩]
  rest := []
  count_lt := show 2 < 2 ^ 16 by decide

/-- The first versions of a schema. -/
theorem looksUp_iff_first :
    (twoVersions ⟨1, 1⟩ ⟨1, 0⟩).LooksUp ↔ (twoVersions ⟨1, 1⟩ ⟨1, 0⟩).DecreasingInMemory :=
  looksUp_iff _ (by decide) (by
    unfold Decreasing
    decide)

/-- The low byte of the 257th version is null. -/
theorem not_looksUp : (twoVersions ⟨1, 256⟩ ⟨1, 255⟩).Decreasing ∧
    ¬ (twoVersions ⟨1, 256⟩ ⟨1, 255⟩).LooksUp := by
  refine ⟨by unfold Decreasing; decide, fun h => ?_⟩
  have hfound := h.found ⟨⟨1, 256⟩, 8192⟩ (by decide) (by decide)
  have hmiss : getSchema (twoVersions ⟨1, 256⟩ ⟨1, 255⟩).page ⟨1, 256⟩ =
      .error (schemaNotFound ⟨1, 256⟩) := by
    decide +kernel
  rw [hmiss] at hfound
  cases hfound

end SchemaListBlock

end Prinbee
