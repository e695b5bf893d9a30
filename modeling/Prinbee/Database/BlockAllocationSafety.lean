import Prinbee.Database.BlockAllocation
import Prinbee.Lib.LinkedList
import Mathlib.Data.List.Range
import Mathlib.Data.List.Perm.Basic

/-!
# No page of a table file is handed out twice, and none is lost

The header, the live blocks and the free list of a table file are, each one once, the pages of the
file.  This holds after any run of allocations and releases when the file is sparse and the version
of a structure can be set.  A file that is not sparse is written in blocks of four bytes more than a
page, and the list of its free blocks leads nowhere.

## Main definitions

* `TableBlocks.Safe` — the pages of the file are the header, the live blocks and the free list.
* `TableBlocks.RunSafe` — a run that is safe after each call.
* `TableBlocks.Inv` — the invariant of a run.

## Main results

* `TableBlocks.Inv.allocateNewBlock`, `TableBlocks.Inv.freeBlock` — the calls keep the invariant.
* `TableBlocks.allocationSafe_iff` — when all the runs are safe.
-/

namespace Prinbee

open UInt512 (ofBytes toBytes)
open LinkedList

/-- An input or output that failed. -/
def Failure.isIoError : Failure → Bool
  | .thrown .ioError _ => true
  | _ => false

namespace TableBlocks

variable {calls : BlockCalls} {t t' t'' : TableBlocks} {live : List ℕ}

/-! ### Safety -/

/-- The offsets of the pages of a file. -/
def pages (t : TableBlocks) : List ℕ := (List.range (t.size / t.pageSize)).map (· * t.pageSize)

/-- The free list starts in the header and ends; with the header and the live blocks it has each
page of the file once. -/
def Safe (t : TableBlocks) (live : List ℕ) : Prop :=
  t.pageSize ∣ t.size ∧ ∃ free, Chain t.reference freeBlockField (t.reference freeBlockField) free ∧
    (0 :: (live ++ free)).Perm t.pages

/-- A call on the table. -/
inductive Call
  | allocateNewBlock (type : DbType)
  | freeBlock (offset : ℕ) (clearBlock : Bool)

/-- A type for which `allocate_block()` has a block. -/
def Call.Known : Call → Prop
  | .allocateNewBlock type => type.staticSize ≠ none
  | .freeBlock _ _ => True

/-- A run of calls, with releases of live blocks, that is safe after each call as long as there is
no error of input or output. -/
def RunSafe (calls : BlockCalls) : TableBlocks → List ℕ → List Call → Prop
  | t, live, [] => Safe t live
  | t, live, .allocateNewBlock type :: run => Safe t live ∧
    match t.allocateNewBlock calls type with
    | .ok (t', offset) =>
      (t.pageSize ∣ offset ∧ offset + t.pageSize ≤ t'.size ∧ offset ∉ 0 :: live) ∧
        RunSafe calls t' (offset :: live) run
    | .error (e, t') => e.isIoError = false → RunSafe calls t' live run
  | t, live, .freeBlock offset clearBlock :: run => Safe t live ∧ (offset ∈ live →
    match t.freeBlock calls offset clearBlock with
    | .ok t' => RunSafe calls t' (live.erase offset) run
    | .error (e, t') => e.isIoError = false → RunSafe calls t' live run)

/-- All the runs from a new file are safe. -/
def AllocationSafe (calls : BlockCalls) (filename : String) (pageSize : ℕ) (sparse : Bool) : Prop :=
  ∀ run : List Call, (∀ c ∈ run, c.Known) →
    match create calls filename pageSize sparse with
    | .ok t => RunSafe calls t [] run
    | .error (e, t) => e.isIoError = false → RunSafe calls t [] run

/-! ### Bytes of a page -/

/-- Only the page at `a` changes. -/
structure KeepsOutside (a : ℕ) (t t' : TableBlocks) : Prop where
  pageSize : t'.pageSize = t.pageSize
  sparse : t'.sparse = t.sparse
  size : t'.size = t.size
  slice : ∀ x n, x + n ≤ a ∨ a + t.pageSize ≤ x → t'.bytes.slice x n = t.bytes.slice x n

theorem KeepsOutside.refl (a : ℕ) (t : TableBlocks) (bl : List ℕ) :
    KeepsOutside a t { t with blocks := bl } := ⟨rfl, rfl, rfl, fun _ _ _ => rfl⟩

theorem KeepsOutside.trans {a : ℕ} (h : KeepsOutside a t t') (h' : KeepsOutside a t' t'') :
    KeepsOutside a t t'' :=
  ⟨h'.pageSize.trans h.pageSize, h'.sparse.trans h.sparse, h'.size.trans h.size,
    fun x n hx => (h'.slice x n (by rw [h.pageSize]; exact hx)).trans (h.slice x n hx)⟩

theorem keepsOutside_write {a x : ℕ} {bs : Bytes} (hlo : a ≤ x)
    (hhi : x + bs.length ≤ a + t.pageSize) (hend : a + t.pageSize ≤ t.size) :
    KeepsOutside a t (t.write x bs) := by
  have hle : x + bs.length ≤ t.bytes.length := hhi.trans hend
  refine ⟨rfl, rfl, List.length_overwrite_of_le hle, fun y n hy => ?_⟩
  exact List.slice_overwrite_of_disjoint hle (by omega)

/-! ### The calls on blocks -/

theorem DbType_ofMagic (type : DbType) : DbType.ofMagic type.magic = some type := by
  cases type <;> rfl

theorem length_magic (type : DbType) : type.magic.length = 4 := by
  cases type <;> rfl

theorem magic_ne_freeBlock {type : DbType} (h : type ≠ .freeBlock) :
    DbType.freeBlock.magic ≠ type.magic := fun he =>
  h (Option.some.inj ((DbType_ofMagic type).symm.trans (he ▸ DbType_ofMagic .freeBlock)))

theorem staticSize_le {type : DbType} {s : ℕ} (h : type.staticSize = some s) :
    8 ≤ s ∧ s ≤ 140 := by
  cases type <;> simp only [DbType.staticSize, Option.some.injEq, reduceCtorEq] at h <;> omega

@[simp] theorem call_ok (t : TableBlocks) : t.call (.ok ()) = .ok () := rfl

/-- A block that has a type is loaded as it is. -/
theorem getBlock_eq (hcall : calls.getBlock = .ok ()) {offset : ℕ} {type : DbType}
    (hin : offset < t.size) (hmagic : t.magicAt offset = type.magic)
    (hsize : type.staticSize ≠ none) :
    ∃ bl, t.getBlock calls offset = .ok { t with blocks := bl } := by
  obtain ⟨s, hs⟩ := Option.ne_none_iff_exists'.1 hsize
  rw [getBlock, if_neg (fun h => Nat.not_le.2 hin h.2), hcall, call_ok, ok_bind, hmagic,
    DbType_ofMagic]
  simp only
  rw [allocateBlock]
  by_cases hmem : offset ∈ t.blocks
  · rw [if_pos ⟨hmem, hmagic⟩]
    exact ⟨t.blocks, rfl⟩
  · rw [if_neg (fun h => hmem h.1), if_neg (fun h => hmem h.1), hs]
    simp only
    rw [show magicAt { t with blocks := t.blocks.erase offset } offset = type.magic from hmagic,
      if_pos rfl]
    exact ⟨_, rfl⟩

section Page

variable {a : ℕ} (hend : a + t.pageSize ≤ t.size) (hps : 140 ≤ t.pageSize)

include hend hps

/-- A free block becomes a block of another type. -/
theorem makeBlock_eq (hversion : calls.setStructureVersion = .ok ()) {type : DbType}
    (htype : type ≠ .freeBlock) (hsize : type.staticSize ≠ none)
    (hmagic : t.magicAt a = DbType.freeBlock.magic) :
    ∃ t', t.makeBlock calls type a = .ok (t', a) ∧ KeepsOutside a t t' ∧
      t'.magicAt a = type.magic := by
  obtain ⟨s, hs⟩ := Option.ne_none_iff_exists'.1 hsize
  obtain ⟨hs8, hs140⟩ := staticSize_le hs
  have hne : t.magicAt a ≠ type.magic := by rw [hmagic]; exact magic_ne_freeBlock htype
  set t₁ : TableBlocks := { t with blocks := t.blocks.erase a } with ht₁
  set t₂ : TableBlocks := { t₁.write a (type.magic ++ List.replicate (s - 4) 0) with
    blocks := a :: t.blocks.erase a } with ht₂
  set t₃ := t₂.write (a + 4) (toBytes 4 0) with ht₃
  have hblock : t.allocateBlock type a = .ok t₂ := by
    rw [allocateBlock, if_neg (fun h => hne h.2), if_neg (fun h => h.2.2 hmagic), hs]
    simp only
    rw [if_neg (show t₁.magicAt a ≠ type.magic from hne)]
    rfl
  have hlen : (type.magic ++ List.replicate (s - 4) (0 : UInt8)).length = s := by
    rw [List.length_append, length_magic, List.length_replicate]
    omega
  have h₂ : KeepsOutside a t t₂ :=
    (keepsOutside_write (t := t) (Nat.le_refl a) (by rw [hlen]; omega) hend).trans
      (KeepsOutside.refl a _ (a :: t.blocks.erase a))
  have hend₂ : a + t₂.pageSize ≤ t₂.size := by rw [h₂.pageSize, h₂.size]; exact hend
  have h₃ : KeepsOutside a t₂ t₃ :=
    keepsOutside_write (Nat.le_add_right a 4)
      (by rw [UInt512.length_toBytes, h₂.pageSize]; omega) hend₂
  have hend₃ : a + t₃.pageSize ≤ t₃.size := by rw [h₃.pageSize, h₃.size]; exact hend₂
  have h₄ : KeepsOutside a t₃ (t₃.clearBlock type a) := by
    refine keepsOutside_write (Nat.le_add_right ..) ?_ hend₃
    have hmod := Nat.mod_le (t₃.pageSize - type.staticSize.getD 0) (2 ^ 32)
    rw [List.length_replicate]
    rw [hs, Option.getD_some] at hmod ⊢
    rw [h₃.pageSize, h₂.pageSize] at hmod ⊢
    omega
  refine ⟨t₃.clearBlock type a, ?_, h₂.trans (h₃.trans h₄), ?_⟩
  · rw [makeBlock, hblock, ok_bind, hversion, call_ok, ok_bind]
  · -- the version and what follows it come after the magic word
    have hle : a + s ≤ t.bytes.length := by rw [size] at hend; omega
    have hsize₃ : t₃.bytes.length = t.bytes.length := h₃.size.trans h₂.size
    have hclear : (t₃.clearBlock type a).bytes.slice a 4 = t₃.bytes.slice a 4 := by
      refine List.slice_overwrite_of_disjoint ?_ (.inl ?_)
      · have hmod := Nat.mod_le (t₃.pageSize - type.staticSize.getD 0) (2 ^ 32)
        rw [size] at hend₃
        rw [List.length_replicate]
        rw [hs, Option.getD_some] at hmod ⊢
        rw [h₃.pageSize, h₂.pageSize] at hmod ⊢
        rw [h₃.pageSize, h₂.pageSize] at hend₃
        omega
      · rw [hs, Option.getD_some]
        omega
    have hwrite : t₃.bytes.slice a 4 = t₂.bytes.slice a 4 := by
      refine List.slice_overwrite_of_disjoint ?_ (.inl (Nat.le_refl _))
      rw [UInt512.length_toBytes, show t₂.bytes.length = t.bytes.length from h₂.size]
      omega
    rw [magicAt, hclear, hwrite]
    refine (List.slice_overwrite_start (show a ≤ t.bytes.length by omega)
      (by rw [hlen]; omega)).trans ?_
    rw [List.take_append_of_le_length (by rw [length_magic]),
      List.take_of_length_le (by rw [length_magic])]

/-- A block becomes a free block. -/
theorem allocateBlock_freeBlock :
    ∃ t', t.allocateBlock .freeBlock a = .ok t' ∧ KeepsOutside a t t' ∧
      t'.magicAt a = DbType.freeBlock.magic := by
  rw [allocateBlock]
  by_cases hloaded : a ∈ t.blocks ∧ t.magicAt a = DbType.freeBlock.magic
  · rw [if_pos hloaded]
    exact ⟨t, rfl, KeepsOutside.refl a t t.blocks, hloaded.2⟩
  rw [if_neg hloaded, if_neg (fun h => h.2.1 rfl)]
  set t₁ : TableBlocks := { t with blocks := t.blocks.erase a } with ht₁
  simp only [DbType.staticSize]
  have hle : a ≤ t.bytes.length := by rw [size] at hend; omega
  by_cases hmagic : t₁.magicAt a = DbType.freeBlock.magic
  · rw [if_pos hmagic]
    exact ⟨_, rfl, KeepsOutside.refl a t _, hmagic⟩
  · rw [if_neg hmagic]
    refine ⟨_, rfl, ?_, List.slice_overwrite_start hle (by decide)⟩
    exact (keepsOutside_write (t := t) (Nat.le_refl a) (by
      have : (DbType.freeBlock.magic ++ List.replicate (16 - 4) (0 : UInt8)).length = 16 := rfl
      omega) hend).trans (KeepsOutside.refl a _ _)

end Page

/-! ### Free pages -/

/-- What `append_free_block()` adds to a file. -/
def freePage (sparse : Bool) (pageSize next : ℕ) : Bytes :=
  let written := DbType.freeBlock.magic ++ toBytes 4 1 ++ toBytes 8 next
  if sparse then (written ++ List.replicate pageSize 0).take pageSize
  else written ++ List.replicate (pageSize - 4 - 8) 0

/-- How many bytes that is. -/
def pageLength (t : TableBlocks) : ℕ := if t.sparse then t.pageSize else t.pageSize + 4

theorem length_freePage (hps : 16 ≤ t.pageSize) (next : ℕ) :
    (freePage t.sparse t.pageSize next).length = t.pageLength := by
  have hlen : (DbType.freeBlock.magic ++ toBytes 4 1 ++ toBytes 8 next).length = 16 := by
    rw [List.length_append, UInt512.length_toBytes]
    rfl
  rw [freePage, pageLength]
  cases t.sparse with
  | true =>
    rw [if_pos rfl, if_pos rfl, List.length_take, List.length_append, List.length_replicate]
    omega
  | false =>
    rw [if_neg Bool.false_ne_true, if_neg Bool.false_ne_true, List.length_append, hlen,
      List.length_replicate]
    omega

theorem freePage_magic {pageSize : ℕ} (h : 16 ≤ pageSize) (next : ℕ) :
    (freePage true pageSize next).slice 0 4 = DbType.freeBlock.magic := by
  rw [freePage, if_pos rfl, List.slice, List.drop_zero, List.take_take, Nat.min_eq_left (by omega)]
  rfl

theorem freePage_next {pageSize : ℕ} (h : 16 ≤ pageSize) (next : ℕ) :
    (freePage true pageSize next).slice freeBlockField 8 = toBytes 8 next := by
  have hlen : (DbType.freeBlock.magic ++ toBytes 4 1).length = 8 := rfl
  rw [freePage, if_pos rfl, List.slice, List.drop_take, List.take_take, Nat.min_eq_left (by
    rw [freeBlockField]; omega), freeBlockField, List.append_assoc, List.drop_append_of_le_length
    (Nat.le_of_eq hlen.symm), List.drop_of_length_le (Nat.le_of_eq hlen), List.nil_append,
    List.take_append_of_le_length (by rw [UInt512.length_toBytes]), List.take_of_length_le
    (by rw [UInt512.length_toBytes])]

/-- A file with pages at its end. -/
def extend (t : TableBlocks) (nexts : List ℕ) : TableBlocks :=
  { t with bytes := t.bytes ++ (nexts.map (freePage t.sparse t.pageSize)).flatten }

theorem extend_extend (t : TableBlocks) (l l' : List ℕ) :
    (t.extend l).extend l' = t.extend (l ++ l') := by
  rw [extend, extend, extend, List.map_append, List.flatten_append, List.append_assoc]

/-- What was in the file stays. -/
theorem slice_extend {x n : ℕ} (h : x + n ≤ t.size) (l : List ℕ) :
    (t.extend l).bytes.slice x n = t.bytes.slice x n :=
  List.slice_append_left _ h

section Extend

variable (hps : 16 ≤ t.pageSize)

include hps

theorem size_extend (l : List ℕ) : (t.extend l).size = t.size + l.length * t.pageLength := by
  have hpages : ∀ page ∈ l.map (freePage t.sparse t.pageSize), page.length = t.pageLength := by
    intro page hpage
    obtain ⟨next, -, rfl⟩ := List.mem_map.1 hpage
    exact length_freePage hps next
  rw [size, extend, List.length_append, List.length_flatten_of_length hpages, List.length_map, size]

/-- The pages that were added. -/
theorem slice_extend_page {l : List ℕ} {i o n : ℕ} (hi : i < l.length)
    (ho : o + n ≤ t.pageLength) :
    (t.extend l).bytes.slice (t.size + i * t.pageLength + o) n =
      (freePage t.sparse t.pageSize l[i]).slice o n := by
  have hpages : ∀ page ∈ l.map (freePage t.sparse t.pageSize), page.length = t.pageLength := by
    intro page hpage
    obtain ⟨next, -, rfl⟩ := List.mem_map.1 hpage
    exact length_freePage hps next
  have hslice := List.slice_flatten hpages (by rw [List.length_map]; exact hi) ho
  rw [List.getElem_map] at hslice
  rw [extend, List.slice_append_right _ _ (by rw [size]; omega), ← hslice, size]
  congr 1
  omega

end Extend

/-! ### The file grows -/

/-- The call ends with an error of input or output. -/
def IoFails {α : Type} (o : Outcome α) : Prop := ∃ e t, o = .error (e, t) ∧ e.isIoError = true

theorem IoFails.bind {α β : Type} {o : Outcome α} (h : IoFails o) (f : α → Outcome β) :
    IoFails (o >>= f) := by
  obtain ⟨e, t, rfl, he⟩ := h
  exact ⟨e, t, rfl, he⟩

/-- A block is appended, as long as the file has room for it. -/
theorem appendFreeBlock_eq (hps : 16 ≤ t.pageSize) (next : ℕ) :
    maxFileSize ≤ t.size + t.pageLength ∧ IoFails (t.appendFreeBlock next) ∨
      t.size + t.pageLength < maxFileSize ∧
        t.appendFreeBlock next = .ok (t.extend [next], t.size) := by
  have hlen : (DbType.freeBlock.magic ++ toBytes 4 1 ++ toBytes 8 next).length = 16 := by
    rw [List.length_append, UInt512.length_toBytes]
    rfl
  rw [appendFreeBlock, pageLength, extend, List.map_singleton, List.flatten_singleton, freePage]
  simp only
  cases t.sparse with
  | true =>
    rw [if_pos rfl, if_pos rfl]
    by_cases hmax : maxFileSize ≤ t.size + t.pageSize
    · rw [if_pos hmax]
      exact .inl ⟨hmax, _, t, rfl, rfl⟩
    · rw [if_neg hmax, if_pos rfl]
      refine .inr ⟨Nat.not_le.1 hmax, ?_⟩
      rw [List.append_assoc t.bytes, size, List.take_length_add_append]
  | false =>
    have hend : (t.bytes ++ (DbType.freeBlock.magic ++ toBytes 4 1 ++ toBytes 8 next)).length +
        (t.pageSize - 4 - 8) = t.size + (t.pageSize + 4) := by
      rw [List.length_append, hlen, size]
      omega
    rw [if_neg Bool.false_ne_true, if_neg Bool.false_ne_true, hend]
    by_cases hmax : maxFileSize ≤ t.size + (t.pageSize + 4)
    · rw [if_pos hmax]
      exact .inl ⟨hmax, _, t, rfl, rfl⟩
    · rw [if_neg hmax, if_neg Bool.false_ne_true]
      exact .inr ⟨Nat.not_le.1 hmax, by rw [List.append_assoc t.bytes]⟩

theorem appendLoop_eq (hps : 16 ≤ t.pageSize) (idx next : ℕ) :
    maxFileSize ≤ t.size + idx * t.pageLength ∧ IoFails (appendLoop idx t next) ∨
      appendLoop idx t next =
        .ok (t.extend ((List.range idx).map fun i => next + i * t.pageSize)) := by
  induction idx generalizing t next with
  | zero =>
    refine .inr ?_
    rw [appendLoop, extend, List.range_zero, List.map_nil, List.map_nil, List.flatten_nil,
      List.append_nil]
  | succ idx ih =>
    have hmul : (idx + 1) * t.pageLength = idx * t.pageLength + t.pageLength := Nat.succ_mul ..
    rw [appendLoop]
    rcases appendFreeBlock_eq hps next with ⟨hmax, hfail⟩ | ⟨-, hok⟩
    · exact .inl ⟨by omega, hfail.bind _⟩
    · rw [hok, ok_bind]
      simp only
      rcases ih (t := t.extend [next]) hps (next + t.pageSize) with ⟨hmax, hfail⟩ | hloop
      · rw [size_extend hps, List.length_singleton, Nat.one_mul,
          show (t.extend [next]).pageLength = t.pageLength from rfl] at hmax
        exact .inl ⟨by omega, hfail⟩
      · refine .inr ?_
        rw [show (t.extend [next]).pageSize = t.pageSize from rfl, hloop, extend_extend,
          List.range_succ_eq_map, List.map_cons, List.map_map, Nat.zero_mul, Nat.add_zero,
          List.singleton_append]
        congr 4
        funext i
        simp only [Function.comp_apply]
        rw [Nat.succ_mul]
        show next + t.pageSize + i * t.pageSize = _
        omega

/-- The offset in each of sixteen new blocks. -/
def nextOffset (start pageSize i : ℕ) : ℕ :=
  if i = 0 ∨ i = 15 then nullFileAddr else start + (i + 1) * pageSize

/-- A file with sixteen more blocks. -/
def grown (t : TableBlocks) : TableBlocks :=
  t.extend ((List.range 16).map (nextOffset t.size t.pageSize))

theorem appendFreeBlocks_eq (hps : 16 ≤ t.pageSize) :
    maxFileSize ≤ t.size + 16 * t.pageLength ∧ IoFails t.appendFreeBlocks ∨
      t.size + 16 * t.pageLength < maxFileSize ∧ t.appendFreeBlocks = .ok (t.grown, t.size) := by
  rw [appendFreeBlocks]
  rcases appendFreeBlock_eq hps nullFileAddr with ⟨hmax, hfail⟩ | ⟨-, hok⟩
  · exact .inl ⟨by omega, hfail.bind _⟩
  rw [hok, ok_bind]
  simp only
  set t₁ := t.extend [nullFileAddr] with ht₁
  have hsize₁ : t₁.size = t.size + t.pageLength := by
    rw [ht₁, size_extend hps, List.length_singleton, Nat.one_mul]
  have hlen₁ : t₁.pageLength = t.pageLength := rfl
  rcases appendLoop_eq (t := t₁) hps 14 (t.size + t₁.pageSize * 2) with ⟨hmax, hfail⟩ | hok
  · exact .inl ⟨by omega, hfail.bind _⟩
  rw [hok, ok_bind]
  set t₂ := t₁.extend ((List.range 14).map fun i => t.size + t₁.pageSize * 2 + i * t₁.pageSize)
    with ht₂
  have hsize₂ : t₂.size = t.size + 15 * t.pageLength := by
    rw [ht₂, size_extend (t := t₁) hps, List.length_map, List.length_range]
    omega
  have hlen₂ : t₂.pageLength = t.pageLength := rfl
  rcases appendFreeBlock_eq (t := t₂) hps nullFileAddr with ⟨hmax, hfail⟩ | ⟨hmax, hok⟩
  · exact .inl ⟨by omega, hfail.bind _⟩
  rw [hok, ok_bind]
  refine .inr ⟨by omega, ?_⟩
  simp only
  rw [grown, ht₂, ht₁, extend_extend, extend_extend]
  congr 3
  -- the sixteen offsets, one by one
  simp only [List.range, List.range.loop, List.map_cons, List.map_nil, nextOffset, extend,
    List.cons_append, List.nil_append, List.cons.injEq]
  refine ⟨rfl, ?_⟩
  simp
  omega

/-! ### References -/

theorem reference_lt (t : TableBlocks) (x : ℕ) : t.reference x < 2 ^ 64 := by
  refine lt_of_lt_of_le (UInt512.ofBytes_lt _) ?_
  calc 256 ^ (t.bytes.slice x 8).length ≤ 256 ^ 8 := by
        refine Nat.pow_le_pow_right (by decide) ?_
        rw [List.length_slice]
        exact Nat.min_le_left ..
    _ = 2 ^ 64 := by norm_num

theorem reference_setReference {x ref : ℕ} (hx : x + 8 ≤ t.size) (href : ref < 2 ^ 64) :
    (t.setReference x ref).reference x = ref := by
  rw [reference, setReference, write, List.slice_overwrite_start (by rw [size] at hx; omega)
    (by rw [UInt512.length_toBytes]), List.take_of_length_le (by rw [UInt512.length_toBytes]),
    UInt512.ofBytes_toBytes, Nat.mod_eq_of_lt (by norm_num; omega)]

theorem slice_setReference {x y n : ℕ} (ref : ℕ) (hx : x + 8 ≤ t.size)
    (hd : y + n ≤ x ∨ x + 8 ≤ y) : (t.setReference x ref).bytes.slice y n = t.bytes.slice y n :=
  List.slice_overwrite_of_disjoint (by rw [UInt512.length_toBytes]; exact hx)
    (by rw [UInt512.length_toBytes]; exact hd)

theorem size_setReference {x : ℕ} (ref : ℕ) (hx : x + 8 ≤ t.size) :
    (t.setReference x ref).size = t.size :=
  List.length_overwrite_of_le (by rw [UInt512.length_toBytes]; exact hx)

/-! ### The invariant -/

/-- The free list, made of free blocks, with the header and the live blocks. -/
structure Inv (t : TableBlocks) (live free : List ℕ) : Prop where
  pageSize : 140 ≤ t.pageSize
  sparse : t.sparse = true
  dvd : t.pageSize ∣ t.size
  fits : t.size < maxFileSize
  header : t.magicAt 0 = DbType.table.magic
  magic : ∀ a ∈ free, t.magicAt a = DbType.freeBlock.magic
  chain : Chain t.reference freeBlockField (t.reference freeBlockField) free
  perm : (0 :: (live ++ free)).Perm t.pages

theorem Inv.safe {free : List ℕ} (h : Inv t live free) : Safe t live := ⟨h.dvd, free, h.chain, h.perm⟩

theorem mem_pages {a : ℕ} (hps : 0 < t.pageSize) (ha : a ∈ t.pages) :
    t.pageSize ∣ a ∧ a + t.pageSize ≤ t.size := by
  obtain ⟨i, hi, rfl⟩ := List.mem_map.1 ha
  refine ⟨Dvd.intro_left i rfl, ?_⟩
  rw [← Nat.succ_mul]
  exact (Nat.le_div_iff_mul_le hps).1 (List.mem_range.1 hi)

/-- Two pages do not overlap. -/
theorem pages_apart {ps a b : ℕ} (ha : ps ∣ a) (hb : ps ∣ b) (hne : a ≠ b) :
    a + ps ≤ b ∨ b + ps ≤ a := by
  obtain ⟨i, rfl⟩ := ha
  obtain ⟨j, rfl⟩ := hb
  have hij : i ≠ j := fun he => hne (he ▸ rfl)
  rcases Nat.lt_or_gt_of_ne hij with hlt | hlt
  · exact .inl (by rw [← Nat.mul_succ]; exact Nat.mul_le_mul_left ps hlt)
  · exact .inr (by rw [← Nat.mul_succ]; exact Nat.mul_le_mul_left ps hlt)

theorem nodup_pages (t : TableBlocks) (hps : 0 < t.pageSize) : t.pages.Nodup :=
  List.nodup_range.map fun _ _ h => Nat.eq_of_mul_eq_mul_right hps h

section Step

variable {free : List ℕ} (h : Inv t live free)

include h

theorem Inv.nodup : (0 :: (live ++ free)).Nodup :=
  h.perm.nodup_iff.2 (t.nodup_pages (Nat.lt_of_lt_of_le (by decide) h.pageSize))

theorem Inv.page {a : ℕ} (ha : a ∈ 0 :: (live ++ free)) : t.pageSize ∣ a ∧ a + t.pageSize ≤ t.size :=
  mem_pages (Nat.lt_of_lt_of_le (by decide) h.pageSize) (h.perm.mem_iff.1 ha)

theorem Inv.header_le : t.pageSize ≤ t.size := by
  have := (h.page List.mem_cons_self).2
  omega

/-- A block that is not the header comes after it. -/
theorem Inv.le_of_mem {a : ℕ} (ha : a ∈ live ++ free) : t.pageSize ≤ a := by
  have hne : 0 ≠ a := fun he => (List.nodup_cons.1 h.nodup).1 (he ▸ ha)
  rcases pages_apart (dvd_zero t.pageSize) (h.page (List.mem_cons_of_mem 0 ha)).1 hne with hle | hle
  · omega
  · have := h.pageSize
    omega

theorem Inv.loadHeader (hcall : calls.getBlock = .ok ()) :
    ∃ bl, t.getBlock calls 0 = .ok { t with blocks := bl } := by
  have hle := h.header_le
  have hps := h.pageSize
  exact getBlock_eq hcall (by omega) h.header (by decide)

end Step

/-- The first free block is taken. -/
theorem Inv.take {a : ℕ} {free : List ℕ} (h : Inv t live (a :: free))
    (hversion : calls.setStructureVersion = .ok ()) {type : DbType} (htype : type ≠ .freeBlock)
    (hsize : type.staticSize ≠ none) :
    ∃ t', (t.setReference freeBlockField (t.reference (a + freeBlockField))).makeBlock calls type a =
        .ok (t', a) ∧ t'.size = t.size ∧ Inv t' (a :: live) free := by
  have hps := h.pageSize
  have hhead := h.header_le
  have hmem : a ∈ live ++ a :: free := List.mem_append_right _ List.mem_cons_self
  obtain ⟨hdvd, hend⟩ := h.page (List.mem_cons_of_mem 0 hmem)
  have hle := h.le_of_mem hmem
  have hfield : freeBlockField + 8 ≤ t.size := by rw [freeBlockField]; omega
  set t₁ := t.setReference freeBlockField (t.reference (a + freeBlockField)) with ht₁
  have hsize₁ : t₁.size = t.size := size_setReference _ hfield
  have hslice₁ : ∀ y n, y + n ≤ freeBlockField ∨ freeBlockField + 8 ≤ y →
      t₁.bytes.slice y n = t.bytes.slice y n := fun y n hy => slice_setReference _ hfield hy
  have hmagic₁ : t₁.magicAt a = DbType.freeBlock.magic := by
    rw [magicAt, hslice₁ a 4 (.inr (by rw [freeBlockField]; omega))]
    exact h.magic a List.mem_cons_self
  obtain ⟨t', hmake, hkeep, -⟩ := makeBlock_eq (t := t₁) (a := a)
    (by rw [hsize₁]; exact hend) hps hversion htype hsize hmagic₁
  have hps' : t'.pageSize = t.pageSize := hkeep.pageSize
  have hsize' : t'.size = t.size := hkeep.size.trans hsize₁
  refine ⟨t', hmake, hsize', ?_⟩
  -- the other free blocks are neither in the page at `a` nor in the header
  have hother : ∀ b ∈ free, ∀ o n, o + n ≤ t.pageSize →
      t'.bytes.slice (b + o) n = t.bytes.slice (b + o) n := by
    intro b hb o n ho
    have hmemb : b ∈ live ++ a :: free := List.mem_append_right _ (List.mem_cons_of_mem a hb)
    have hdvdb := (h.page (List.mem_cons_of_mem 0 hmemb)).1
    have hleb := h.le_of_mem hmemb
    have hne : a ≠ b := by
      rintro rfl
      have hnodup := (List.nodup_append.1 (List.nodup_cons.1 h.nodup).2).2.1
      exact (List.nodup_cons.1 hnodup).1 hb
    have hapart := pages_apart hdvd hdvdb hne
    rw [hkeep.slice (b + o) n ?_, hslice₁ (b + o) n (.inr (by rw [freeBlockField]; omega))]
    rw [show t₁.pageSize = t.pageSize from rfl]
    omega
  have hlink : t'.reference freeBlockField = t.reference (a + freeBlockField) := by
    rw [reference, hkeep.slice freeBlockField 8 (.inl (by rw [freeBlockField]; omega))]
    exact reference_setReference hfield (t.reference_lt _)
  refine ⟨hps' ▸ hps, hkeep.sparse.trans h.sparse, ?_, ?_, ?_, fun b hb => ?_, ?_, ?_⟩
  · rw [hps', hsize']
    exact h.dvd
  · rw [hsize']
    exact h.fits
  · rw [magicAt, hkeep.slice 0 4 (.inl (by omega)), hslice₁ 0 4 (.inl (by decide))]
    exact h.header
  · have hb4 := hother b hb 0 4 (by omega)
    rw [Nat.add_zero] at hb4
    rw [magicAt, hb4]
    exact h.magic b (List.mem_cons_of_mem a hb)
  · rw [hlink]
    refine h.chain.2.congr fun b hb => ?_
    rw [reference, reference, hother b hb freeBlockField 8 (by rw [freeBlockField]; omega)]
  · rw [pages, hps', hsize']
    exact (List.perm_middle.symm.cons 0).trans h.perm

/-- `clear_block()` of a free block keeps its magic word. -/
theorem clearBlock_freeBlock {a : ℕ} (hend : a + t.pageSize ≤ t.size) (hps : 140 ≤ t.pageSize)
    (clearBlock : Bool) :
    ∃ t', (if clearBlock then t.clearBlock .freeBlock a else t) = t' ∧ KeepsOutside a t t' ∧
      t'.magicAt a = t.magicAt a := by
  refine ⟨_, rfl, ?_⟩
  cases clearBlock with
  | false => exact ⟨KeepsOutside.refl a t t.blocks, rfl⟩
  | true =>
    have hmod := Nat.mod_le (t.pageSize - 16) (2 ^ 32)
    have hlen : (List.replicate ((t.pageSize - 16) % 2 ^ 32) (0 : UInt8)).length =
        (t.pageSize - 16) % 2 ^ 32 := List.length_replicate
    have hclear : t.clearBlock .freeBlock a =
        t.write (a + 16) (List.replicate ((t.pageSize - 16) % 2 ^ 32) 0) := rfl
    rw [if_pos rfl, hclear]
    refine ⟨keepsOutside_write (Nat.le_add_right a 16) (by rw [hlen]; omega) hend, ?_⟩
    refine List.slice_overwrite_of_disjoint ?_ (.inl (by omega))
    rw [size] at hend
    rw [hlen]
    omega

/-- A live block is freed. -/
theorem Inv.freeBlock {a : ℕ} {free : List ℕ} (h : Inv t live free) (ha : a ∈ live)
    (hcall : calls.getBlock = .ok ()) (clearBlock : Bool) :
    ∃ t', t.freeBlock calls a clearBlock = .ok t' ∧ Inv t' (live.erase a) (a :: free) := by
  have hps := h.pageSize
  have hhead := h.header_le
  have hmem : a ∈ live ++ free := List.mem_append_left _ ha
  obtain ⟨hdvd, hend⟩ := h.page (List.mem_cons_of_mem 0 hmem)
  have hle := h.le_of_mem hmem
  obtain ⟨t₁, hblock, hkeep₁, hmagic₁⟩ := allocateBlock_freeBlock hend hps
  obtain ⟨t₂, hclear, hkeep₂, hmagic₂⟩ := clearBlock_freeBlock (t := t₁) (a := a)
    (by rw [hkeep₁.pageSize, hkeep₁.size]; exact hend) (by rw [hkeep₁.pageSize]; exact hps) clearBlock
  have hkeep : KeepsOutside a t t₂ := hkeep₁.trans hkeep₂
  have hheader : t₂.magicAt 0 = DbType.table.magic := by
    rw [magicAt, hkeep.slice 0 4 (.inl (by omega))]
    exact h.header
  obtain ⟨bl, hload⟩ := getBlock_eq (t := t₂) hcall (by rw [hkeep.size]; omega) hheader (by decide)
  set t₃ : TableBlocks := { t₂ with blocks := bl } with ht₃
  have hsize₃ : t₃.size = t.size := hkeep.size
  have hfirst : t₃.reference freeBlockField = t.reference freeBlockField := by
    rw [reference, reference]
    exact congrArg _ (hkeep.slice freeBlockField 8 (.inl (by rw [freeBlockField]; omega)))
  have hfield₃ : a + freeBlockField + 8 ≤ t₃.size := by rw [hsize₃, freeBlockField]; omega
  set t₄ := t₃.setReference (a + freeBlockField) (t₃.reference freeBlockField) with ht₄
  have hsize₄ : t₄.size = t.size := (size_setReference _ hfield₃).trans hsize₃
  have hfield₄ : freeBlockField + 8 ≤ t₄.size := by rw [hsize₄, freeBlockField]; omega
  set t₅ := t₄.setReference freeBlockField a with ht₅
  have hsize₅ : t₅.size = t.size := (size_setReference _ hfield₄).trans hsize₄
  have hps₅ : t₅.pageSize = t.pageSize := hkeep.pageSize
  -- what is neither in the page at `a` nor the field of the header
  have hother : ∀ y n, y + n ≤ freeBlockField ∨ t.pageSize ≤ y →
      (y + n ≤ a ∨ a + t.pageSize ≤ y) → t₅.bytes.slice y n = t.bytes.slice y n := by
    intro y n hy hout
    rw [slice_setReference _ hfield₄ (by rw [freeBlockField] at hy ⊢; omega),
      slice_setReference _ hfield₃ (by rw [freeBlockField]; omega)]
    exact hkeep.slice y n hout
  have hmagic : t₅.magicAt a = DbType.freeBlock.magic := by
    rw [magicAt, slice_setReference _ hfield₄ (by rw [freeBlockField]; omega),
      slice_setReference _ hfield₃ (by rw [freeBlockField]; omega)]
    exact hmagic₂.trans hmagic₁
  have hnext : t₅.reference (a + freeBlockField) = t.reference freeBlockField := by
    rw [reference, slice_setReference _ hfield₄ (by rw [freeBlockField]; omega)]
    exact (reference_setReference hfield₃ (t₃.reference_lt _)).trans hfirst
  have hmax : maxFileSize < 2 ^ 64 := by decide
  have hfits := h.fits
  refine ⟨t₅, ?_, hps₅ ▸ hps, hkeep.sparse.trans h.sparse, ?_, ?_, ?_, ?_, ⟨?_, ?_⟩, ?_⟩
  · rw [TableBlocks.freeBlock, hblock, ok_bind]
    simp only
    rw [hclear, hload, ok_bind]
  · rw [hps₅, hsize₅]
    exact h.dvd
  · rw [hsize₅]
    exact hfits
  · rw [magicAt, hother 0 4 (.inl (by decide)) (.inl (by omega))]
    exact h.header
  · intro b hb
    rcases List.mem_cons.1 hb with rfl | hb
    · exact hmagic
    · have hmemb : b ∈ live ++ free := List.mem_append_right _ hb
      have hleb := h.le_of_mem hmemb
      have hapart := pages_apart hdvd (h.page (List.mem_cons_of_mem 0 hmemb)).1
        (fun he => (List.nodup_append.1 (List.nodup_cons.1 h.nodup).2).2.2 a ha b hb he)
      rw [magicAt, hother b 4 (.inr hleb) (by omega)]
      exact h.magic b hb
  · exact reference_setReference hfield₄ (by omega)
  · rw [hnext]
    refine h.chain.congr fun b hb => ?_
    have hmemb : b ∈ live ++ free := List.mem_append_right _ hb
    have hleb := h.le_of_mem hmemb
    have hapart := pages_apart hdvd (h.page (List.mem_cons_of_mem 0 hmemb)).1
      (fun he => (List.nodup_append.1 (List.nodup_cons.1 h.nodup).2).2.2 a ha b hb he)
    rw [reference, reference, hother (b + freeBlockField) 8 (.inr (by omega))
      (by rw [freeBlockField]; omega)]
  · rw [pages, hps₅, hsize₅]
    refine List.Perm.trans (List.Perm.cons 0 ?_) h.perm
    exact List.perm_middle.trans ((List.perm_cons_erase ha).symm.append_right free)

/-! ### Sixteen new pages -/

/-- The pages of the new list. -/
def newPages (n pageSize : ℕ) : List ℕ := (List.range' (n + 1) 15).map (· * pageSize)

theorem slice_grown_old {x k : ℕ} (hx : x + k ≤ t.size) :
    t.grown.bytes.slice x k = t.bytes.slice x k := slice_extend hx _

section Grown

variable {n : ℕ} (hsize : t.size = n * t.pageSize) (hsparse : t.sparse = true)
  (hps : 140 ≤ t.pageSize)

include hsize hsparse hps

theorem slice_grown {i o k : ℕ} (hi : i < 16) (ho : o + k ≤ t.pageSize) :
    t.grown.bytes.slice ((n + i) * t.pageSize + o) k =
      (freePage true t.pageSize (nextOffset (n * t.pageSize) t.pageSize i)).slice o k := by
  have hlen : t.pageLength = t.pageSize := by rw [pageLength, if_pos hsparse]
  have hpage := slice_extend_page (t := t) (l := (List.range 16).map (nextOffset t.size t.pageSize))
    (by omega) (by rw [List.length_map, List.length_range]; exact hi) (by rw [hlen]; exact ho)
  rw [List.getElem_map, List.getElem_range, hsize, hlen, hsparse] at hpage
  rw [Nat.add_mul, grown, hsize]
  exact hpage

theorem size_grown : t.grown.size = (n + 16) * t.pageSize := by
  rw [grown, size_extend (by omega), hsize, List.length_map, List.length_range, Nat.add_mul,
    pageLength, if_pos hsparse]

theorem magicAt_grown {i : ℕ} (hi : i < 16) :
    t.grown.magicAt ((n + i) * t.pageSize) = DbType.freeBlock.magic := by
  have hpage := slice_grown hsize hsparse hps hi (show 0 + 4 ≤ t.pageSize by omega)
  rw [Nat.add_zero] at hpage
  rw [magicAt, hpage, freePage_magic (by omega)]

theorem reference_grown {i : ℕ} (hi : i < 16) (hfits : (n + 16) * t.pageSize < 2 ^ 64) :
    t.grown.reference ((n + i) * t.pageSize + freeBlockField) =
      nextOffset (n * t.pageSize) t.pageSize i := by
  have hlt : nextOffset (n * t.pageSize) t.pageSize i < 2 ^ 64 := by
    rw [nextOffset]
    split
    · decide
    · refine lt_of_le_of_lt ?_ hfits
      rw [← Nat.add_mul]
      exact Nat.mul_le_mul_right _ (by omega)
  rw [reference, slice_grown hsize hsparse hps hi (by rw [freeBlockField]; omega),
    freePage_next (by omega), UInt512.ofBytes_toBytes, Nat.mod_eq_of_lt (by norm_num; omega)]

theorem chain_grown (hfits : (n + 16) * t.pageSize < 2 ^ 64) :
    Chain t.grown.reference freeBlockField ((n + 1) * t.pageSize) (newPages n t.pageSize) := by
  refine chain_range' 15 (if_neg (by decide)).symm fun j hj hlt => ?_
  obtain ⟨i, rfl⟩ := Nat.exists_eq_add_of_le (Nat.le_of_succ_le hj)
  rw [reference_grown hsize hsparse hps (by omega) hfits, nextOffset]
  by_cases hlast : n + i + 1 = n + 1 + 15
  · rw [if_pos (.inr (by omega)), if_pos hlast]
    rfl
  · rw [if_neg (by omega), if_neg hlast, ← Nat.add_mul, Nat.add_assoc]

theorem pages_grown : t.grown.pages = t.pages ++ n * t.pageSize :: newPages n t.pageSize := by
  have hpos : 0 < t.pageSize := by omega
  rw [pages, pages, size_grown hsize hsparse hps, hsize, show t.grown.pageSize = t.pageSize from rfl,
    Nat.mul_div_cancel _ hpos, Nat.mul_div_cancel _ hpos, List.range_eq_range', List.range_eq_range',
    ← List.range'_append_1 (s := 0) (m := n) (n := 16), List.map_append, Nat.zero_add,
    List.range'_succ, List.map_cons, newPages]

end Grown

/-- The new free blocks, in a file that has them as they were appended. -/
theorem newPages_kept {n : ℕ} (hsize : t.size = n * t.pageSize) (hsparse : t.sparse = true)
    (hps : 140 ≤ t.pageSize)
    (hfits : (n + 16) * t.pageSize < 2 ^ 64)
    (hkept : ∀ b ∈ newPages n t.pageSize, ∀ o k, o + k ≤ t.pageSize →
      t'.bytes.slice (b + o) k = t.grown.bytes.slice (b + o) k) :
    (∀ b ∈ newPages n t.pageSize, t'.magicAt b = DbType.freeBlock.magic) ∧
      Chain t'.reference freeBlockField ((n + 1) * t.pageSize) (newPages n t.pageSize) := by
  constructor
  · intro b hb
    have hkeep := hkept b hb 0 4 (by omega)
    obtain ⟨j, hj, rfl⟩ := List.mem_map.1 hb
    obtain ⟨hlo, hhi⟩ := List.mem_range'_1.1 hj
    obtain ⟨i, rfl⟩ := Nat.exists_eq_add_of_le (Nat.le_of_succ_le hlo)
    rw [Nat.add_zero] at hkeep
    rw [magicAt, hkeep]
    exact magicAt_grown hsize hsparse hps (by omega)
  · refine (chain_grown hsize hsparse hps hfits).congr fun b hb => ?_
    rw [reference, reference, hkept b hb freeBlockField 8 (by rw [freeBlockField]; omega)]

theorem le_of_mem_newPages {n pageSize b : ℕ} (hb : b ∈ newPages n pageSize) :
    pageSize ∣ b ∧ (n + 1) * pageSize ≤ b := by
  obtain ⟨j, hj, rfl⟩ := List.mem_map.1 hb
  exact ⟨Dvd.intro_left j rfl, Nat.mul_le_mul_right _ (List.mem_range'_1.1 hj).1⟩

/-- The file grows, and its first new page is taken. -/
theorem Inv.grow (h : Inv t live []) (hversion : calls.setStructureVersion = .ok ())
    {type : DbType} (htype : type ≠ .freeBlock) (hstatic : type.staticSize ≠ none)
    (hfits : t.size + 16 * t.pageSize < maxFileSize) :
    ∃ t' free, (t.grown.setReference freeBlockField (t.size + t.pageSize)).makeBlock calls type
        t.size = .ok (t', t.size) ∧ t.size + t.pageSize ≤ t'.size ∧ Inv t' (t.size :: live) free := by
  have hps := h.pageSize
  have hhead := h.header_le
  obtain ⟨n, hn⟩ := h.dvd
  have hsize : t.size = n * t.pageSize := by rw [hn, Nat.mul_comm]
  have hgrown : t.grown.size = t.size + 16 * t.pageSize := by
    rw [size_grown hsize h.sparse hps, hsize, Nat.add_mul]
  have hmax : maxFileSize < 2 ^ 64 := by decide
  have hfits' : (n + 16) * t.pageSize < 2 ^ 64 := by
    rw [Nat.add_mul, ← hsize]
    omega
  have hfield : freeBlockField + 8 ≤ t.grown.size := by rw [hgrown, freeBlockField]; omega
  set t₁ := t.grown.setReference freeBlockField (t.size + t.pageSize) with ht₁
  have hsize₁ : t₁.size = t.size + 16 * t.pageSize := (size_setReference _ hfield).trans hgrown
  have hslice₁ : ∀ y k, y + k ≤ freeBlockField ∨ freeBlockField + 8 ≤ y →
      t₁.bytes.slice y k = t.grown.bytes.slice y k := fun y k hy => slice_setReference _ hfield hy
  have hmagic₁ : t₁.magicAt t.size = DbType.freeBlock.magic := by
    have hfirst := magicAt_grown hsize h.sparse hps (show 0 < 16 by decide)
    rw [Nat.add_zero, ← hsize] at hfirst
    rw [magicAt, hslice₁ t.size 4 (.inr (by rw [freeBlockField]; omega))]
    exact hfirst
  obtain ⟨t', hmake, hkeep, -⟩ := makeBlock_eq (t := t₁) (a := t.size)
    (by rw [hsize₁]; show t.size + t.pageSize ≤ _; omega) hps hversion htype hstatic hmagic₁
  have hps' : t'.pageSize = t.pageSize := hkeep.pageSize
  have hsize' : t'.size = t.size + 16 * t.pageSize := hkeep.size.trans hsize₁
  have hkept : ∀ b ∈ newPages n t.pageSize, ∀ o k, o + k ≤ t.pageSize →
      t'.bytes.slice (b + o) k = t.grown.bytes.slice (b + o) k := by
    intro b hb o k _
    have hle := (le_of_mem_newPages hb).2
    rw [Nat.add_mul, Nat.one_mul, ← hsize] at hle
    rw [hkeep.slice (b + o) k (.inr (by show t.size + t.pageSize ≤ _; omega)),
      hslice₁ (b + o) k (.inr (by rw [freeBlockField]; omega))]
  obtain ⟨hmagic, hchain⟩ := newPages_kept hsize h.sparse hps hfits' hkept
  refine ⟨t', newPages n t.pageSize, hmake, by omega, hps' ▸ hps, hkeep.sparse.trans h.sparse, ?_,
    hsize' ▸ hfits, ?_, hmagic, ?_, ?_⟩
  · rw [hps', hsize']
    exact (Nat.dvd_add_iff_right h.dvd).1 (Dvd.intro_left 16 rfl)
  · rw [magicAt, hkeep.slice 0 4 (.inl (by omega)), hslice₁ 0 4 (.inl (by decide)),
      slice_grown_old (by omega)]
    exact h.header
  · have hfirst : t'.reference freeBlockField = (n + 1) * t.pageSize := by
      rw [reference, hkeep.slice freeBlockField 8 (.inl (by rw [freeBlockField]; omega)),
        Nat.add_mul, Nat.one_mul, ← hsize]
      exact reference_setReference hfield (by omega)
    rw [hfirst]
    exact hchain
  · have hpages : t'.pages = t.grown.pages := by
      rw [pages, pages, hps', hsize', hgrown]
      rfl
    rw [hpages, pages_grown hsize h.sparse hps, List.cons_append, ← hsize]
    have hold := h.perm
    rw [List.append_nil] at hold
    exact (List.perm_middle.symm.cons 0).trans (hold.append_right _)

/-! ### Runs -/

/-- The blocks that are loaded do not matter. -/
theorem Inv.blocks {free : List ℕ} (h : Inv t live free) (bl : List ℕ) :
    Inv { t with blocks := bl } live free :=
  ⟨h.pageSize, h.sparse, h.dvd, h.fits, h.header, h.magic, h.chain, h.perm⟩

/-- The header is the first page. -/
theorem Inv.size_pos {free : List ℕ} (h : Inv t live free) : t.size ≠ 0 := by
  have hps := h.pageSize
  have hhead := h.header_le
  omega

/-- **An allocation** fails before it changes anything, or hands out a page that was not in use. -/
theorem Inv.allocateNewBlock {free : List ℕ} (h : Inv t live free) (hcall : calls.getBlock = .ok ())
    (hversion : calls.setStructureVersion = .ok ()) {type : DbType}
    (hknown : type.staticSize ≠ none) :
    IoFails (t.allocateNewBlock calls type) ∨
      (∃ e, t.allocateNewBlock calls type = .error (e, t)) ∨
      ∃ t' offset free', t.allocateNewBlock calls type = .ok (t', offset) ∧
        (t.pageSize ∣ offset ∧ offset + t.pageSize ≤ t'.size ∧ offset ∉ 0 :: live) ∧
        Inv t' (offset :: live) free' := by
  rw [TableBlocks.allocateNewBlock]
  by_cases hfree : type = .freeBlock
  · rw [if_pos hfree]
    exact .inr (.inl ⟨_, rfl⟩)
  rw [if_neg hfree, if_neg h.size_pos]
  by_cases hfile : type.isFile = true
  · rw [if_pos hfile]
    exact .inr (.inl ⟨_, rfl⟩)
  rw [if_neg hfile]
  obtain ⟨bl, hload⟩ := h.loadHeader hcall
  rw [hload, ok_bind]
  have h₁ := h.blocks bl
  set t₁ : TableBlocks := { t with blocks := bl } with ht₁
  simp only
  -- the page that is handed out is not a live one
  have hnew : ∀ {t' : TableBlocks} {offset : ℕ} {free' : List ℕ}, Inv t' (offset :: live) free' →
      offset ∉ 0 :: live := fun h' hmem => by
    have hnodup := h'.nodup
    rw [List.cons_append, ← List.cons_append] at hnodup
    rcases List.mem_cons.1 hmem with rfl | hmem
    · exact (List.nodup_cons.1 hnodup).1 List.mem_cons_self
    · exact (List.nodup_cons.1 (List.nodup_cons.1 hnodup).2).1 (List.mem_append_left _ hmem)
  cases free with
  | nil =>
    have hzero : t₁.reference freeBlockField = nullFileAddr := h₁.chain
    rw [if_pos hzero]
    rcases appendFreeBlocks_eq (t := t₁) (Nat.le_trans (by decide) h₁.pageSize) with
      ⟨-, hfail⟩ | ⟨hfits, hok⟩
    · exact .inl (hfail.bind _)
    · rw [pageLength, if_pos h₁.sparse] at hfits
      obtain ⟨t', free', hmake, hend, h'⟩ := h₁.grow hversion hfree hknown hfits
      rw [hok, ok_bind]
      exact .inr (.inr ⟨t', t₁.size, free', hmake, ⟨h.dvd, hend, hnew h'⟩, h'⟩)
  | cons a free =>
    have hfirst : t₁.reference freeBlockField = a := h₁.chain.1
    have hmem : a ∈ live ++ a :: free := List.mem_append_right _ List.mem_cons_self
    have hle := h₁.le_of_mem hmem
    have hpage := h₁.page (List.mem_cons_of_mem 0 hmem)
    have hps := h₁.pageSize
    obtain ⟨bl', hload'⟩ := getBlock_eq (t := t₁) hcall (by omega)
      (h₁.magic a List.mem_cons_self) (by decide)
    obtain ⟨t', hmake, hsize, h'⟩ := (h₁.blocks bl').take hversion hfree hknown
    rw [hfirst, if_neg (by rw [nullFileAddr]; omega), hload', ok_bind]
    exact .inr (.inr ⟨t', a, free, hmake, ⟨hpage.1, hsize ▸ hpage.2, hnew h'⟩, h'⟩)

theorem Inv.runSafe (hcall : calls.getBlock = .ok ()) (hversion : calls.setStructureVersion = .ok ()) :
    ∀ {run : List Call} {t : TableBlocks} {live free : List ℕ}, Inv t live free →
      (∀ c ∈ run, c.Known) → RunSafe calls t live run
  | [], _, _, _, h, _ => h.safe
  | .allocateNewBlock type :: run, t, live, free, h, hknown => by
    have hrest : ∀ c ∈ run, c.Known := fun c hc => hknown c (List.mem_cons_of_mem _ hc)
    refine ⟨h.safe, ?_⟩
    rcases h.allocateNewBlock hcall hversion (hknown _ List.mem_cons_self) with
      ⟨e, t', heq, hio⟩ | ⟨e, heq⟩ | ⟨t', offset, free', heq, hgood, h'⟩
    · rw [heq]
      exact fun hne => absurd (hne.symm.trans hio) Bool.false_ne_true
    · rw [heq]
      exact fun _ => Inv.runSafe hcall hversion h hrest
    · rw [heq]
      exact ⟨hgood, Inv.runSafe hcall hversion h' hrest⟩
  | .freeBlock offset clearBlock :: run, t, live, free, h, hknown => by
    have hrest : ∀ c ∈ run, c.Known := fun c hc => hknown c (List.mem_cons_of_mem _ hc)
    refine ⟨h.safe, fun hmem => ?_⟩
    obtain ⟨t', heq, h'⟩ := h.freeBlock hmem hcall clearBlock
    rw [heq]
    exact Inv.runSafe hcall hversion h' hrest

/-- When blocks cannot be accessed, nothing is handed out. -/
theorem Inv.runSafe_of_error {e : Failure} (hcall : calls.getBlock = .error e) {free : List ℕ}
    (h : Inv t [] free) (run : List Call) : RunSafe calls t [] run := by
  induction run with
  | nil => exact h.safe
  | cons c run ih =>
    cases c with
    | freeBlock offset clearBlock => exact ⟨h.safe, fun hmem => absurd hmem List.not_mem_nil⟩
    | allocateNewBlock type =>
      refine ⟨h.safe, ?_⟩
      have herror : ∃ e', t.allocateNewBlock calls type = .error (e', t) := by
        rw [TableBlocks.allocateNewBlock]
        by_cases hfree : type = .freeBlock
        · rw [if_pos hfree]
          exact ⟨_, rfl⟩
        rw [if_neg hfree, if_neg h.size_pos]
        by_cases hfile : type.isFile = true
        · rw [if_pos hfile]
          exact ⟨_, rfl⟩
        · rw [if_neg hfile, getBlock, if_neg (fun hz => hz.1 rfl), hcall]
          exact ⟨e, rfl⟩
      obtain ⟨e', heq⟩ := herror
      rw [heq]
      exact fun _ => ih

/-! ### A new file -/

/-- A file before it has any page. -/
def empty (filename : String) (pageSize : ℕ) (sparse : Bool) : TableBlocks :=
  { filename := filename, pageSize := pageSize, sparse := sparse }

/-- A field of the header after the one of the free list. -/
theorem Inv.setField {free : List ℕ} (h : Inv t live free) {x : ℕ} (hlo : freeBlockField + 8 ≤ x)
    (hhi : x + 8 ≤ t.pageSize) (value : ℕ) : Inv (t.setReference x value) live free := by
  have hps := h.pageSize
  have hhead := h.header_le
  have hx : x + 8 ≤ t.size := hhi.trans hhead
  have hslice : ∀ y n, y + n ≤ freeBlockField + 8 ∨ t.pageSize ≤ y →
      (t.setReference x value).bytes.slice y n = t.bytes.slice y n := fun y n hy =>
    slice_setReference value hx (by omega)
  have hsize : (t.setReference x value).size = t.size := size_setReference value hx
  have hle : ∀ b ∈ free, t.pageSize ≤ b := fun b hb => h.le_of_mem (List.mem_append_right _ hb)
  refine ⟨hps, h.sparse, ?_, hsize ▸ h.fits, ?_, fun b hb => ?_, ?_, ?_⟩
  · rw [hsize]
    exact h.dvd
  · rw [magicAt, hslice 0 4 (.inl (by decide))]
    exact h.header
  · rw [magicAt, hslice b 4 (.inr (hle b hb))]
    exact h.magic b hb
  · have hfirst : (t.setReference x value).reference freeBlockField = t.reference freeBlockField := by
      rw [reference, reference, hslice freeBlockField 8 (.inl (Nat.le_refl _))]
    rw [hfirst]
    refine h.chain.congr fun b hb => ?_
    have := hle b hb
    rw [reference, reference, hslice (b + freeBlockField) 8 (.inr (by omega))]
  · rw [pages, hsize]
    exact h.perm

/-- The header of a new sparse file, with its list of fifteen blocks. -/
theorem inv_header (filename : String) {pageSize : ℕ} (hps : 140 ≤ pageSize)
    (hfits : 16 * pageSize < maxFileSize) (hversion : calls.setStructureVersion = .ok ()) :
    ∃ t, (empty filename pageSize true).grown.makeBlock calls .table 0 = .ok (t, 0) ∧
      Inv (t.setReference (0 + freeBlockField) pageSize) [] (newPages 0 pageSize) := by
  set t₀ := empty filename pageSize true with ht₀
  have hsize₀ : t₀.size = 0 * t₀.pageSize := (Nat.zero_mul _).symm
  have hgrown : t₀.grown.size = 16 * pageSize := by
    rw [size_grown hsize₀ rfl hps, Nat.zero_add]
    rfl
  have hmagic₀ : t₀.grown.magicAt 0 = DbType.freeBlock.magic := by
    have hfirst := magicAt_grown hsize₀ rfl hps (show 0 < 16 by decide)
    rwa [Nat.zero_add, Nat.zero_mul] at hfirst
  have hend : 0 + t₀.grown.pageSize ≤ t₀.grown.size := by
    rw [hgrown]
    show 0 + pageSize ≤ _
    omega
  obtain ⟨t, hmake, hkeep, hmagic⟩ := makeBlock_eq hend hps hversion
    (show DbType.table ≠ .freeBlock by decide) (by decide) hmagic₀
  refine ⟨t, hmake, ?_⟩
  have hsize : t.size = 16 * pageSize := hkeep.size.trans hgrown
  have hpst : t.pageSize = pageSize := hkeep.pageSize
  have hfield : 0 + freeBlockField + 8 ≤ t.size := by rw [hsize, freeBlockField]; omega
  have hmax : maxFileSize < 2 ^ 64 := by decide
  set t₁ := t.setReference (0 + freeBlockField) pageSize with ht₁
  have hsize₁ : t₁.size = 16 * pageSize := (size_setReference _ hfield).trans hsize
  have hkept : ∀ b ∈ newPages 0 t₀.pageSize, ∀ o k, o + k ≤ t₀.pageSize →
      t₁.bytes.slice (b + o) k = t₀.grown.bytes.slice (b + o) k := by
    intro b hb o k _
    have hle := (le_of_mem_newPages hb).2
    rw [Nat.zero_add, Nat.one_mul, show t₀.pageSize = pageSize from rfl] at hle
    rw [slice_setReference _ hfield (by rw [freeBlockField]; omega)]
    exact hkeep.slice (b + o) k (.inr (by show 0 + pageSize ≤ _; omega))
  obtain ⟨hfree, hchain⟩ := newPages_kept hsize₀ rfl hps
    (by rw [Nat.zero_add]; exact lt_trans hfits hmax) hkept
  have hfirst : t₁.reference freeBlockField = (0 + 1) * pageSize := by
    have hset := reference_setReference hfield (show pageSize < 2 ^ 64 by omega)
    rw [Nat.zero_add] at hset
    rw [Nat.zero_add, Nat.one_mul, ht₁, Nat.zero_add]
    exact hset
  refine ⟨hpst.symm ▸ hps, hkeep.sparse, ?_, hsize₁ ▸ hfits, ?_, hfree, ?_, ?_⟩
  · rw [hsize₁]
    exact hpst ▸ Dvd.intro_left 16 rfl
  · rw [magicAt, slice_setReference _ hfield (.inl (by decide))]
    exact hmagic
  · rw [hfirst]
    exact hchain
  · have hpages : t₁.pages = t₀.grown.pages := by
      rw [pages, pages, hsize₁, hgrown, show t₁.pageSize = pageSize from hpst]
      rfl
    have hnone : t₀.pages = [] := by
      rw [pages, hsize₀, Nat.zero_mul, Nat.zero_div, List.range_zero, List.map_nil]
    rw [hpages, pages_grown hsize₀ rfl hps, hnone, Nat.zero_mul, List.nil_append, List.nil_append]
    exact List.Perm.refl _

/-- What is done with the header of a new file. -/
def finish (calls : BlockCalls) (pageSize : ℕ) (header : TableBlocks × ℕ) : Outcome TableBlocks := do
  let t := header.1.setReference (header.2 + freeBlockField) pageSize
  t.call calls.setBlockSize
  t.call calls.setFileVersion
  .ok (t.setReference (header.2 + lastOidField) 1)

theorem create_eq (filename : String) (pageSize : ℕ) (sparse : Bool) :
    create calls filename pageSize sparse =
      (empty filename pageSize sparse).appendFreeBlocks >>= fun r =>
        r.1.makeBlock calls .table 0 >>= finish calls pageSize := by
  have hzero : size { filename := filename, pageSize := pageSize, sparse := sparse } = 0 := rfl
  rw [create, allocateNewBlock, if_neg (by decide), if_pos hzero,
    if_pos (show DbType.table.isFile = true from rfl), empty]
  cases appendFreeBlocks { filename := filename, pageSize := pageSize, sparse := sparse } with
  | error e => rfl
  | ok r => rfl

/-- Whether a call returns or throws, the file it leaves. -/
def Leaves (o : Outcome TableBlocks) (P : TableBlocks → Prop) : Prop :=
  match o with
  | .ok t => P t
  | .error (e, t) => e.isIoError = false → P t

theorem allocationSafe_eq (filename : String) (pageSize : ℕ) (sparse : Bool) :
    AllocationSafe calls filename pageSize sparse ↔ ∀ run : List Call, (∀ c ∈ run, c.Known) →
      Leaves (create calls filename pageSize sparse) fun t => RunSafe calls t [] run := by
  refine forall_congr' fun run => imp_congr_right fun _ => ?_
  cases create calls filename pageSize sparse with
  | error e => exact Iff.rfl
  | ok t => exact Iff.rfl

theorem leaves_of_ioFails {o : Outcome TableBlocks} (h : IoFails o) (P : TableBlocks → Prop) :
    Leaves o P := by
  obtain ⟨e, t, rfl, hio⟩ := h
  exact fun hne => absurd (hne.symm.trans hio) Bool.false_ne_true

/-- The calls on the header of a new file do not touch the free list. -/
theorem leaves_finish {pageSize : ℕ} {header : TableBlocks × ℕ} {P : TableBlocks → Prop}
    (h : P (header.1.setReference (header.2 + freeBlockField) pageSize))
    (h' : P ((header.1.setReference (header.2 + freeBlockField) pageSize).setReference
      (header.2 + lastOidField) 1)) : Leaves (finish calls pageSize header) P := by
  rw [finish]
  cases calls.setBlockSize with
  | error e => exact fun _ => h
  | ok _ =>
    cases calls.setFileVersion with
    | error e => exact fun _ => h
    | ok _ => exact h'

/-- **A sparse file is safe** when the version of a structure can be set. -/
theorem allocationSafe_of_sparse (filename : String) {pageSize : ℕ} (hps : 140 ≤ pageSize)
    (hversion : calls.setStructureVersion = .ok ()) :
    AllocationSafe calls filename pageSize true := by
  rw [allocationSafe_eq]
  intro run hknown
  rw [create_eq]
  rcases appendFreeBlocks_eq (t := empty filename pageSize true) (Nat.le_trans (by decide) hps) with
    ⟨-, hfail⟩ | ⟨hfits, hok⟩
  · exact leaves_of_ioFails (hfail.bind _) _
  have hfits' : 16 * pageSize < maxFileSize := by
    have hzero : (empty filename pageSize true).size = 0 := rfl
    rw [hzero, Nat.zero_add] at hfits
    exact hfits
  obtain ⟨t, hmake, hinv⟩ := inv_header filename hps hfits' hversion
  rw [hok, ok_bind, hmake, ok_bind]
  have hrun : ∀ {t' : TableBlocks}, Inv t' [] (newPages 0 pageSize) → RunSafe calls t' [] run := by
    intro t' h'
    cases hcall : calls.getBlock with
    | error e => exact h'.runSafe_of_error hcall run
    | ok _ => exact h'.runSafe hcall hversion hknown
  have hfield : 0 + lastOidField + 8 ≤ 140 := by decide
  exact leaves_finish (hrun hinv) (hrun (hinv.setField (show _ ≤ 0 + lastOidField by decide)
    (hfield.trans hinv.pageSize) 1))

/-! ### Files that are not safe -/

/-- The list of a file whose header has no first free block is empty, so the file has one page. -/
theorem not_safe_of_zero (hzero : t.reference freeBlockField = 0) (hps : 0 < t.pageSize)
    (hsize : 2 * t.pageSize ≤ t.size) : ¬ Safe t [] := by
  rintro ⟨-, free, hchain, hperm⟩
  cases free with
  | nil =>
    have hlen := hperm.length_eq
    rw [pages, List.length_map, List.length_range] at hlen
    have htwo : 2 ≤ t.size / t.pageSize := (Nat.le_div_iff_mul_le hps).2 hsize
    rw [← hlen] at htwo
    exact absurd htwo (by decide)
  | cons a free =>
    have ha : a = 0 := hchain.1.symm.trans hzero
    have hnodup := hperm.nodup_iff.2 (t.nodup_pages hps)
    exact (List.nodup_cons.1 hnodup).1 (by rw [ha]; exact List.mem_cons_self)

/-- The first free block leads to an offset that is not the one of a page. -/
theorem not_safe_of_odd {a : ℕ} (hfirst : t.reference freeBlockField = a) (ha : a ≠ 0)
    (hodd : ¬ 2 ∣ t.reference (a + freeBlockField)) (heven : 2 ∣ t.pageSize)
    (hps : 0 < t.pageSize) : ¬ Safe t [] := by
  rintro ⟨-, free, hchain, hperm⟩
  cases free with
  | nil => exact ha (hfirst.symm.trans hchain)
  | cons b free =>
    obtain ⟨hb, hnext⟩ := hchain
    rw [← hb, hfirst] at hnext
    cases free with
    | nil => exact hodd (by rw [show t.reference (a + freeBlockField) = 0 from hnext]; exact dvd_zero 2)
    | cons c free =>
      have hmem : c ∈ t.pages := hperm.mem_iff.1 (by simp)
      have hdvd := (mem_pages hps hmem).1
      rw [hnext.1] at hodd
      exact hodd (heven.trans hdvd)

theorem RunSafe.safe {run : List Call} (h : RunSafe calls t live run) : Safe t live := by
  cases run with
  | nil => exact h
  | cons c run =>
    cases c with
    | allocateNewBlock type => exact h.1
    | freeBlock offset clearBlock => exact h.1

section NewFile

variable (filename : String) {pageSize : ℕ} (sparse : Bool) (hps : 140 ≤ pageSize)

include hps

theorem empty_grown_magic :
    (empty filename pageSize sparse).grown.magicAt 0 = DbType.freeBlock.magic := by
  have hps16 : 16 ≤ (empty filename pageSize sparse).pageSize := Nat.le_trans (by decide) hps
  have hlen : 0 + 4 ≤ (empty filename pageSize sparse).pageLength := by
    rw [pageLength]
    split <;> omega
  have hpage := slice_extend_page (l := (List.range 16).map (nextOffset 0 pageSize)) hps16
    (show 0 < 16 by decide) hlen
  rw [Nat.zero_mul] at hpage
  refine hpage.trans ?_
  cases sparse with
  | true => exact freePage_magic hps16 _
  | false => rfl

theorem empty_grown_size : 16 * pageSize ≤ (empty filename pageSize sparse).grown.size := by
  rw [grown, size_extend (Nat.le_trans (by decide) hps), List.length_map, List.length_range,
    pageLength, show (empty filename pageSize sparse).pageSize = pageSize from rfl]
  split <;> omega

theorem appendFreeBlocks_empty (hmax : 16 * (pageSize + 4) < maxFileSize) {sparse : Bool} :
    (empty filename pageSize sparse).appendFreeBlocks =
      .ok ((empty filename pageSize sparse).grown, 0) := by
  have hlen : (empty filename pageSize sparse).pageLength ≤ pageSize + 4 := by
    rw [pageLength, show (empty filename pageSize sparse).pageSize = pageSize from rfl]
    split <;> omega
  have hzero : (empty filename pageSize sparse).size = 0 := rfl
  rcases appendFreeBlocks_eq (t := empty filename pageSize sparse)
    (Nat.le_trans (by decide) hps) with ⟨hfull, -⟩ | ⟨-, hok⟩
  · omega
  · exact hok

/-- The creation stops before the header has its first free block. -/
theorem makeBlock_of_error {e : Failure} (hversion : calls.setStructureVersion = .error e) :
    ∃ t, (empty filename pageSize sparse).grown.makeBlock calls .table 0 = .error (e, t) ∧
      ¬ Safe t [] := by
  have hmagic := empty_grown_magic filename sparse hps
  have hsize := empty_grown_size filename sparse hps
  set t₁ := (empty filename pageSize sparse).grown with ht₁
  have hne : t₁.magicAt 0 ≠ DbType.table.magic := by
    rw [hmagic]
    decide
  obtain ⟨bs, hbs⟩ : ∃ bs, bs = DbType.table.magic ++ List.replicate (140 - 4) (0 : UInt8) :=
    ⟨_, rfl⟩
  have hlen : bs.length = 140 := by rw [hbs, List.length_append, length_magic, List.length_replicate]
  have hzero : bs.slice freeBlockField 8 = List.replicate 8 0 := by
    rw [hbs, List.slice_append_right _ _ (by rw [length_magic]; decide), List.slice,
      List.drop_replicate, List.take_replicate]
    rfl
  have hblock : t₁.allocateBlock .table 0 =
      .ok { t₁.write 0 bs with blocks := 0 :: t₁.blocks.erase 0 } := by
    rw [allocateBlock, if_neg (fun h => hne h.2), if_neg (fun h => h.2.2 hmagic)]
    simp only [DbType.staticSize]
    rw [if_neg (show magicAt { t₁ with blocks := t₁.blocks.erase 0 } 0 ≠ _ from hne), ← hbs]
    rfl
  refine ⟨{ t₁.write 0 bs with blocks := 0 :: t₁.blocks.erase 0 }, ?_, ?_⟩
  · rw [makeBlock, hblock, ok_bind, hversion]
    rfl
  · have hkeep : (t₁.write 0 bs).size = t₁.size :=
      List.length_overwrite_of_le (by rw [size] at hsize; omega)
    refine not_safe_of_zero ?_ (Nat.lt_of_lt_of_le (by decide) hps) ?_
    · have hfirst : (t₁.bytes.overwrite 0 bs).slice freeBlockField 8 = List.replicate 8 0 := by
        rw [List.overwrite, List.take_zero, List.nil_append,
          List.slice_append_left _ (by rw [hlen]; decide), hzero]
      exact congrArg ofBytes hfirst
    · rw [show size { t₁.write 0 bs with blocks := 0 :: t₁.blocks.erase 0 } = t₁.size from hkeep]
      show 2 * pageSize ≤ _
      omega

/-- The list of a file that is not sparse leads out of the file at its first block. -/
theorem create_not_sparse (hversion : calls.setStructureVersion = .ok ()) (heven : 2 ∣ pageSize)
    (hmax : pageSize < maxFileSize) :
    ∃ t, (empty filename pageSize false).grown.makeBlock calls .table 0 = .ok (t, 0) ∧
      Leaves (finish calls pageSize (t, 0)) fun t => ¬ Safe t [] := by
  have hmagic := empty_grown_magic filename false hps
  have hsize := empty_grown_size filename false hps
  have hlen : (empty filename pageSize false).pageLength = pageSize + 4 := rfl
  have hpage := slice_extend_page (t := empty filename pageSize false)
    (l := (List.range 16).map (nextOffset 0 pageSize)) (o := 4) (n := 8)
    (Nat.le_trans (by decide) hps) (show 1 < 16 by decide) (by rw [hlen]; omega)
  set t₁ := (empty filename pageSize false).grown with ht₁
  obtain ⟨t, hmake, hkeep, -⟩ := makeBlock_eq (t := t₁) (a := 0)
    (show 0 + pageSize ≤ _ by omega) hps hversion (show DbType.table ≠ .freeBlock by decide)
    (by decide) hmagic
  have hsizet : 16 * pageSize ≤ t.size := by rw [hkeep.size]; exact hsize
  have hpst : t.pageSize = pageSize := hkeep.pageSize
  -- the reference of the page is the version and half of the offset that were written
  have hodd : ¬ 2 ∣ ofBytes (t.bytes.slice (pageSize + freeBlockField) 8) := by
    have hbytes : t₁.bytes.slice (pageSize + freeBlockField) 8 =
        toBytes 4 1 ++ (toBytes 8 (nextOffset 0 pageSize 1)).take 4 := by
      have hwhere : pageSize + freeBlockField = 0 + 1 * (pageSize + 4) + 4 := by
        rw [freeBlockField]
        omega
      rw [hwhere]
      exact hpage
    have hone : ofBytes (toBytes 4 1) = 1 := UInt512.ofBytes_toBytes 4 1
    rw [hkeep.slice _ 8 (.inr (show 0 + pageSize ≤ _ by omega)), hbytes, UInt512.ofBytes_append,
      hone, UInt512.length_toBytes]
    omega
  have hfield : 0 + freeBlockField + 8 ≤ t.size := by rw [freeBlockField]; omega
  set t₂ := t.setReference (0 + freeBlockField) pageSize with ht₂
  have hsize₂ : t₂.size = t.size := size_setReference _ hfield
  have hfield' : 0 + lastOidField + 8 ≤ t₂.size := by rw [hsize₂, lastOidField]; omega
  have hmax' : maxFileSize < 2 ^ 64 := by decide
  have hfirst : t₂.reference freeBlockField = pageSize := by
    have hset := reference_setReference hfield (show pageSize < 2 ^ 64 by omega)
    rw [Nat.zero_add] at hset
    rw [ht₂, Nat.zero_add]
    exact hset
  have hsecond : t₂.reference (pageSize + freeBlockField) =
      ofBytes (t.bytes.slice (pageSize + freeBlockField) 8) := by
    rw [reference, slice_setReference _ hfield (by rw [freeBlockField]; omega)]
  have hpos : pageSize ≠ 0 := by omega
  refine ⟨t, hmake, leaves_finish ?_ ?_⟩
  · exact not_safe_of_odd hfirst hpos (by rw [hsecond]; exact hodd) (hpst.symm ▸ heven)
      (show 0 < t.pageSize by omega)
  · refine not_safe_of_odd (a := pageSize) ?_ hpos ?_ (hpst.symm ▸ heven)
      (show 0 < t.pageSize by omega)
    · rw [reference, slice_setReference _ hfield' (.inl (by decide))]
      exact hfirst
    · rw [reference, slice_setReference _ hfield' (by rw [freeBlockField, lastOidField]; omega),
        show ofBytes (t₂.bytes.slice _ 8) = _ from hsecond]
      exact hodd

end NewFile

/-- The calls on a header only write in memory. -/
def NoIo (calls : BlockCalls) : Prop :=
  ∀ o ∈ [calls.setStructureVersion, calls.setBlockSize, calls.setFileVersion], ∀ e,
    o = .error e → e.isIoError = false

theorem Leaves.absurd {calls : BlockCalls} (hio : NoIo calls) {pageSize : ℕ}
    {header : TableBlocks × ℕ} {P : TableBlocks → Prop}
    (h : Leaves (finish calls pageSize header) P)
    (h' : Leaves (finish calls pageSize header) fun t => ¬ P t) : False := by
  rw [finish] at h h'
  cases hsize : calls.setBlockSize with
  | error e =>
    rw [hsize] at h h'
    have he := hio _ (by simp) e hsize
    exact h' he (h he)
  | ok _ =>
    cases hfile : calls.setFileVersion with
    | error e =>
      rw [hsize, hfile] at h h'
      have he := hio _ (by simp) e hfile
      exact h' he (h he)
    | ok _ =>
      rw [hsize, hfile] at h h'
      exact h' h

/-- A file whose creation stops at the version of its header is not safe. -/
theorem not_allocationSafe_of_error (filename : String) {pageSize : ℕ} (hps : 140 ≤ pageSize)
    (hmax : 16 * (pageSize + 4) < maxFileSize) (sparse : Bool) {e : Failure}
    (hversion : calls.setStructureVersion = .error e) (he : e.isIoError = false) :
    ¬ AllocationSafe calls filename pageSize sparse := fun h => by
  have hempty := (allocationSafe_eq filename pageSize sparse).1 h [] (fun c hc => nomatch hc)
  obtain ⟨t, hmake, hunsafe⟩ := makeBlock_of_error filename sparse hps hversion
  rw [create_eq, appendFreeBlocks_empty filename hps hmax, ok_bind, hmake] at hempty
  exact hunsafe (RunSafe.safe (hempty he))

/-- **No page is handed out twice and none is lost** in any run with the known types of blocks,
exactly when the file is sparse and the version of a structure can be set. -/
theorem allocationSafe_iff (filename : String) {pageSize : ℕ} (hps : 140 ≤ pageSize)
    (heven : 2 ∣ pageSize) (hmax : 16 * (pageSize + 4) < maxFileSize) (sparse : Bool)
    (hio : NoIo calls) :
    AllocationSafe calls filename pageSize sparse ↔
      sparse = true ∧ calls.setStructureVersion = .ok () := by
  constructor
  · intro h
    cases hversion : calls.setStructureVersion with
    | error e =>
      have he := hio _ (by simp) e hversion
      exact absurd h (not_allocationSafe_of_error filename hps hmax sparse hversion he)
    | ok _ =>
      refine ⟨?_, rfl⟩
      cases sparse with
      | true => rfl
      | false =>
        have hempty := (allocationSafe_eq filename pageSize false).1 h [] (fun c hc => nomatch hc)
        obtain ⟨t, hmake, hunsafe⟩ := create_not_sparse filename hps hversion heven (by omega)
        rw [create_eq, appendFreeBlocks_empty filename hps hmax, ok_bind, hmake, ok_bind] at hempty
        exact (Leaves.absurd hio hempty hunsafe).elim
  · rintro ⟨rfl, hversion⟩
    exact allocationSafe_of_sparse filename hps hversion

theorem noIo_default : NoIo {} := fun o ho e he => by
  simp only [List.mem_cons, List.not_mem_nil, or_false, or_self] at ho
  rw [ho] at he
  cases he

theorem allocationSafe_sparse : AllocationSafe {} "data" 4096 true := by
  have hps : 140 ≤ 4096 := by norm_num
  have heven : 2 ∣ 4096 := by norm_num
  have hmax : 16 * (4096 + 4) < maxFileSize := by rw [maxFileSize]; norm_num
  rw [allocationSafe_iff "data" hps heven hmax true noIo_default]
  exact ⟨rfl, rfl⟩

theorem code_not_allocationSafe : ¬ AllocationSafe BlockCalls.code "data" 4096 true :=
  not_allocationSafe_of_error "data" (by norm_num) (by rw [maxFileSize]; norm_num) true
    BlockCalls.code_setStructureVersion rfl

end TableBlocks

end Prinbee
