import Mathlib.Algebra.Order.BigOperators.Group.List
import Mathlib.Algebra.Order.Group.Nat
import Prinbee.Data.Convert
import Prinbee.Lib.Splice

/-!
# The pages of a table file in memory

`dbfile::data()` maps the page of an offset, unless it is mapped already, and `release_data()`
unmaps the page of an address.  A page that gets mapped is returned at the byte of the offset; a
page that was mapped is returned at its start.

## Main definitions

* `PageSize` — the sizes that a page may have.
* `MappedPage`, `Mmap`, `DbFile` — a file and its pages that are mapped, over what `mmap()` returns.
* `DbFile.data`, `DbFile.releaseData` — the two functions.
* `DbFile.Designates` — the byte of the file at an address.

## Main results

* `DbFile.designates_data_iff` — when `data()` returns the address of the byte it is asked for.
-/

namespace Prinbee

/-- What `dbfile::set_page_size()` makes of a size: pages of the system, whose size is a power of
two. -/
structure PageSize where
  exponent : ℕ
  count : ℕ
  exponent_ge : 5 ≤ exponent
  exponent_le : exponent ≤ 32
  count_pos : 0 < count

def PageSize.pageSize (p : PageSize) : ℕ := p.count * 2 ^ p.exponent

theorem PageSize.pageSize_ge (p : PageSize) : 32 ≤ p.pageSize :=
  calc 32 = 2 ^ 5 := rfl
    _ ≤ 2 ^ p.exponent := Nat.pow_le_pow_right (by decide) p.exponent_ge
    _ ≤ p.pageSize := Nat.le_mul_of_pos_left _ p.count_pos

/-- A page that is mapped: its offset in the file and its address. -/
structure MappedPage where
  pageStart : ℕ
  ptr : ℕ
  deriving DecidableEq, Repr

/-- Two pages of this size are at different places. -/
def MappedPage.Apart (size : ℕ) (m m' : MappedPage) : Prop :=
  m.ptr + size ≤ m'.ptr ∨ m'.ptr + size ≤ m.ptr

instance (size : ℕ) : Std.Symm (MappedPage.Apart size) := ⟨fun _ _ => Or.symm⟩

/-- `mmap()` finds a place for a page that is not one of the pages that are mapped. -/
structure Mmap where
  address : ℕ → List MappedPage → ℕ → ℕ
  apart : ∀ size pages pageStart, ∀ m ∈ pages,
    MappedPage.Apart size ⟨pageStart, address size pages pageStart⟩ m

/-- Pages are mapped after one another. -/
def Mmap.upward : Mmap where
  address size pages _ := (pages.map (·.ptr + size)).sum
  apart size pages pageStart m hm := by
    refine .inr ?_
    exact List.single_le_sum (fun _ _ => Nat.zero_le _) _ (List.mem_map_of_mem hm)

/-- A file and its pages that are mapped, in `f_pages`. -/
structure DbFile where
  page : PageSize
  bytes : Bytes
  pages : List MappedPage := []

namespace DbFile

variable (mmap : Mmap) (f : DbFile)

/-- `f_page_size`. -/
def pageSize : ℕ := f.page.pageSize

/-- The start of the page of an offset. -/
def pageStart (offset : ℕ) : ℕ := offset - offset % f.pageSize

def findPage (offset : ℕ) : Option MappedPage :=
  f.pages.find? (·.pageStart = f.pageStart offset)

/-- `data()`. -/
def data (offset : ℕ) : ℕ × DbFile :=
  match f.findPage offset with
  | some m => (m.ptr, f)
  | none =>
    let ptr := mmap.address f.pageSize f.pages (f.pageStart offset)
    (ptr + offset % f.pageSize, { f with pages := ⟨f.pageStart offset, ptr⟩ :: f.pages })

/-- `release_data()`. -/
def releaseData (ptr : ℕ) : Except Failure DbFile :=
  let pagePtr := ptr - ptr % f.pageSize
  match f.pages.find? (·.ptr = pagePtr) with
  | none => .error (.thrown .pageNotFound
      ("page " ++ toString pagePtr ++ " not found. It cannot be unmapped."))
  | some m => .ok { f with pages := f.pages.erase m }

/-- The page that an address is in is mapped, with this byte of the file at the address. -/
def Designates (ptr offset : ℕ) : Prop :=
  ∃ m ∈ f.pages, m.ptr ≤ ptr ∧ ptr < m.ptr + f.pageSize ∧ offset = m.pageStart + (ptr - m.ptr)

/-- Where in the file the bytes at an address are, when they all are of one page and of the file. -/
def offsetOf (ptr n : ℕ) : Option ℕ :=
  (f.pages.find? fun m => m.ptr ≤ ptr ∧ ptr + n ≤ m.ptr + f.pageSize).bind fun m =>
    let offset := m.pageStart + (ptr - m.ptr)
    if offset + n ≤ f.bytes.length then some offset else none

/-- Bytes read through an address. -/
def load (ptr n : ℕ) : Option Bytes := (f.offsetOf ptr n).map fun offset => f.bytes.slice offset n

/-- Bytes written through an address. -/
def store (ptr : ℕ) (bytes : Bytes) : Option DbFile :=
  (f.offsetOf ptr bytes.length).map fun offset =>
    { f with bytes := f.bytes.overwrite offset bytes }

/-! ### The pages that are mapped -/

/-- Pages start at multiples of their size, each is mapped once, and no two share an address. -/
structure Mapped (f : DbFile) : Prop where
  starts : (f.pages.map (·.pageStart)).Nodup
  dvd : ∀ m ∈ f.pages, f.pageSize ∣ m.pageStart
  apart : f.pages.Pairwise (MappedPage.Apart f.pageSize)

variable {mmap f} {m : MappedPage} {offset ptr n : ℕ}

theorem pageSize_pos : 0 < f.pageSize := lt_of_lt_of_le (by decide) f.page.pageSize_ge

theorem dvd_pageStart (f : DbFile) (offset : ℕ) : f.pageSize ∣ f.pageStart offset :=
  Nat.dvd_sub_mod offset

theorem pageStart_add_mod (f : DbFile) (offset : ℕ) :
    f.pageStart offset + offset % f.pageSize = offset :=
  Nat.sub_add_cancel (Nat.mod_le _ _)

theorem mod_lt (f : DbFile) (offset : ℕ) : offset % f.pageSize < f.pageSize :=
  Nat.mod_lt _ f.pageSize_pos

theorem mem_of_findPage (h : f.findPage offset = some m) :
    m ∈ f.pages ∧ m.pageStart = f.pageStart offset :=
  ⟨List.mem_of_find?_eq_some h, by simpa using List.find?_some h⟩

/-- What `data()` returns, and the pages after it. -/
theorem data_of_some (mmap : Mmap) (h : f.findPage offset = some m) :
    f.data mmap offset = (m.ptr, f) := by
  rw [data, h]

theorem exists_data_of_none (mmap : Mmap) (h : f.findPage offset = none) :
    ∃ ptr, f.data mmap offset = (ptr + offset % f.pageSize,
        { f with pages := ⟨f.pageStart offset, ptr⟩ :: f.pages }) ∧
      ∀ m ∈ f.pages, MappedPage.Apart f.pageSize ⟨f.pageStart offset, ptr⟩ m := by
  refine ⟨mmap.address f.pageSize f.pages (f.pageStart offset), ?_, mmap.apart _ _ _⟩
  rw [data, h]

@[simp] theorem data_page (f : DbFile) (mmap : Mmap) (offset : ℕ) :
    (f.data mmap offset).2.page = f.page := by
  unfold DbFile.data
  split <;> rfl

@[simp] theorem data_bytes (f : DbFile) (mmap : Mmap) (offset : ℕ) :
    (f.data mmap offset).2.bytes = f.bytes := by
  unfold DbFile.data
  split <;> rfl

theorem Mapped.data (h : f.Mapped) (mmap : Mmap) (offset : ℕ) : (f.data mmap offset).2.Mapped := by
  cases hfind : f.findPage offset with
  | some m =>
    rw [data_of_some mmap hfind]
    exact h
  | none =>
    obtain ⟨ptr, hdata, hapart⟩ := exists_data_of_none mmap hfind
    rw [hdata]
    constructor
    · rw [List.map_cons, List.nodup_cons]
      refine ⟨fun hmem => ?_, h.starts⟩
      obtain ⟨m, hm, hstart⟩ := List.mem_map.1 hmem
      exact List.find?_eq_none.1 hfind m hm (decide_eq_true hstart)
    · intro m hm
      obtain rfl | hm := List.mem_cons.1 hm
      · exact f.dvd_pageStart offset
      · exact h.dvd m hm
    · exact List.pairwise_cons.2 ⟨hapart, h.apart⟩

/-- `release_data()` only unmaps. -/
theorem releaseData_eq {f' : DbFile} (h : f.releaseData ptr = .ok f') :
    ∃ m, f' = { f with pages := f.pages.erase m } := by
  unfold DbFile.releaseData at h
  dsimp only at h
  split at h
  · cases h
  · cases h
    exact ⟨_, rfl⟩

theorem Mapped.releaseData {f' : DbFile} (h : f.Mapped) (hrelease : f.releaseData ptr = .ok f') :
    f'.Mapped := by
  obtain ⟨m, rfl⟩ := releaseData_eq hrelease
  constructor
  · exact h.starts.sublist (List.erase_sublist.map _)
  · exact fun m hm => h.dvd m (List.mem_of_mem_erase hm)
  · exact h.apart.sublist List.erase_sublist

/-- An address is in one page at most. -/
theorem Mapped.eq_of_mem (h : f.Mapped) {m m' : MappedPage} (hm : m ∈ f.pages) (hm' : m' ∈ f.pages)
    (hlo : m.ptr ≤ ptr) (hhi : ptr < m.ptr + f.pageSize) (hlo' : m'.ptr ≤ ptr)
    (hhi' : ptr < m'.ptr + f.pageSize) : m = m' := by
  by_contra hne
  have hapart := h.apart.forall hm hm' hne
  unfold MappedPage.Apart at hapart
  omega

/-- The byte at an address of a page. -/
theorem Mapped.designates_iff (h : f.Mapped) (hm : m ∈ f.pages) (hlo : m.ptr ≤ ptr)
    (hhi : ptr < m.ptr + f.pageSize) :
    f.Designates ptr offset ↔ offset = m.pageStart + (ptr - m.ptr) := by
  constructor
  · rintro ⟨m', hm', hlo', hhi', hoffset⟩
    rwa [h.eq_of_mem hm hm' hlo hhi hlo' hhi']
  · intro hoffset
    exact ⟨m, hm, hlo, hhi, hoffset⟩

/-- The page that the bytes at an address are read from. -/
theorem Mapped.find?_eq (h : f.Mapped) (hm : m ∈ f.pages) (hn : 0 < n) (hlo : m.ptr ≤ ptr)
    (hhi : ptr + n ≤ m.ptr + f.pageSize) :
    f.pages.find? (fun m => m.ptr ≤ ptr ∧ ptr + n ≤ m.ptr + f.pageSize) = some m := by
  cases hfind : f.pages.find? (fun m => m.ptr ≤ ptr ∧ ptr + n ≤ m.ptr + f.pageSize) with
  | none => exact absurd (decide_eq_true ⟨hlo, hhi⟩) (List.find?_eq_none.1 hfind m hm)
  | some m' =>
    have hm' : m' ∈ f.pages := List.mem_of_find?_eq_some hfind
    obtain ⟨hlo', hhi'⟩ : m'.ptr ≤ ptr ∧ ptr + n ≤ m'.ptr + f.pageSize := by
      simpa using List.find?_some hfind
    rw [h.eq_of_mem hm hm' hlo (by omega) hlo' (by omega)]

/-- The first bytes of a page that are read. -/
theorem Mapped.load_ptr (h : f.Mapped) (hm : m ∈ f.pages) (hn : 0 < n) (hsize : n ≤ f.pageSize) :
    f.load m.ptr n =
      if m.pageStart + n ≤ f.bytes.length then some (f.bytes.slice m.pageStart n) else none := by
  rw [load, offsetOf, h.find?_eq hm hn le_rfl (Nat.add_le_add_left hsize _), Option.bind_some]
  simp only [Nat.sub_self, Nat.add_zero]
  split <;> rfl

/-- The page of an offset is mapped by `data()`, which returns its start when that is the byte or
the page was mapped. -/
theorem exists_data_eq (mmap : Mmap) (offset : ℕ)
    (h : offset % f.pageSize = 0 ∨ (f.findPage offset).isSome) :
    ∃ m pages, f.data mmap offset = (m.ptr, { f with pages := pages }) ∧
      DbFile.findPage { f with pages := pages } offset = some m := by
  cases hfind : f.findPage offset with
  | some m => exact ⟨m, f.pages, data_of_some mmap hfind, hfind⟩
  | none =>
    have hstart : offset % f.pageSize = 0 := by simpa [hfind] using h
    obtain ⟨ptr, hdata, -⟩ := exists_data_of_none mmap hfind
    refine ⟨⟨f.pageStart offset, ptr⟩, ⟨f.pageStart offset, ptr⟩ :: f.pages, ?_, ?_⟩
    · rw [hdata, hstart, Nat.add_zero]
    · exact List.find?_cons_of_pos (decide_eq_true rfl)

/-- **`data()` returns the address of the byte at the offset** when that byte is the first of its
page or the page was not mapped, and only then. -/
theorem designates_data_iff (h : f.Mapped) (mmap : Mmap) (offset : ℕ) :
    (f.data mmap offset).2.Designates (f.data mmap offset).1 offset ↔
      offset % f.pageSize = 0 ∨ f.findPage offset = none := by
  have hmapped := h.data mmap offset
  have hoffset := f.pageStart_add_mod offset
  have hlt := f.mod_lt offset
  cases hfind : f.findPage offset with
  | some m =>
    obtain ⟨hm, hstart⟩ := mem_of_findPage hfind
    have hend : m.ptr < m.ptr + f.pageSize := Nat.lt_add_of_pos_right f.pageSize_pos
    rw [data_of_some mmap hfind, h.designates_iff hm le_rfl hend, hstart]
    simp only [reduceCtorEq, or_false]
    omega
  | none =>
    obtain ⟨ptr, hdata, -⟩ := exists_data_of_none mmap hfind
    rw [hdata] at hmapped ⊢
    refine iff_of_true ?_ (.inr rfl)
    refine ⟨_, List.mem_cons_self, Nat.le_add_right _ _, ?_, ?_⟩
    · exact Nat.add_lt_add_left hlt ptr
    · simpa using hoffset.symm

end DbFile

end Prinbee
