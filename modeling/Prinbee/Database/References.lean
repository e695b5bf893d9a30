import Prinbee.Data.DbFile
import Prinbee.Database.BlockAllocationSafety
import Prinbee.Lib.Run

/-!
# References to the bytes of a table

A reference is an offset in the file of a table.  `get_block()` finds the type of the block a
reference is in, creates an object for it unless it has one for that reference, and `block::data()`
turns the reference into an address.

An object is unmapped with its last user.

## Main definitions

* `CachedBlock`, `TableImpl` — the file of a table and the blocks in `f_blocks`.
* `TableImpl.getBlock` — `get_block()`.
* `TableImpl.Resolves` — what the calls have to do with the reference they are given.
* `TableImpl.Meets` — the calls that do it.

## Main results

* `TableImpl.getBlock_eq` — a block that is found.
* `TableImpl.resolves_run` — in a run of calls that all meet the condition, all of them do what they
  have to.
-/

namespace Prinbee

/-- A block: the reference it was asked for with, its class, and its data. -/
structure CachedBlock where
  offset : ℕ
  type : DbType
  data : ℕ
  deriving DecidableEq, Repr

/-- `block::data()` in pages of this size. -/
def CachedBlock.dataAt (b : CachedBlock) (pageSize reference : ℕ) : ℕ :=
  b.data + reference % pageSize

/-- The file of a table, and the blocks in `f_blocks`. -/
structure TableImpl where
  dbfile : DbFile
  blocks : List CachedBlock := []

namespace TableImpl

/-- A call that throws leaves the table in some state. -/
abbrev Outcome (α : Type) := Except (Failure × TableImpl) α

/-- `BLOCK_HEADER_SIZE`. -/
def blockHeaderSize : ℕ := 8

/-- `to_name()` of a magic word. -/
def toName (word : Bytes) : String :=
  match DbType.ofMagic word with
  | none => "Invalid"
  | some type => type.toName

variable (mmap : Mmap) (calls : BlockCalls) (t : TableImpl)

/-- `get_dbtype()`. -/
def getDbtype (b : CachedBlock) : Option Bytes := t.dbfile.load b.data 4

/-- `set_dbtype()` of a block whose structure has so many bytes. -/
def setDbtype (b : CachedBlock) (size : ℕ) : Option TableImpl :=
  (t.getDbtype b).bind fun word =>
    if word = b.type.magic then some t
    else
      (t.dbfile.store b.data (b.type.magic ++ List.replicate (size - 4) 0)).map fun dbfile =>
        { t with dbfile := dbfile }

/-- The block that `allocate_block()` creates. -/
def createBlock (word : Bytes) (offset : ℕ) : Outcome (CachedBlock × TableImpl) :=
  match (DbType.ofMagic word).bind fun type => type.staticSize.map fun size => (type, size) with
  | none =>
    .error (.thrown .logicError
      ("allocate_block() called with an unknown dbtype_t value (" ++ toName word ++ ")."), t)
  | some (type, size) =>
    let (data, dbfile) := t.dbfile.data mmap offset
    let b : CachedBlock := ⟨offset, type, data⟩
    let t := { t with dbfile := dbfile }
    match t.setDbtype b size with
    | none => .error (.undefinedBehavior, t)
    | some t => .ok (b, { t with blocks := b :: t.blocks })

/-- `allocate_block()`.  A block that it replaces may have other users than the table. -/
def allocateBlock (word : Bytes) (offset : ℕ) (shared : Bool) :
    Outcome (CachedBlock × TableImpl) :=
  match t.blocks.find? (·.offset = offset) with
  | none => t.createBlock mmap word offset
  | some b =>
    match t.getDbtype b with
    | none => .error (.undefinedBehavior, t)
    | some dbtype =>
      if word = dbtype then .ok (b, t)
      else if word ≠ DbType.freeBlock.magic ∧ dbtype ≠ DbType.freeBlock.magic then
        .error (.thrown .logicError
          ("allocate_block() called a non-free block type trying to allocate a non-free block ("
            ++ toName word
            ++ "). You can go from a free to non-free and non-free to free only."), t)
      else
        let t := { t with blocks := t.blocks.erase b }
        -- without other users this is the end of the block
        match if shared then .ok t.dbfile else t.dbfile.releaseData b.data with
        | .error e => .error (e, t)
        | .ok dbfile => createBlock mmap { t with dbfile := dbfile } word offset

/-- `get_block()`. -/
def getBlock (offset : ℕ) (shared : Bool) : Outcome (CachedBlock × TableImpl) :=
  if offset ≠ 0 ∧ t.dbfile.bytes.length ≤ offset then
    .error (.thrown .logicError
      "Requested a block with an offset >= to the existing file size.", t)
  else
    match calls.getBlock with
    | .error e => .error (e, t)
    | .ok () =>
      let (data, dbfile) := t.dbfile.data mmap offset
      let t := { t with dbfile := dbfile }
      match t.dbfile.load data blockHeaderSize with
      | none => .error (.undefinedBehavior, t)
      | some header => t.allocateBlock mmap (header.take 4) offset shared

/-- A file that was just opened. -/
def opened (page : PageSize) (bytes : Bytes) : TableImpl where
  dbfile := { page := page, bytes := bytes }

/-! ### Runs -/

/-- The calls. -/
inductive Call
  | data (offset : ℕ)
  | releaseData (ptr : ℕ)
  | getBlock (reference : ℕ) (shared : Bool)
  | reopen

/-- A call.  One that throws may have changed the table. -/
def step : Call → TableImpl
  | .data offset => { t with dbfile := (t.dbfile.data mmap offset).2 }
  | .releaseData ptr =>
    match t.dbfile.releaseData ptr with
    | .error _ => t
    | .ok dbfile => { t with dbfile := dbfile }
  | .getBlock reference shared =>
    match t.getBlock mmap calls reference shared with
    | .error (_, t) => t
    | .ok (_, t) => t
  | .reopen => opened t.dbfile.page t.dbfile.bytes

/-- The reference is to a byte of the file in a page of this type. -/
structure InPage (reference : ℕ) (type : DbType) : Prop where
  lt_length : reference < t.dbfile.bytes.length
  header : t.dbfile.pageStart reference + blockHeaderSize ≤ t.dbfile.bytes.length
  magic : t.dbfile.bytes.slice (t.dbfile.pageStart reference) 4 = type.magic
  known : type.staticSize ≠ none

/-- What a call has to do: `data()` returns the address of the byte, and `get_block()` a block of
the type of the page whose `data()` returns it. -/
def Resolves : Call → Prop
  | .data offset =>
    offset < t.dbfile.bytes.length →
      (t.dbfile.data mmap offset).2.Designates (t.dbfile.data mmap offset).1 offset
  | .getBlock reference shared =>
    ∀ type, t.InPage reference type →
      ∃ b t', t.getBlock mmap calls reference shared = .ok (b, t') ∧ b.type = type ∧
        t'.dbfile.Designates (b.dataAt t'.dbfile.pageSize reference) reference
  | _ => True

/-- The condition, for bytes of the file: `data()` is asked for the start of a page or for a page
that is not mapped, and `get_block()` for the start of a page or for one that is mapped, which then
is where a block for the reference has its data. -/
def Meets : Call → Prop
  | .data offset =>
    t.dbfile.bytes.length ≤ offset ∨ offset % t.dbfile.pageSize = 0 ∨
      t.dbfile.findPage offset = none
  | .getBlock reference _ =>
    (reference ≠ 0 ∧ t.dbfile.bytes.length ≤ reference) ∨
      calls.getBlock = .ok () ∧
        (reference % t.dbfile.pageSize = 0 ∨ (t.dbfile.findPage reference).isSome) ∧
        ∀ b ∈ t.blocks, b.offset = reference →
          t.dbfile.findPage reference = some ⟨t.dbfile.pageStart reference, b.data⟩
  | _ => True

/-- No page is mapped twice, and every block is of the type of its page. -/
structure Sound : Prop where
  mapped : t.dbfile.Mapped
  types : ∀ b ∈ t.blocks,
    t.dbfile.bytes.slice (t.dbfile.pageStart b.offset) 4 = b.type.magic

variable {mmap calls t} {reference : ℕ} {shared : Bool} {type : DbType} {m : MappedPage}

theorem sound_opened (page : PageSize) (bytes : Bytes) : (opened page bytes).Sound where
  mapped :=
    { starts := List.nodup_nil
      dvd := by simp [opened]
      apart := List.Pairwise.nil }
  types := by simp [opened]

/-- Mapping and unmapping changes neither the file nor the blocks. -/
theorem Sound.withDbfile (h : t.Sound) {f : DbFile} (hf : f.Mapped) (hpage : f.page = t.dbfile.page)
    (hbytes : f.bytes = t.dbfile.bytes) : Sound { t with dbfile := f } where
  mapped := hf
  types := by
    intro b hb
    have htype := h.types b hb
    simp only [DbFile.pageStart, DbFile.pageSize] at htype ⊢
    rw [hpage, hbytes]
    exact htype

/-- The reference is to a page that is mapped, whose header is in the file. -/
structure Located (t : TableImpl) (reference : ℕ) (m : MappedPage) : Prop where
  findPage : t.dbfile.findPage reference = some m
  header : t.dbfile.pageStart reference + blockHeaderSize ≤ t.dbfile.bytes.length

/-- The magic word of the page. -/
def word (t : TableImpl) (reference : ℕ) : Bytes :=
  t.dbfile.bytes.slice (t.dbfile.pageStart reference) 4

section Page

variable (h : t.Sound) (hlocated : t.Located reference m)

include h hlocated

theorem getDbtype_eq {b : CachedBlock} (hdata : b.data = m.ptr) :
    t.getDbtype b = some (t.word reference) := by
  obtain ⟨hm, hstart⟩ := DbFile.mem_of_findPage hlocated.findPage
  have hsize : 4 ≤ t.dbfile.pageSize := le_trans (by decide) t.dbfile.page.pageSize_ge
  have hheader := hlocated.header
  rw [getDbtype, hdata, h.mapped.load_ptr hm (by decide) hsize, hstart, if_pos]
  · rfl
  · rw [blockHeaderSize] at hheader
    omega

/-- A block that is created over a page of its type. -/
theorem createBlock_eq (htype : t.word reference = type.magic) (hknown : type.staticSize ≠ none) :
    t.createBlock mmap type.magic reference =
      .ok (⟨reference, type, m.ptr⟩,
        { t with blocks := ⟨reference, type, m.ptr⟩ :: t.blocks }) := by
  obtain ⟨size, hsize⟩ := Option.ne_none_iff_exists'.1 hknown
  have hword : t.getDbtype ⟨reference, type, m.ptr⟩ = some type.magic := by
    rw [getDbtype_eq h hlocated rfl, htype]
  have hset : t.setDbtype ⟨reference, type, m.ptr⟩ size = some t := by
    rw [setDbtype, hword, Option.bind_some, if_pos rfl]
  unfold createBlock
  rw [TableBlocks.DbType_ofMagic, Option.bind_some, hsize, Option.map_some]
  simp only [DbFile.data_of_some mmap hlocated.findPage, hset]

/-- What `allocate_block()` does with the magic word of a page, when the block it has for the
reference, if any, has its data there: it finds the block or creates it, unless no block has that
word. -/
theorem allocateBlock_cases (mmap : Mmap) (shared : Bool)
    (hcached : ∀ b ∈ t.blocks, b.offset = reference → b.data = m.ptr) :
    (∃ e, t.allocateBlock mmap (t.word reference) reference shared = .error (e, t) ∧
        ∀ type : DbType, t.word reference = type.magic → type.staticSize = none) ∨
      ∃ b blocks, t.allocateBlock mmap (t.word reference) reference shared =
          .ok (b, { t with blocks := blocks }) ∧
        b.data = m.ptr ∧ t.word reference = b.type.magic ∧ ∀ b' ∈ blocks, b' ∈ t.blocks ∨
          b'.offset = reference ∧ t.word reference = b'.type.magic := by
  unfold allocateBlock
  cases hfind : t.blocks.find? (·.offset = reference) with
  | some b =>
    have hb : b ∈ t.blocks := List.mem_of_find?_eq_some hfind
    have hoffset : b.offset = reference := by simpa using List.find?_some hfind
    have hdata : b.data = m.ptr := hcached b hb hoffset
    have htype : t.word reference = b.type.magic := hoffset ▸ h.types b hb
    refine .inr ⟨b, t.blocks, ?_, hdata, htype, fun b' hb' => .inl hb'⟩
    simp only [getDbtype_eq h hlocated hdata, if_pos]
  | none =>
    simp only
    by_cases hknown : ∃ type : DbType, t.word reference = type.magic ∧ type.staticSize ≠ none
    · obtain ⟨type, htype, hsize⟩ := hknown
      rw [htype]
      refine .inr ⟨_, _, createBlock_eq h hlocated htype hsize, rfl, rfl, fun b' hb' => ?_⟩
      obtain rfl | hb' := List.mem_cons.1 hb'
      · exact .inr ⟨rfl, rfl⟩
      · exact .inl hb'
    · have hnone : ∀ type : DbType, t.word reference = type.magic → type.staticSize = none := by
        intro type htype
        by_contra hsize
        exact hknown ⟨type, htype, hsize⟩
      have hcreate : ∃ e, t.createBlock mmap (t.word reference) reference = .error (e, t) := by
        unfold createBlock
        cases htype : DbType.ofMagic (t.word reference) with
        | none => exact ⟨_, rfl⟩
        | some type =>
          -- a magic word that no block has
          have hmagic : type.magic = t.word reference := by simpa using List.find?_some htype
          rw [Option.bind_some, hnone type hmagic.symm]
          exact ⟨_, rfl⟩
      obtain ⟨e, he⟩ := hcreate
      exact .inl ⟨e, he, hnone⟩

end Page

/-- A page that is mapped by a call to `data()`. -/
theorem Sound.data (h : t.Sound) (mmap : Mmap) (calls : BlockCalls) (offset : ℕ) :
    (t.step mmap calls (.data offset)).Sound :=
  h.withDbfile (h.mapped.data mmap offset) (DbFile.data_page ..) (DbFile.data_bytes ..)

@[simp] theorem word_data (t : TableImpl) (mmap : Mmap) (calls : BlockCalls)
    (offset reference : ℕ) :
    (t.step mmap calls (.data offset)).word reference = t.word reference := by
  simp [word, step, DbFile.pageStart, DbFile.pageSize]

/-- With a reference that meets the condition `get_block()` reads the magic word of the page. -/
theorem getBlock_eq (mmap : Mmap) (h : t.Sound)
    (hmeets : t.Meets calls (.getBlock reference shared))
    (hin : ¬(reference ≠ 0 ∧ t.dbfile.bytes.length ≤ reference)) :
    ∃ m, (t.step mmap calls (.data reference)).dbfile.findPage reference = some m ∧
      (∀ b ∈ t.blocks, b.offset = reference → b.data = m.ptr) ∧
      t.getBlock mmap calls reference shared =
        if t.dbfile.pageStart reference + blockHeaderSize ≤ t.dbfile.bytes.length then
          (t.step mmap calls (.data reference)).allocateBlock mmap (t.word reference) reference
            shared
        else .error (.undefinedBehavior, t.step mmap calls (.data reference)) := by
  obtain hout | ⟨hcalls, hpage, hblocks⟩ := hmeets
  · exact absurd hout hin
  obtain ⟨m, pages, hdata, hfind⟩ := DbFile.exists_data_eq mmap reference hpage
  have hsound := h.data mmap calls reference
  have hstep : t.step mmap calls (.data reference) =
      { t with dbfile := { t.dbfile with pages := pages } } := by
    simp only [step, hdata]
  rw [hstep] at hsound ⊢
  refine ⟨m, hfind, fun b hb hoffset => ?_, ?_⟩
  · -- the page was mapped
    have hdata' := DbFile.data_of_some mmap (hblocks b hb hoffset)
    rw [hdata] at hdata'
    exact (congrArg Prod.fst hdata').symm
  · obtain ⟨hm, hstart⟩ := DbFile.mem_of_findPage hfind
    have hsize : blockHeaderSize ≤ t.dbfile.pageSize :=
      le_trans (by decide) t.dbfile.page.pageSize_ge
    have hload : DbFile.load { t.dbfile with pages := pages } m.ptr blockHeaderSize =
        if t.dbfile.pageStart reference + blockHeaderSize ≤ t.dbfile.bytes.length then
          some (t.dbfile.bytes.slice (t.dbfile.pageStart reference) blockHeaderSize)
        else none := by
      rw [hsound.mapped.load_ptr hm (by decide) hsize, hstart]
      rfl
    unfold getBlock
    rw [if_neg hin, hcalls]
    simp only [hdata, hload]
    by_cases hheader : t.dbfile.pageStart reference + blockHeaderSize ≤ t.dbfile.bytes.length
    · -- the magic word is the start of the header
      have hword : (t.dbfile.bytes.slice (t.dbfile.pageStart reference) blockHeaderSize).take 4 =
          t.word reference := by
        rw [List.slice, List.take_take]
        rfl
      simp only [if_pos hheader, hword]
    · simp only [if_neg hheader]

/-- What a call that meets the condition leaves. -/
theorem Sound.step (h : t.Sound) {c : Call} (hmeets : t.Meets calls c) :
    (t.step mmap calls c).Sound := by
  cases c with
  | data offset => exact h.data mmap calls offset
  | reopen => exact sound_opened _ _
  | releaseData ptr =>
    simp only [TableImpl.step]
    cases hrelease : t.dbfile.releaseData ptr with
    | error e => exact h
    | ok f =>
      obtain ⟨m, hf⟩ := DbFile.releaseData_eq hrelease
      exact h.withDbfile (h.mapped.releaseData hrelease) (by rw [hf]) (by rw [hf])
  | getBlock reference shared =>
    have hdata := h.data mmap calls reference
    by_cases hin : reference ≠ 0 ∧ t.dbfile.bytes.length ≤ reference
    · have hthrow : t.step mmap calls (.getBlock reference shared) = t := by
        simp only [TableImpl.step, getBlock, if_pos hin]
      rwa [hthrow]
    obtain ⟨m, hfind, hcached, heq⟩ := getBlock_eq mmap h hmeets hin
    rw [TableImpl.step, heq]
    by_cases hheader : t.dbfile.pageStart reference + blockHeaderSize ≤ t.dbfile.bytes.length
    · rw [if_pos hheader]
      have hlocated : (t.step mmap calls (.data reference)).Located reference m := by
        refine ⟨hfind, ?_⟩
        simpa [TableImpl.step, DbFile.pageStart, DbFile.pageSize] using hheader
      obtain ⟨e, herror, -⟩ | ⟨b, blocks, hok, -, -, hblocks⟩ :=
        allocateBlock_cases hdata hlocated mmap shared hcached
      · rw [word_data] at herror
        rw [herror]
        exact hdata
      · rw [word_data] at hok
        rw [hok]
        refine ⟨hdata.mapped, fun b' hb' => ?_⟩
        obtain hb' | ⟨rfl, htype⟩ := hblocks b' hb'
        · exact hdata.types b' hb'
        · exact htype
    · rw [if_neg hheader]
      exact hdata

/-- What a call that meets the condition does. -/
theorem resolves_of_meets (h : t.Sound) {c : Call} (hmeets : t.Meets calls c) :
    t.Resolves mmap calls c := by
  cases c with
  | data offset =>
    intro hlt
    obtain hle | hpage := hmeets
    · exact absurd hlt (Nat.not_lt.2 hle)
    · exact (DbFile.designates_data_iff h.mapped mmap offset).2 hpage
  | releaseData ptr => exact trivial
  | reopen => exact trivial
  | getBlock reference shared =>
    intro type hin
    have hdata := h.data mmap calls reference
    obtain ⟨m, hfind, hcached, heq⟩ :=
      getBlock_eq mmap h hmeets (fun hout => Nat.not_le.2 hin.lt_length hout.2)
    rw [if_pos hin.header] at heq
    have hlocated : (t.step mmap calls (.data reference)).Located reference m := by
      refine ⟨hfind, ?_⟩
      simpa [TableImpl.step, DbFile.pageStart, DbFile.pageSize] using hin.header
    have hword : (t.step mmap calls (.data reference)).word reference = type.magic := by
      rw [word_data]
      exact hin.magic
    obtain ⟨e, -, hnone⟩ | ⟨b, blocks, hok, hptr, htype, -⟩ :=
      allocateBlock_cases hdata hlocated mmap shared hcached
    · exact absurd (hnone type hword) hin.known
    · rw [word_data] at hok
      refine ⟨b, _, heq.trans hok, ?_, ?_⟩
      · rw [hword] at htype
        have hof := TableBlocks.DbType_ofMagic b.type
        rw [← htype, TableBlocks.DbType_ofMagic] at hof
        exact (Option.some.inj hof).symm
      · -- the page of the reference is where the block has its data
        obtain ⟨hm, hstart⟩ := DbFile.mem_of_findPage hfind
        refine ⟨m, hm, ?_, ?_, ?_⟩
        · rw [CachedBlock.dataAt, hptr]
          exact Nat.le_add_right _ _
        · rw [CachedBlock.dataAt, hptr]
          exact Nat.add_lt_add_left (DbFile.mod_lt _ reference) _
        · rw [CachedBlock.dataAt, hptr, hstart, Nat.add_sub_cancel_left]
          exact (DbFile.pageStart_add_mod _ reference).symm

/-- **In a run of calls that all meet the condition, references are resolved.** -/
theorem resolves_run (mmap : Mmap) (calls : BlockCalls) (page : PageSize) (bytes : Bytes)
    (cs : List Call) (hmeets : Run.Each (Meets calls) (step mmap calls) (opened page bytes) cs) :
    Run.Each (Resolves mmap calls) (step mmap calls) (opened page bytes) cs :=
  hmeets.imp Sound (fun _ _ h hc => h.step hc) (fun _ _ h hc => resolves_of_meets h hc)
    (sound_opened page bytes)

/-- Blocks are found and found again, also after their page was mapped at another byte. -/
theorem resolves_run_two :
    let page : PageSize := ⟨5, 1, by decide, by decide, by decide⟩
    let bytes : Bytes := DbType.table.magic ++ List.replicate 28 0 ++
      (DbType.data.magic ++ List.replicate 28 0)
    Run.Each (Resolves .upward {}) (step .upward {}) (opened page bytes)
      [.data 32, .getBlock 37 true, .getBlock 37 true, .reopen, .data 5, .getBlock 0 true] := by
  intro page bytes
  refine resolves_run _ _ _ _ _ ⟨?_, ?_, ?_, ?_, ?_, ?_, ?_⟩
  · exact .inr (.inl (by decide))
  · exact .inr ⟨rfl, .inr (by decide), by decide⟩
  · exact .inr ⟨rfl, .inr (by decide), by decide⟩
  · exact trivial
  · exact .inr (.inr (by decide))
  · exact .inr ⟨rfl, .inl (by decide), by decide⟩
  · exact trivial

/-- The second byte of a page that was mapped is not found. -/
theorem not_resolves_run :
    ¬ ∀ (mmap : Mmap) (page : PageSize) (bytes : Bytes) (cs : List Call),
      Run.Each (Resolves mmap .code) (step mmap .code) (opened page bytes) cs := by
  intro h
  have hrun := h .upward ⟨12, 1, by decide, by decide, by decide⟩ (List.replicate 8192 0)
    [.data 0, .data 1]
  have hin : 1 < (List.replicate 8192 (0 : UInt8)).length := by
    rw [List.length_replicate]
    decide
  obtain ⟨m, hm, -, -, hoffset⟩ := hrun.2.1 hin
  have hpage : m = ⟨0, 0⟩ := List.mem_singleton.1 hm
  subst hpage
  exact absurd hoffset (by decide)

end TableImpl

end Prinbee
