import Prinbee.Journal.Journal
import Prinbee.Journal.Tiling

/-!
# Reading a file of the journal

`load_event_locations()` on one file, when the chain of headers in the file meets the live events
that are known to be in it, and no other live header.  The events that are not moved keep their
bytes; those that are moved down have the same bytes at a lower offset, as the loop never writes
over what it has not read yet.

## Main definitions

* `Journal.Holds` — a file holds the event of a location.
* `Journal.Moved` — a location after its file was read again.
* `Journal.Chained` — the events that were found, one after the other.
* `Journal.loading` — the journal while a file is read.

## Main results

* `Journal.moveEvent_eq` — moving an event copies its bytes.
* `Journal.loadEvents_eq` — what the loop leaves.
-/

namespace Prinbee

namespace Journal

/-! ### Events in a file -/

/-- The bytes at the offset of the location are those of its event. -/
structure Holds (b : Bytes) (l : Location) : Prop where
  within : l.offset + l.size ≤ b.length
  magic₀ : b.getD l.offset 0 = 101
  magic₁ : b.getD (l.offset + 1) 0 = 118
  status : EventFile.status b l.offset = l.status.code
  requestIdSize : EventFile.requestIdSize b l.offset = l.requestId.length
  size : EventFile.size b l.offset = l.size
  time : EventFile.time b l.offset = l.eventTime
  attachmentCount : EventFile.attachmentCount b l.offset = l.attachmentCount
  requestId : EventFile.requestId b l.offset = l.requestId
  prefixed : 32 + 4 * l.attachmentCount + l.requestId.length ≤ l.size

/-- An event whose bytes are the same elsewhere. -/
theorem Holds.of_slice {b b' : Bytes} {l : Location} (h : Holds b l) {offset : ℕ}
    (hs : b'.slice offset l.size = b.slice l.offset l.size) (hw : offset + l.size ≤ b'.length)
    (p : ℕ) : Holds b' { l with file := p, offset } := by
  have hsize : 32 ≤ l.size := by have := h.prefixed; omega
  have hsame := EventFile.sameHeader hs hsize
  have hinside : EventFile.prefixSize b' offset ≤ l.size := by
    rw [hsame.prefixSize, EventFile.prefixSize, h.attachmentCount, h.requestIdSize]
    exact h.prefixed
  exact
    { within := hw
      magic₀ := hsame.magic₀.trans h.magic₀
      magic₁ := hsame.magic₁.trans h.magic₁
      status := hsame.status.trans h.status
      requestIdSize := hsame.requestIdSize.trans h.requestIdSize
      size := hsame.size.trans h.size
      time := hsame.time.trans h.time
      attachmentCount := hsame.attachmentCount.trans h.attachmentCount
      requestId := (hsame.requestId hs hinside).trans h.requestId
      prefixed := h.prefixed }

/-- The location that the loader makes for an event. -/
theorem Holds.locationAt {b : Bytes} {l : Location} (h : Holds b l) (p target : ℕ) :
    locationAt b p l.fileIndex l.offset target = { l with file := p, offset := target } := by
  rw [Journal.locationAt, h.requestId, h.time, h.status, h.attachmentCount, h.size,
    Status.ofCode_code, Option.getD_some]

/-! ### Moving an event down -/

/-- The buffers are read before anything is written over them. -/
theorem copyDown_eq (fuel : ℕ) (b : Bytes) (tellg tellp remaining : ℕ) (hle : tellp ≤ tellg)
    (hb : tellg + remaining ≤ b.length) (hf : remaining ≤ fuel) :
    copyDown fuel b tellg tellp remaining = b.overwrite tellp (b.slice tellg remaining) := by
  induction fuel generalizing b tellg tellp remaining with
  | zero =>
    cases Nat.le_zero.1 hf
    rw [copyDown, List.slice_zero_count, List.overwrite_nil]
  | succ fuel ih =>
    rw [copyDown]
    split
    · next hzero => rw [hzero, List.slice_zero_count, List.overwrite_nil]
    · next hpos =>
      dsimp only
      set n := min remaining (64 * 1024)
      have hn : 0 < n ∧ n ≤ remaining := by omega
      have hlen : (b.slice tellg n).length = n := List.length_slice_of_le (by omega)
      have hwrite : (b.overwrite tellp (b.slice tellg n)).length = b.length :=
        List.length_overwrite_of_le (by omega)
      rw [writeAt_of_le _ (by omega),
        ih _ (tellg + n) (tellp + n) (remaining - n) (by omega) (by omega) (by omega),
        List.slice_overwrite_of_disjoint (by omega) (.inr (by omega))]
      have hadj := List.overwrite_overwrite_adjacent tellp (b.slice tellg n)
        (b.slice (tellg + n) (remaining - n)) b (by omega)
      rw [hlen] at hadj
      rw [hadj, List.slice_append_slice, Nat.add_sub_cancel' hn.2]

/-- An event that is moved down has its bytes at its new place. -/
theorem moveEvent_eq {b : Bytes} {offset target : ℕ} (hle : target ≤ offset)
    (hb : offset + EventFile.size b offset ≤ b.length)
    (hinside : EventFile.prefixSize b offset ≤ EventFile.size b offset) :
    moveEvent b offset target = b.overwrite target (b.slice offset (EventFile.size b offset)) := by
  rw [moveEvent]
  generalize EventFile.prefixSize b offset = n at hinside
  have hlen : (b.slice offset n).length = n := List.length_slice_of_le (by omega)
  have hwrite : (b.overwrite target (b.slice offset n)).length = b.length :=
    List.length_overwrite_of_le (by omega)
  rw [writeAt_of_le _ (by omega), copyDown_eq _ _ _ _ _ (by omega) (by omega) le_rfl,
    List.slice_overwrite_of_disjoint (by omega) (.inr (by omega))]
  have hadj := List.overwrite_overwrite_adjacent target (b.slice offset n)
    (b.slice (offset + n) (EventFile.size b offset - n)) b (by omega)
  rw [hlen] at hadj
  rw [hadj, List.slice_append_slice, Nat.add_sub_cancel' hinside]

/-! ### The journal while a file is read -/

/-- A new state of an object. -/
theorem index_setFile {s : Journal} {p : ℕ} {f : JournalFile} (h : f.index = (s.file p).index) :
    ((s.setFile p f).file p).index = (s.file p).index := by
  rw [file, setFile, List.getD_eq_getElem?_getD]
  by_cases hp : p < s.files.length
  · rw [List.getElem?_set_self hp, Option.getD_some, h]
  · rw [List.set_eq_of_length_le (by omega), ← List.getD_eq_getElem?_getD, file]

theorem countEvent_modify (s : Journal) (p offset : ℕ) (f : Bytes → Bytes) :
    (s.modify p f).countEvent p offset = (s.countEvent p offset).modify p f := by
  have hindex : ((s.countEvent p offset).file p).index = (s.file p).index := index_setFile rfl
  unfold modify
  rw [hindex]
  rfl

theorem dropAll_of_isOpen {s : Journal} {ls : List Location} (h : ∀ l ∈ ls, s.isOpen l.file = true) :
    s.dropAll ls = s := by
  induction ls with
  | nil => rfl
  | cons l ls ih =>
    rw [dropAll, List.foldl_cons, drop_of_isOpen (h l List.mem_cons_self)]
    exact ih fun l' hl' => h l' (List.mem_cons_of_mem _ hl')

/-- A location whose identifier is new; those that it replaces in the map by time are of the same
file. -/
theorem insertLocation_eq {s : Journal} {l : Location}
    (hid : ∀ e ∈ s.eventLocations, e.requestId ≠ l.requestId)
    (hheld : ∀ r ∈ s.timebasedReplay, r.eventTime = l.eventTime → r.file = l.file) :
    s.insertLocation l = { s with
      eventLocations := s.eventLocations ++ [l]
      timebasedReplay := (s.timebasedReplay.filter fun r => r.eventTime ≠ l.eventTime) ++ [l] } := by
  have hnone : (s.eventLocations.filter fun m => m.requestId = l.requestId) = [] :=
    List.filter_eq_nil_iff.2 fun m hm => by simpa using hid m hm
  have hall : (s.eventLocations.filter fun m => m.requestId ≠ l.requestId) = s.eventLocations :=
    List.filter_eq_self.2 fun m hm => by simpa using hid m hm
  unfold insertLocation
  dsimp only
  rw [hnone, hall]
  refine dropAll_of_isOpen fun r hr => ?_
  obtain ⟨hr, htime⟩ := List.mem_filter.1 hr
  rw [hheld r hr (of_decide_eq_true htime)]
  exact isOpen_of_mem (List.mem_append_right _ (List.mem_singleton_self l))

/-- The journal `s` while the object `p` reads the file `index`, which has the bytes `b` by now:
the events `ms` were found. -/
def loading (s : Journal) (p index : ℕ) (canBeCompressed : Bool) (ms : List Location)
    (nextAppend : ℕ) (b : Bytes) : Journal :=
  { s with
    canBeCompressed
    files := s.files.set p { index, eventCount := ms.length, nextAppend }
    eventLocations := s.eventLocations ++ ms
    timebasedReplay :=
      (s.timebasedReplay.filter fun r => ms.all fun m => r.eventTime ≠ m.eventTime) ++ ms
    disk := Function.update s.disk index (some b) }

section Loading

variable {s : Journal} {p index : ℕ} {c : Bool} {ms : List Location} {nextAppend : ℕ} {b : Bytes}

theorem file_loading (hp : p < s.files.length) :
    (loading s p index c ms nextAppend b).file p =
      { index, eventCount := ms.length, nextAppend } := by
  rw [file, loading, List.getD_eq_getElem?_getD, List.getElem?_set_self hp, Option.getD_some]

theorem content_loading (hp : p < s.files.length) :
    (loading s p index c ms nextAppend b).content p = b := by
  rw [content, file_loading hp, loading]
  simp only [Function.update_self, Option.getD_some]

theorem modify_loading (hp : p < s.files.length) (f : Bytes → Bytes) :
    (loading s p index c ms nextAppend b).modify p f = loading s p index c ms nextAppend (f b) := by
  rw [modify, file_loading hp, loading, loading]
  simp only [Function.update_self, Option.map_some, Function.update_idem]

/-- An event is found and counted. -/
theorem insert_loading (hp : p < s.files.length) {m : Location} (hm : m.file = p)
    (hid : ∀ e ∈ s.eventLocations ++ ms, e.requestId ≠ m.requestId)
    (htime : ∀ e ∈ ms, e.eventTime ≠ m.eventTime)
    (hreplay : ∀ r ∈ s.timebasedReplay, r.eventTime = m.eventTime → r.file = p)
    (nextAppend' : ℕ) :
    ((loading s p index c ms nextAppend b).insertLocation m).countEvent p nextAppend' =
      loading s p index c (ms ++ [m]) nextAppend' b := by
  have hheld : ∀ r ∈ (loading s p index c ms nextAppend b).timebasedReplay,
      r.eventTime = m.eventTime → r.file = m.file := by
    intro r hr heq
    rcases List.mem_append.1 hr with hr | hr
    · exact (hreplay r (List.mem_of_mem_filter hr) heq).trans hm.symm
    · exact absurd heq (htime r hr)
  have hfile : ({ loading s p index c ms nextAppend b with
      eventLocations := (loading s p index c ms nextAppend b).eventLocations ++ [m]
      timebasedReplay := ((loading s p index c ms nextAppend b).timebasedReplay.filter
        fun r => r.eventTime ≠ m.eventTime) ++ [m] } : Journal).file p =
      { index, eventCount := ms.length, nextAppend } := file_loading (c := c) (b := b) hp
  have hkept : (ms.filter fun r => r.eventTime ≠ m.eventTime) = ms :=
    List.filter_eq_self.2 fun r hr => by simpa using htime r hr
  rw [insertLocation_eq hid hheld, countEvent, hfile]
  simp only [loading, setFile, List.set_set, List.length_append, List.length_singleton,
    List.append_assoc, List.filter_append, List.filter_filter, hkept, List.all_append,
    List.all_cons, List.all_nil, Bool.and_true]
  simp only [Bool.and_comm]

end Loading

/-! ### The loop -/

/-- The location `l` after its file was read again by the object `p`: the event may be at another
offset, with the same bytes. -/
def Moved (p : ℕ) (b₀ b : Bytes) (l m : Location) : Prop :=
  m = { l with file := p, offset := m.offset } ∧
    b.slice m.offset l.size = b₀.slice l.offset l.size

/-- Where the events found so far end: at the place of the next event that is moved, or at the
place of the next header. -/
def top (compress : Bool) (tellp : Option ℕ) (offset : ℕ) : ℕ :=
  (if compress then tellp else none).getD offset

/-- The loop has come to `offset` in the file that had the bytes `b₀` and the live events `ls`: it
found `olds`, which are `ms` now. -/
structure Progress (compress : Bool) (p : ℕ) (b₀ : Bytes) (ls : List Location) (offset : ℕ)
    (tellp : Option ℕ) (olds ms : List Location) (nextAppend : ℕ) (b : Bytes) : Prop where
  length : b.length = b₀.length
  unread : b.drop offset = b₀.drop offset
  header : b.take 8 = b₀.take 8
  moved : List.Forall₂ (Moved p b₀ b) olds ms
  known : ∀ l ∈ olds, l ∈ ls ∧ l.offset < offset
  ordered : olds.Pairwise fun l l' => l.offset < l'.offset
  start : 8 ≤ offset
  target : ∀ t, tellp = some t → 8 ≤ t ∧ t ≤ offset
  above : ∀ m ∈ ms, 8 ≤ m.offset ∧ m.offset + m.size ≤ top compress tellp offset
  sorted : ms.Pairwise fun m m' => m.offset + m.size ≤ m'.offset
  append : ∀ m ∈ ms, m.offset + m.size ≤ nextAppend ∧ nextAppend ≤ b₀.length

section Progress

variable {compress : Bool} {p : ℕ} {b₀ b : Bytes} {ls olds ms : List Location} {offset : ℕ}
  {tellp : Option ℕ} {nextAppend : ℕ}

/-- Nothing was read yet. -/
theorem progress_nil (compress : Bool) (p : ℕ) (b₀ : Bytes) (ls : List Location) (nextAppend : ℕ) :
    Progress compress p b₀ ls 8 none [] [] nextAppend b₀ where
  length := rfl
  unread := rfl
  header := rfl
  moved := .nil
  known l hl := by cases hl
  ordered := .nil
  start := le_rfl
  target t ht := by cases ht
  above m hm := by cases hm
  sorted := .nil
  append m hm := by cases hm

theorem Progress.slice (h : Progress compress p b₀ ls offset tellp olds ms nextAppend b) (n : ℕ) :
    b.slice offset n = b₀.slice offset n := by
  rw [List.slice, List.slice, h.unread]

theorem Progress.ordered_append
    (h : Progress compress p b₀ ls offset tellp olds ms nextAppend b) {l : Location}
    (hoffset : l.offset = offset) : (olds ++ [l]).Pairwise fun l l' => l.offset < l'.offset := by
  refine List.pairwise_append.2 ⟨h.ordered, List.pairwise_singleton _ _, fun l' hl' m hm => ?_⟩
  cases List.mem_singleton.1 hm
  rw [hoffset]
  exact (h.known l' hl').2

/-- A dead event is passed over. -/
theorem Progress.skip (h : Progress compress p b₀ ls offset tellp olds ms nextAppend b) (n : ℕ) :
    Progress compress p b₀ ls (offset + n) (some (tellp.getD offset)) olds ms nextAppend b where
  length := h.length
  unread := by rw [← List.drop_drop, ← List.drop_drop, h.unread]
  header := h.header
  moved := h.moved
  known l hl := ⟨(h.known l hl).1, by have := (h.known l hl).2; omega⟩
  ordered := h.ordered
  start := by have := h.start; omega
  target t ht := by
    cases Option.some.inj ht
    have hstart := h.start
    cases htellp : tellp with
    | none => rw [Option.getD_none]; omega
    | some t => rw [Option.getD_some]; have := h.target t htellp; omega
  above m hm := by
    obtain ⟨h₁, h₂⟩ := h.above m hm
    refine ⟨h₁, h₂.trans ?_⟩
    cases compress with
    | false => exact Nat.le_add_right offset n
    | true => exact le_rfl
  sorted := h.sorted
  append := h.append

/-- The event `l` is found and stays where it is. -/
theorem Progress.stay (h : Progress compress p b₀ ls offset tellp olds ms nextAppend b)
    {l : Location} (hl : l ∈ ls) (hholds : Holds b₀ l) (hoffset : l.offset = offset)
    (htop : (if compress then tellp else none) = none) :
    Progress compress p b₀ ls (offset + l.size) tellp (olds ++ [l])
      (ms ++ [{ l with file := p, offset }]) (offset + l.size) b := by
  have hsize : 32 ≤ l.size := by have := hholds.prefixed; omega
  have hwithin := hholds.within
  have hstart := h.start
  have hbelow : top compress tellp offset = offset := by rw [top, htop]; rfl
  exact
    { length := h.length
      unread := by rw [← List.drop_drop, ← List.drop_drop, h.unread]
      header := h.header
      moved := List.rel_append h.moved (.cons ⟨rfl, hoffset ▸ h.slice l.size⟩ .nil)
      known := by
        intro l' hl'
        rcases List.mem_append.1 hl' with hl' | hl'
        · exact ⟨(h.known l' hl').1, by have := (h.known l' hl').2; omega⟩
        · cases List.mem_singleton.1 hl'
          exact ⟨hl, by omega⟩
      ordered := h.ordered_append hoffset
      start := by omega
      target := fun t ht => by have := h.target t ht; omega
      above := by
        have htop' : top compress tellp (offset + l.size) = offset + l.size := by
          rw [top, htop]; rfl
        rw [htop']
        intro m hm
        rcases List.mem_append.1 hm with hm | hm
        · have := h.above m hm
          omega
        · cases List.mem_singleton.1 hm
          exact ⟨hstart, le_rfl⟩
      sorted := by
        refine List.pairwise_append.2 ⟨h.sorted, List.pairwise_singleton _ _, fun m hm m' hm' => ?_⟩
        cases List.mem_singleton.1 hm'
        have := (h.above m hm).2
        change _ ≤ offset
        omega
      append := by
        intro m hm
        rcases List.mem_append.1 hm with hm | hm
        · have := (h.above m hm).2
          omega
        · cases List.mem_singleton.1 hm
          exact ⟨le_rfl, by omega⟩ }

/-- The event `l` is found and moved down to `target`. -/
theorem Progress.move {target : ℕ}
    (h : Progress true p b₀ ls offset (some target) olds ms nextAppend b)
    {l : Location} (hl : l ∈ ls) (hholds : Holds b₀ l) (hoffset : l.offset = offset) :
    Progress true p b₀ ls (offset + l.size) (some (target + l.size)) (olds ++ [l])
      (ms ++ [{ l with file := p, offset := target }]) (target + l.size)
      (b.overwrite target (b.slice offset l.size)) := by
  have hsize : 32 ≤ l.size := by have := hholds.prefixed; omega
  have hwithin := hholds.within
  have hlength := h.length
  obtain ⟨htarget, hle⟩ := h.target target rfl
  have hlen : (b.slice offset l.size).length = l.size := List.length_slice_of_le (by omega)
  have hfit : target + (b.slice offset l.size).length ≤ b.length := by omega
  have habove : ∀ m ∈ ms, 8 ≤ m.offset ∧ m.offset + m.size ≤ target := h.above
  exact
    { length := (List.length_overwrite_of_le hfit).trans h.length
      unread := by
        rw [List.drop_overwrite_of_le (by omega) (by omega), ← List.drop_drop, ← List.drop_drop,
          h.unread]
      header := by rw [List.take_overwrite_of_le htarget (by omega), h.header]
      moved := by
        refine List.rel_append ?_ (.cons ⟨rfl, ?_⟩ .nil)
        · have hboth := (List.forall₂_and_left _ _).2 ⟨habove, h.moved.flip⟩
          refine (hboth.imp fun m l' => ?_).flip
          rintro ⟨hm, heq, hs⟩
          refine ⟨heq, ?_⟩
          have hmsize : m.size = l'.size := by rw [heq]
          rw [List.slice_overwrite_of_disjoint hfit (.inl (by omega)), hs]
        · change (b.overwrite target _).slice target l.size = _
          rw [List.slice_overwrite_start (by omega) (by omega),
            List.take_of_length_le (by omega), h.slice, hoffset]
      known := by
        intro l' hl'
        rcases List.mem_append.1 hl' with hl' | hl'
        · exact ⟨(h.known l' hl').1, by have := (h.known l' hl').2; omega⟩
        · cases List.mem_singleton.1 hl'
          exact ⟨hl, by omega⟩
      ordered := h.ordered_append hoffset
      start := by have := h.start; omega
      target := fun t ht => by cases Option.some.inj ht; omega
      above := by
        intro m hm
        change _ ∧ _ ≤ target + l.size
        rcases List.mem_append.1 hm with hm | hm
        · have := habove m hm
          omega
        · cases List.mem_singleton.1 hm
          exact ⟨htarget, le_rfl⟩
      sorted := by
        refine List.pairwise_append.2 ⟨h.sorted, List.pairwise_singleton _ _, fun m hm m' hm' => ?_⟩
        cases List.mem_singleton.1 hm'
        exact (habove m hm).2
      append := by
        intro m hm
        rcases List.mem_append.1 hm with hm | hm
        · have := (habove m hm).2
          omega
        · cases List.mem_singleton.1 hm
          exact ⟨le_rfl, by omega⟩ }

end Progress

/-! ### The chain of the events that were found -/

/-- The events that were found follow each other from the header of the file on, and a reader that
goes from header to header comes to each of them. -/
structure Chained (now : ℤ) (compress : Bool) (offset : ℕ) (tellp : Option ℕ) (ms : List Location)
    (nextAppend : ℕ) (b : Bytes) : Prop where
  tiled : EventFile.Tiling b 8 (top compress tellp offset) (ms.map (·.offset))
  ended : ms ≠ [] → EventFile.Tiling b 8 nextAppend (ms.map (·.offset))
  chain : EventFile.Reaches now b 8 (top compress tellp offset)
  reached : ∀ m ∈ ms, EventFile.Reaches now b 8 m.offset ∧ EventFile.Valid now b m.offset

section Chained

variable {now : ℤ} {compress : Bool} {b : Bytes} {ms : List Location} {offset : ℕ}
  {tellp : Option ℕ} {nextAppend : ℕ}

theorem chained_nil (now : ℤ) (compress : Bool) (nextAppend : ℕ) (b : Bytes) :
    Chained now compress 8 none [] nextAppend b where
  tiled := by cases compress <;> exact .nil 8
  ended := fun h => absurd rfl h
  chain := by cases compress <;> exact .refl 8
  reached m hm := by cases hm

/-- A dead event is passed over; when the file is compressed the next event goes in its place. -/
theorem Chained.skip (h : Chained now compress offset tellp ms nextAppend b)
    (hvalid : EventFile.Valid now b offset) (hdead : ¬ EventFile.Live b offset) :
    Chained now compress (offset + EventFile.size b offset) (some (tellp.getD offset)) ms nextAppend
      b where
  tiled := by
    cases compress with
    | false => exact h.tiled.snoc_dead hvalid.written hdead
    | true => exact h.tiled
  ended := h.ended
  chain := by
    cases compress with
    | false => exact h.chain.snoc hvalid
    | true => exact h.chain
  reached := h.reached

/-- An event stays where it is. -/
theorem Chained.stay (h : Chained now compress offset tellp ms nextAppend b)
    (hvalid : EventFile.Valid now b offset) (hlive : EventFile.Live b offset)
    (htop : (if compress then tellp else none) = none) {m : Location} (hm : m.offset = offset) :
    Chained now compress (offset + EventFile.size b offset) tellp (ms ++ [m])
      (offset + EventFile.size b offset) b := by
  have htop' : ∀ o, top compress tellp o = o := fun o => by rw [top, htop]; rfl
  have htiled := h.tiled
  have hchain := h.chain
  rw [htop'] at htiled hchain
  have hsnoc := htiled.snoc_live hvalid.written hlive
  rw [← hm, ← List.map_singleton, ← List.map_append, hm] at hsnoc
  refine ⟨by rw [htop']; exact hsnoc, fun _ => hsnoc, by rw [htop']; exact hchain.snoc hvalid, ?_⟩
  intro m' hm'
  rcases List.mem_append.1 hm' with hm' | hm'
  · exact h.reached m' hm'
  · cases List.mem_singleton.1 hm'
    rw [hm]
    exact ⟨hchain, hvalid⟩

/-- An event is moved down, behind those that were found. -/
theorem Chained.move {target : ℕ} (h : Chained now true offset (some target) ms nextAppend b)
    (hvalid : EventFile.Valid now b offset) (hlive : EventFile.Live b offset)
    (hle : target ≤ offset) {m : Location} (hm : m.offset = target) :
    Chained now true (offset + EventFile.size b offset) (some (target + EventFile.size b offset))
      (ms ++ [m]) (target + EventFile.size b offset)
      (b.overwrite target (b.slice offset (EventFile.size b offset))) := by
  have hwithin := hvalid.within
  have hsize := hvalid.lt_size
  have hdata : (b.slice offset (EventFile.size b offset)).length = EventFile.size b offset :=
    List.length_slice_of_le hwithin
  set b' := b.overwrite target (b.slice offset (EventFile.size b offset)) with hb'
  have hlen : b'.length = b.length := List.length_overwrite_of_le (by omega)
  have htake : ∀ n ≤ target, b'.take n = b.take n := fun n hn =>
    List.take_overwrite_of_le hn (by omega)
  -- the header that was moved
  have hslice : b'.slice target (EventFile.size b offset) =
      b.slice offset (EventFile.size b offset) := by
    rw [hb', List.slice_overwrite_start (by omega) hdata.ge, List.take_of_length_le hdata.le]
  have hsame := EventFile.sameHeader hslice hsize.le
  have hsizeEq : EventFile.size b' target = EventFile.size b offset := hsame.size
  have hvalid' : EventFile.Valid now b' target := hsame.symm.valid hvalid (by rw [hsizeEq]; omega)
  have htiled : EventFile.Tiling b' 8 target (ms.map (·.offset)) := h.tiled.of_take (htake _ le_rfl)
  have hchain : EventFile.Reaches now b' 8 target := h.chain.of_take (htake _ le_rfl)
    (by show target ≤ b'.length; omega)
  have hsnoc := htiled.snoc_live hvalid'.written (hsame.live_iff.2 hlive)
  rw [hsizeEq, ← hm, ← List.map_singleton, ← List.map_append, hm] at hsnoc
  have hsnocChain := hchain.snoc hvalid'
  rw [hsizeEq] at hsnocChain
  refine ⟨hsnoc, fun _ => hsnoc, hsnocChain, ?_⟩
  intro m' hm'
  rcases List.mem_append.1 hm' with hm' | hm'
  · obtain ⟨hr, hv⟩ := h.reached m' hm'
    obtain ⟨-, hbelow, -, -⟩ := h.tiled.mem_le (List.mem_map.2 ⟨m', hm', rfl⟩)
    replace hbelow : m'.offset + EventFile.size b m'.offset ≤ target := hbelow
    have hsize' := hv.lt_size
    have hsame' := EventFile.sameHeader
      (EventFile.slice_eq_of_take (i := m'.offset) (m := 32) (htake _ le_rfl) (by omega)) le_rfl
    refine ⟨hr.of_take (htake _ (by omega)) (by omega), hsame'.symm.valid hv ?_⟩
    rw [hsame'.size]
    omega
  · cases List.mem_singleton.1 hm'
    rw [hm]
    exact ⟨hchain, hvalid'⟩

end Chained

/-- The live events `ls` of a file that the object `p` reads: their identifiers are not in the
index yet, and what the map by time has for their times is of this file. -/
structure Loadable (s : Journal) (p index : ℕ) (b₀ : Bytes) (ls : List Location) : Prop where
  made : p < s.files.length
  holds : ∀ l ∈ ls, Holds b₀ l ∧ l.fileIndex = index
  ids : ∀ l ∈ ls, ∀ e ∈ s.eventLocations, e.requestId ≠ l.requestId
  idInj : ∀ l ∈ ls, ∀ l' ∈ ls, l.requestId = l'.requestId → l = l'
  timeInj : ∀ l ∈ ls, ∀ l' ∈ ls, l.eventTime = l'.eventTime → l = l'
  replay : ∀ l ∈ ls, ∀ r ∈ s.timebasedReplay, r.eventTime = l.eventTime → r.file = p

/-- An item of the second of two related lists. -/
theorem exists_of_mem_right {α β : Type*} {R : α → β → Prop} {xs : List α} {ys : List β}
    (h : List.Forall₂ R xs ys) {y : β} (hy : y ∈ ys) : ∃ x ∈ xs, R x y := by
  induction h with
  | nil => cases hy
  | cons hr _ ih =>
    rcases List.mem_cons.1 hy with rfl | hy
    · exact ⟨_, List.mem_cons_self, hr⟩
    · obtain ⟨x, hx, hxy⟩ := ih hy
      exact ⟨x, List.mem_cons_of_mem _ hx, hxy⟩

theorem exists_of_mem_left {α β : Type*} {R : α → β → Prop} {xs : List α} {ys : List β}
    (h : List.Forall₂ R xs ys) {x : α} (hx : x ∈ xs) : ∃ y ∈ ys, R x y := by
  obtain ⟨y, hy, hxy⟩ := exists_of_mem_right h.flip hx
  exact ⟨y, hy, hxy⟩

section Loop

variable {now : ℤ} {compress : Bool} {s : Journal} {p index : ℕ} {b₀ b : Bytes}
  {ls olds ms : List Location} {offset : ℕ} {tellp : Option ℕ} {nextAppend : ℕ}

/-- What was found is not what is found at the next header. -/
theorem Progress.ne_of_mem (h : Progress compress p b₀ ls offset tellp olds ms nextAppend b)
    {m l : Location} (hm : m ∈ ms) (hoffset : l.offset = offset) :
    ∃ old ∈ ls, old ≠ l ∧ m.requestId = old.requestId ∧ m.eventTime = old.eventTime := by
  obtain ⟨old, hold, heq, -⟩ := exists_of_mem_right h.moved hm
  obtain ⟨hls, hlt⟩ := h.known old hold
  refine ⟨old, hls, ?_, by rw [heq], by rw [heq]⟩
  rintro rfl
  omega

/-- Entering the event `l` of the header at `offset`. -/
theorem Loadable.insert (hs : Loadable s p index b₀ ls)
    (h : Progress compress p b₀ ls offset tellp olds ms nextAppend b) {l : Location}
    (hl : l ∈ ls) (hoffset : l.offset = offset) (c : Bool) (b : Bytes) (target nextAppend' : ℕ) :
    ((loading s p index c ms nextAppend b).insertLocation
        { l with file := p, offset := target }).countEvent p nextAppend' =
      loading s p index c (ms ++ [{ l with file := p, offset := target }]) nextAppend' b := by
  refine insert_loading (m := { l with file := p, offset := target }) hs.made rfl ?_ ?_
    (hs.replay l hl) nextAppend'
  · intro e he heq
    rcases List.mem_append.1 he with he | he
    · exact hs.ids l hl e he heq
    · obtain ⟨old, hold, hne, hid, -⟩ := h.ne_of_mem he hoffset
      exact hne (hs.idInj old hold l hl (hid.symm.trans heq))
  · intro e he heq
    obtain ⟨old, hold, hne, -, htime⟩ := h.ne_of_mem he hoffset
    exact hne (hs.timeInj old hold l hl (htime.symm.trans heq))

theorem Loadable.insert_modify (hs : Loadable s p index b₀ ls)
    (h : Progress compress p b₀ ls offset tellp olds ms nextAppend b) {l : Location}
    (hl : l ∈ ls) (hoffset : l.offset = offset) (c : Bool) (b : Bytes) (target nextAppend' : ℕ)
    (f : Bytes → Bytes) :
    (((loading s p index c ms nextAppend b).insertLocation
        { l with file := p, offset := target }).modify p f).countEvent p nextAppend' =
      loading s p index c (ms ++ [{ l with file := p, offset := target }]) nextAppend' (f b) := by
  rw [← modify_loading hs.made, ← hs.insert h hl hoffset, countEvent_modify]

/-- **The loop finds the live headers of the chain, in their order, and moves their events only.** -/
theorem loadEvents_eq (hs : Loadable s p index b₀ ls) (fuel : ℕ) (c : Bool)
    (h : Progress compress p b₀ ls offset tellp olds ms nextAppend b)
    (hc : Chained now compress offset tellp ms nextAppend b)
    (hlive : ∀ o ∈ EventFile.liveFrom now b₀ fuel offset, ∃ l ∈ ls, l.offset = o) :
    ∃ c' offset' tellp' olds' ms' nextAppend' b',
      loadEvents now compress index p fuel (loading s p index c ms nextAppend b) offset tellp =
        loading s p index c' ms' nextAppend' b' ∧
      Progress compress p b₀ ls offset' tellp' olds' ms' nextAppend' b' ∧
      Chained now compress offset' tellp' ms' nextAppend' b' ∧
      olds'.map (·.offset) = olds.map (·.offset) ++ EventFile.liveFrom now b₀ fuel offset ∧
      (ms' = [] → b' = b ∧ nextAppend' = nextAppend) := by
  induction fuel generalizing c offset tellp olds ms nextAppend b with
  | zero =>
    exact ⟨c, offset, tellp, olds, ms, nextAppend, b, rfl, h, hc, by simp [EventFile.liveFrom],
      fun _ => ⟨rfl, rfl⟩⟩
  | succ fuel ih =>
    have hsame := EventFile.sameHeader (h.slice 32) le_rfl
    have hvalid := EventFile.valid_congr now h.unread h.length
    have hlive' : EventFile.Live b offset ↔ EventFile.Live b₀ offset := by
      rw [EventFile.Live, EventFile.Live, hsame.status]
    rw [loadEvents, content_loading hs.made]
    dsimp only
    rw [EventFile.liveFrom] at hlive ⊢
    by_cases hv : EventFile.Valid now b₀ offset
    · rw [if_pos (hvalid.2 hv)]
      rw [if_pos hv] at hlive ⊢
      by_cases hl : EventFile.Live b₀ offset
      · rw [if_pos (hlive'.2 hl)]
        rw [if_pos hl] at hlive ⊢
        obtain ⟨l, hmem, hoffset⟩ := hlive offset List.mem_cons_self
        obtain ⟨hholds, hindex⟩ := hs.holds l hmem
        have hsize : EventFile.size b₀ offset = l.size := by rw [← hoffset]; exact hholds.size
        have hlocation : ∀ target, locationAt b p index offset target =
            { l with file := p, offset := target } := by
          intro target
          have hb : Holds b { l with file := l.file, offset := offset } := hholds.of_slice
            (by rw [hoffset]; exact h.slice l.size)
            (by rw [h.length, ← hoffset]; exact hholds.within) l.file
          rw [← hindex]
          exact hb.locationAt p target
        rw [hsame.size, hsize]
        rw [hsize] at hlive
        have hrest : ∀ o ∈ EventFile.liveFrom now b₀ fuel (offset + l.size), ∃ l ∈ ls, l.offset = o :=
          fun o ho => hlive o (List.mem_cons_of_mem _ ho)
        -- after this event, wherever it is now
        have hnext : ∀ {target tellp' nextAppend' b'},
            Progress compress p b₀ ls (offset + l.size) tellp' (olds ++ [l])
              (ms ++ [{ l with file := p, offset := target }]) nextAppend' b' →
            Chained now compress (offset + l.size) tellp'
              (ms ++ [{ l with file := p, offset := target }]) nextAppend' b' →
            ∃ c'' offset'' tellp'' olds'' ms'' nextAppend'' b'',
              loadEvents now compress index p fuel (loading s p index c
                (ms ++ [{ l with file := p, offset := target }]) nextAppend' b') (offset + l.size)
                tellp' = loading s p index c'' ms'' nextAppend'' b'' ∧
              Progress compress p b₀ ls offset'' tellp'' olds'' ms'' nextAppend'' b'' ∧
              Chained now compress offset'' tellp'' ms'' nextAppend'' b'' ∧
              olds''.map (·.offset) = olds.map (·.offset) ++
                offset :: EventFile.liveFrom now b₀ fuel (offset + l.size) ∧
              (ms'' = [] → b'' = b ∧ nextAppend'' = nextAppend) := by
          intro target tellp' nextAppend' b' hp hc
          obtain ⟨c'', offset'', tellp'', olds'', ms'', nextAppend'', b'', heq, hp'', hc'', hmap, -⟩ :=
            ih c hp hc hrest
          have hmap' : olds''.map (·.offset) = olds.map (·.offset) ++
              offset :: EventFile.liveFrom now b₀ fuel (offset + l.size) := by
            rw [hmap, List.map_append, List.map_singleton, hoffset, List.append_assoc,
              List.singleton_append]
          refine ⟨c'', offset'', tellp'', olds'', ms'', nextAppend'', b'', heq, hp'', hc'', hmap', ?_⟩
          rintro rfl
          have holds'' : olds'' = [] := List.forall₂_nil_right_iff.1 hp''.moved
          rw [holds''] at hmap'
          simp at hmap'
        split
        · next target htarget =>
          -- the event is moved
          obtain ⟨rfl, rfl⟩ : compress = true ∧ tellp = some target := by
            cases compress with
            | false => cases htarget
            | true => exact ⟨rfl, htarget⟩
          have hmove : moveEvent b offset target = b.overwrite target (b.slice offset l.size) := by
            have hinside : EventFile.prefixSize b offset ≤ EventFile.size b offset := by
              rw [hsame.prefixSize, hsame.size, EventFile.prefixSize, ← hoffset,
                hholds.attachmentCount, hholds.requestIdSize, hholds.size]
              exact hholds.prefixed
            rw [moveEvent_eq (h.target target rfl).2 ?_ hinside, hsame.size, hsize]
            rw [hsame.size, hsize, h.length, ← hoffset]
            exact hholds.within
          have hmoved := hc.move (hvalid.2 hv) (hlive'.2 hl) (h.target target rfl).2
            (m := { l with file := p, offset := target }) rfl
          rw [hsame.size, hsize] at hmoved
          rw [hlocation, hs.insert_modify h hmem hoffset, hmove]
          exact hnext (h.move hmem hholds hoffset) hmoved
        · next htarget =>
          have hstayed := hc.stay (hvalid.2 hv) (hlive'.2 hl) htarget
            (m := { l with file := p, offset }) rfl
          rw [hsame.size, hsize] at hstayed
          rw [hlocation, hs.insert h hmem hoffset]
          exact hnext (h.stay hmem hholds hoffset htarget) hstayed
      · rw [if_neg (mt hlive'.1 hl)]
        rw [if_neg hl] at hlive ⊢
        have hskipped := hc.skip (hvalid.2 hv) (mt hlive'.1 hl)
        rw [hsame.size] at hskipped ⊢
        exact ih true (h.skip _) hskipped hlive
    · rw [if_neg (mt hvalid.1 hv), if_neg hv]
      exact ⟨c, offset, tellp, olds, ms, nextAppend, b, rfl, h, hc, (List.append_nil _).symm,
        fun _ => ⟨rfl, rfl⟩⟩

end Loop

end Journal

end Prinbee
