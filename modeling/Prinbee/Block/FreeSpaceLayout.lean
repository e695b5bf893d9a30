import Prinbee.Block.FreeSpace
import Mathlib.Tactic.Ring

/-!
# The layout of the data blocks

What the words of a table file say, as the allocator means them: the `DATA` blocks are tiled by
spaces, and the free ones are in the lists of their sizes.

While the allocator works on a space nothing is said about it: `Rep` carries the addresses of
these spaces, the holes.  Each step of the allocator opens a hole (taking a space off its list,
a new block), fills it (any assignment inside it), cuts it, or closes it; the lemmas here say
that each such step keeps the rest of the layout, and the three paths of `get_free_space()` are
put together from them.

## Main definitions

* `Space`, `Tiles` — a space, and spaces that follow each other without a gap.
* `Rep t mem dataBlocks blocks lists holes` — the memory `mem` represents the layout.

## Main results

* `Rep.unlink`, `Rep.poke`, `Rep.cut`, `Rep.close`, `Rep.link`, `Rep.addBlock`.
-/

namespace Prinbee

open LinkedList

/-- A space of a data block, with its meta data. -/
structure Space where
  address : ℕ
  size : ℕ
  free : Bool
  deriving DecidableEq, Repr

/-- The address is inside the space. -/
def Space.Owns (s : Space) (x : ℕ) : Prop := s.address ≤ x ∧ x < s.address + s.size

/-- The spaces follow each other from `a` to `z`. -/
def Tiles : ℕ → ℕ → List Space → Prop
  | a, z, [] => a = z
  | a, z, s :: ss => s.address = a ∧ 0 < s.size ∧ 8 ∣ s.size ∧ Tiles (a + s.size) z ss

namespace Tiles

variable {a y z : ℕ} {ss ss' : List Space}

theorem append (h : Tiles a y ss) (h' : Tiles y z ss') : Tiles a z (ss ++ ss') := by
  induction ss generalizing a with
  | nil => rw [show a = y from h]; exact h'
  | cons s ss ih =>
    obtain ⟨hs, hpos, hdvd, hss⟩ := h
    exact ⟨hs, hpos, hdvd, ih hss⟩

theorem le (h : Tiles a z ss) : a ≤ z := by
  induction ss generalizing a with
  | nil => exact le_of_eq h
  | cons s ss ih =>
    obtain ⟨-, -, -, hss⟩ := h
    exact (Nat.le_add_right _ _).trans (ih hss)

theorem bounds (h : Tiles a z ss) {s : Space} (hs : s ∈ ss) :
    a ≤ s.address ∧ s.address + s.size ≤ z ∧ 0 < s.size ∧ 8 ∣ s.size := by
  induction ss generalizing a with
  | nil => simp at hs
  | cons r ss ih =>
    obtain ⟨hr, hpos, hdvd, hss⟩ := h
    rcases List.mem_cons.1 hs with rfl | hs
    · exact ⟨hr.ge, hr ▸ hss.le, hpos, hdvd⟩
    · obtain ⟨ha, hz⟩ := ih hss hs
      exact ⟨by omega, hz⟩

theorem dvd (h : Tiles a z ss) (ha : 8 ∣ a) {s : Space} (hs : s ∈ ss) : 8 ∣ s.address := by
  induction ss generalizing a with
  | nil => simp at hs
  | cons r ss ih =>
    obtain ⟨hr, -, hdvd, hss⟩ := h
    rcases List.mem_cons.1 hs with rfl | hs
    · exact hr ▸ ha
    · exact ih hss (Nat.dvd_add ha hdvd) hs

/-- Two spaces of a block are the same one or apart. -/
theorem apart (h : Tiles a z ss) {s s' : Space} (hs : s ∈ ss) (hs' : s' ∈ ss) :
    s = s' ∨ s.address + s.size ≤ s'.address ∨ s'.address + s'.size ≤ s.address := by
  induction ss generalizing a with
  | nil => simp at hs
  | cons r ss ih =>
    obtain ⟨hr, -, -, hss⟩ := h
    rcases List.mem_cons.1 hs with hsr | hsr <;> rcases List.mem_cons.1 hs' with hsr' | hsr'
    · exact .inl (hsr.trans hsr'.symm)
    · have hle := (hss.bounds hsr').1
      exact .inr (.inl (by rw [hsr, hr]; exact hle))
    · have hle := (hss.bounds hsr).1
      exact .inr (.inr (by rw [hsr', hr]; exact hle))
    · exact ih hss hsr hsr'

end Tiles

/-- A data block, its offset and its spaces. -/
abbrev DataBlock := ℕ × List Space

/-- The spaces of all the blocks. -/
def spacesOf (blocks : List DataBlock) : List Space := blocks.flatMap Prod.snd

theorem mem_spacesOf {blocks : List DataBlock} {s : Space} :
    s ∈ spacesOf blocks ↔ ∃ b ∈ blocks, s ∈ b.2 := List.mem_flatMap

/-- The space at address `a` replaced by the spaces `new`. -/
def replaceSpace (a : ℕ) (new : List Space) (blocks : List DataBlock) : List DataBlock :=
  blocks.map fun b => (b.1, b.2.flatMap fun s => if s.address = a then new else [s])

theorem mem_replaceSpace {a : ℕ} {new : List Space} {blocks : List DataBlock} {s : Space} :
    s ∈ spacesOf (replaceSpace a new blocks) ↔
      (s ∈ spacesOf blocks ∧ s.address ≠ a) ∨
        (s ∈ new ∧ ∃ r ∈ spacesOf blocks, r.address = a) := by
  simp only [mem_spacesOf, replaceSpace, List.mem_map]
  constructor
  · rintro ⟨-, ⟨b, hb, rfl⟩, hs⟩
    obtain ⟨r, hr, hs⟩ := List.mem_flatMap.1 hs
    by_cases hra : r.address = a
    · rw [if_pos hra] at hs
      exact .inr ⟨hs, r, ⟨b, hb, hr⟩, hra⟩
    · rw [if_neg hra] at hs
      obtain rfl := List.mem_singleton.1 hs
      exact .inl ⟨⟨b, hb, hr⟩, hra⟩
  · rintro (⟨⟨b, hb, hs⟩, hsa⟩ | ⟨hs, r, ⟨b, hb, hr⟩, hra⟩)
    · exact ⟨_, ⟨b, hb, rfl⟩, List.mem_flatMap.2 ⟨s, hs, by rw [if_neg hsa]; simp⟩⟩
    · exact ⟨_, ⟨b, hb, rfl⟩, List.mem_flatMap.2 ⟨r, hr, by rw [if_pos hra]; exact hs⟩⟩

theorem Tiles.replace {a z x : ℕ} {ss new : List Space} (h : Tiles a z ss)
    (hnew : ∀ s ∈ ss, s.address = x → Tiles x (x + s.size) new) :
    Tiles a z (ss.flatMap fun s => if s.address = x then new else [s]) := by
  induction ss generalizing a with
  | nil => exact h
  | cons s ss ih =>
    obtain ⟨hs, hpos, hdvd, hss⟩ := h
    have htail := ih hss fun r hr => hnew r (List.mem_cons_of_mem _ hr)
    rw [List.flatMap_cons]
    by_cases hx : s.address = x
    · rw [if_pos hx]
      have hhead := hnew s (by simp) hx
      rw [show x = a by omega] at hhead
      exact hhead.append htail
    · rw [if_neg hx]
      exact ⟨hs, hpos, hdvd, htail⟩

variable {t : TableFile}

/-- The memory of the table represents the data blocks `blocks` and the free lists `lists`.
Nothing is said about the spaces whose addresses are in `holes`. -/
structure Rep (t : TableFile) (mem : ℕ → ℕ) (dataBlocks : List ℕ) (blocks : List DataBlock)
    (lists : ℕ → List ℕ) (holes : List ℕ) : Prop where
  offsets : blocks.map Prod.fst = dataBlocks
  nodup : dataBlocks.Nodup
  pages : ∀ b ∈ dataBlocks, t.pageSize ∣ b ∧ b ≠ t.freeSpaceBlock ∧ 0 < b
  tiles : ∀ b ∈ blocks, Tiles (b.1 + 8) (b.1 + t.pageSize) b.2
  metaData : ∀ s ∈ spacesOf blocks, s.address ∉ holes →
    metaSize (mem s.address) = s.size ∧ isAllocated (mem s.address) = !s.free
  fits : ∀ s ∈ spacesOf blocks, s.address ∉ holes → s.free = true → linkBytes ≤ s.size
  heads : ∀ size, 8 ≤ size → 8 ∣ size → size < t.pageSize →
    mem (t.freeSpaceBlock + size) = first (lists size)
  links : ∀ size, Links mem 8 16 0 (lists size)
  lists_nodup : ∀ size, (lists size).Nodup
  mem_lists : ∀ size a, a ∈ lists size ↔
    ∃ s ∈ spacesOf blocks, s.free = true ∧ s.size = size ∧ s.address = a ∧ a ∉ holes

theorem head_notMem_tail {l : List ℕ} (h : l.Nodup) {b : ℕ} (hb : b ∈ l.head?) : b ∉ l.tail := by
  cases l with
  | nil => simp at hb
  | cons c l =>
    obtain rfl : c = b := by simpa using hb
    exact (List.nodup_cons.1 h).1

/-- Two pages are the same one or apart. -/
theorem page_apart {p b c : ℕ} (hb : p ∣ b) (hc : p ∣ c) (h : b ≠ c) : b + p ≤ c ∨ c + p ≤ b := by
  obtain ⟨i, rfl⟩ := hb
  obtain ⟨j, rfl⟩ := hc
  rcases Nat.lt_trichotomy i j with hij | rfl | hij
  · left
    calc p * i + p = p * (i + 1) := by ring
      _ ≤ p * j := Nat.mul_le_mul_left _ hij
  · exact absurd rfl h
  · right
    calc p * j + p = p * (j + 1) := by ring
      _ ≤ p * i := Nat.mul_le_mul_left _ hij

namespace Rep

variable {mem : ℕ → ℕ} {dataBlocks : List ℕ} {blocks : List DataBlock} {lists : ℕ → List ℕ}
  {holes : List ℕ}

theorem mem_dataBlocks (h : Rep t mem dataBlocks blocks lists holes) {b : DataBlock}
    (hb : b ∈ blocks) : b.1 ∈ dataBlocks := h.offsets ▸ List.mem_map_of_mem hb

/-- Where a space is. -/
theorem inBlock (h : Rep t mem dataBlocks blocks lists holes) {s : Space}
    (hs : s ∈ spacesOf blocks) :
    ∃ b ∈ dataBlocks, b + 8 ≤ s.address ∧ s.address + s.size ≤ b + t.pageSize ∧ 0 < s.size ∧
      8 ∣ s.size := by
  obtain ⟨b, hb, hs⟩ := mem_spacesOf.1 hs
  exact ⟨b.1, h.mem_dataBlocks hb, (h.tiles b hb).bounds hs⟩

theorem blocks_eq (h : Rep t mem dataBlocks blocks lists holes) {b c : DataBlock}
    (hb : b ∈ blocks) (hc : c ∈ blocks) (hbc : b.1 = c.1) : b = c := by
  have hnodup : (blocks.map Prod.fst).Nodup := h.offsets ▸ h.nodup
  exact List.inj_on_of_nodup_map hnodup hb hc hbc

/-- **Spaces are apart**: two spaces that are not the same share no byte. -/
theorem apart (h : Rep t mem dataBlocks blocks lists holes) {s s' : Space}
    (hs : s ∈ spacesOf blocks) (hs' : s' ∈ spacesOf blocks) :
    s = s' ∨ s.address + s.size ≤ s'.address ∨ s'.address + s'.size ≤ s.address := by
  obtain ⟨b, hb, hsb⟩ := mem_spacesOf.1 hs
  obtain ⟨c, hc, hsc⟩ := mem_spacesOf.1 hs'
  by_cases hbc : b.1 = c.1
  · obtain rfl := h.blocks_eq hb hc hbc
    exact (h.tiles b hb).apart hsb hsc
  · obtain ⟨hb1, hb2, -⟩ := (h.tiles b hb).bounds hsb
    obtain ⟨hc1, hc2, -⟩ := (h.tiles c hc).bounds hsc
    have hpages := page_apart (h.pages _ (h.mem_dataBlocks hb)).1
      (h.pages _ (h.mem_dataBlocks hc)).1 hbc
    omega

theorem eq_of_owns (h : Rep t mem dataBlocks blocks lists holes) {s s' : Space}
    (hs : s ∈ spacesOf blocks) (hs' : s' ∈ spacesOf blocks) {x : ℕ} (hx : s.Owns x)
    (hx' : s'.Owns x) : s = s' := by
  rcases h.apart hs hs' with heq | hle | hle
  · exact heq
  · exact absurd hx.2 (by have := hx'.1; omega)
  · exact absurd hx'.2 (by have := hx.1; omega)

theorem owns_address (h : Rep t mem dataBlocks blocks lists holes) {s : Space}
    (hs : s ∈ spacesOf blocks) : s.Owns s.address := by
  obtain ⟨b, -, -, -, hpos, -⟩ := h.inBlock hs
  exact ⟨le_rfl, by omega⟩

theorem eq_of_address (h : Rep t mem dataBlocks blocks lists holes) {s s' : Space}
    (hs : s ∈ spacesOf blocks) (hs' : s' ∈ spacesOf blocks) (heq : s.address = s'.address) :
    s = s' := h.eq_of_owns hs hs' (h.owns_address hs) (heq ▸ h.owns_address hs')

/-- The entries of the `FSPC` block are in no space. -/
theorem slot_ne (h : Rep t mem dataBlocks blocks lists holes) {s : Space}
    (hs : s ∈ spacesOf blocks) {x size : ℕ} (hx : s.Owns x) (hsize : size < t.pageSize) :
    x ≠ t.freeSpaceBlock + size := by
  obtain ⟨b, hb, hb1, hb2, -, -⟩ := h.inBlock hs
  obtain ⟨hdvd, hne, -⟩ := h.pages b hb
  have hpages := page_apart hdvd t.freeSpaceBlock_dvd hne
  obtain ⟨hx1, hx2⟩ := hx
  omega

theorem address_pos (h : Rep t mem dataBlocks blocks lists holes) {s : Space}
    (hs : s ∈ spacesOf blocks) : 0 < s.address := by
  obtain ⟨b, -, hb, -⟩ := h.inBlock hs
  omega

theorem address_dvd (h : Rep t mem dataBlocks blocks lists holes) {s : Space}
    (hs : s ∈ spacesOf blocks) : 8 ∣ s.address := by
  obtain ⟨b, hb, hs⟩ := mem_spacesOf.1 hs
  have hpage : 8 ∣ b.1 := ((by decide : 8 ∣ 4096).trans t.pageSize_dvd).trans
    (h.pages b.1 (h.mem_dataBlocks hb)).1
  exact (h.tiles b hb).dvd (Nat.dvd_add hpage dvd_rfl) hs

/-- A space in a list owns its links. -/
theorem owns_links (h : Rep t mem dataBlocks blocks lists holes) {size a : ℕ}
    (ha : a ∈ lists size) : ∃ s ∈ spacesOf blocks, s.address = a ∧ a ∉ holes ∧ s.Owns a ∧
      s.Owns (a + 8) ∧ s.Owns (a + 16) := by
  obtain ⟨s, hs, hfree, -, rfl, hhole⟩ := (h.mem_lists size a).1 ha
  have hfit := h.fits s hs hhole hfree
  rw [linkBytes] at hfit
  exact ⟨s, hs, rfl, hhole, ⟨le_rfl, by omega⟩, ⟨by omega, by omega⟩, ⟨by omega, by omega⟩⟩

/-! ### Assignments inside a hole -/

/-- Memory that only changes inside holes. -/
theorem congr (h : Rep t mem dataBlocks blocks lists holes) {mem' : ℕ → ℕ}
    (hmem : ∀ x, mem' x = mem x ∨ ∃ s ∈ spacesOf blocks, s.address ∈ holes ∧ s.Owns x) :
    Rep t mem' dataBlocks blocks lists holes := by
  -- a word of a space that is not a hole keeps its value
  have hkeep : ∀ s ∈ spacesOf blocks, s.address ∉ holes → ∀ x, s.Owns x → mem' x = mem x := by
    intro s hs hhole x hx
    rcases hmem x with heq | ⟨r, hr, hrh, hrx⟩
    · exact heq
    · exact absurd (h.eq_of_owns hr hs hrx hx ▸ hrh) hhole
  refine { h with metaData := ?_, heads := ?_, links := ?_ }
  · intro s hs hhole
    rw [hkeep s hs hhole _ (h.owns_address hs)]
    exact h.metaData s hs hhole
  · intro size h8 hdvd hlt
    rcases hmem (t.freeSpaceBlock + size) with heq | ⟨r, hr, -, hrx⟩
    · rw [heq]
      exact h.heads size h8 hdvd hlt
    · exact absurd rfl (h.slot_ne hr hrx hlt)
  · intro size
    refine (h.links size).congr fun a ha => ?_
    obtain ⟨s, hs, rfl, hhole, -, hn, hp⟩ := h.owns_links ha
    exact ⟨hkeep s hs hhole _ hn, hkeep s hs hhole _ hp⟩

/-- One word of a hole assigned. -/
theorem poke (h : Rep t mem dataBlocks blocks lists holes) {s : Space} (hs : s ∈ spacesOf blocks)
    (hhole : s.address ∈ holes) {x : ℕ} (hx : s.Owns x) (v : ℕ) :
    Rep t (poke mem x v) dataBlocks blocks lists holes := by
  refine h.congr fun y => ?_
  by_cases hy : y = x
  · exact .inr ⟨s, hs, hhole, hy ▸ hx⟩
  · exact .inl (if_neg hy)

/-! ### Holes cut and closed -/

/-- A hole replaced by spaces that take the same room, each of them a hole. -/
theorem cut (h : Rep t mem dataBlocks blocks lists holes) (new : List Space) {s : Space}
    (hs : s ∈ spacesOf blocks) (hhole : s.address ∈ holes)
    (hnew : Tiles s.address (s.address + s.size) new) :
    Rep t mem dataBlocks (replaceSpace s.address new blocks) lists
      (new.map Space.address ++ holes) := by
  have hmem : ∀ r : Space, r.address ∉ new.map Space.address ++ holes →
      (r ∈ spacesOf (replaceSpace s.address new blocks) ↔ r ∈ spacesOf blocks) := by
    intro r hr
    rw [mem_replaceSpace]
    rw [List.mem_append, not_or] at hr
    constructor
    · rintro (⟨hr', -⟩ | ⟨hr', -⟩)
      · exact hr'
      · exact absurd (List.mem_map_of_mem hr') hr.1
    · intro hr'
      exact .inl ⟨hr', fun heq => hr.2 (heq ▸ hhole)⟩
  -- an old space that is not a hole is outside the one that is cut
  have hout : ∀ r ∈ spacesOf blocks, r.address ∉ holes →
      r.address ∉ new.map Space.address ++ holes := by
    intro r hr hrh hin
    rcases List.mem_append.1 hin with hin | hin
    · obtain ⟨n, hn, hna⟩ := List.mem_map.1 hin
      obtain ⟨hn1, hn2, hn3, -⟩ := hnew.bounds hn
      have heq := h.eq_of_owns hr hs (h.owns_address hr) ⟨by omega, by omega⟩
      exact hrh (heq ▸ hhole)
    · exact hrh hin
  refine
    { offsets := ?_, nodup := h.nodup, pages := h.pages, tiles := ?_, metaData := ?_, fits := ?_,
      heads := h.heads, links := h.links, lists_nodup := h.lists_nodup, mem_lists := ?_ }
  · rw [← h.offsets, replaceSpace, List.map_map]
    rfl
  · intro b hb
    obtain ⟨c, hc, rfl⟩ := List.mem_map.1 hb
    refine (h.tiles c hc).replace fun r hr hra => ?_
    rw [h.eq_of_address (mem_spacesOf.2 ⟨c, hc, hr⟩) hs hra]
    exact hnew
  · intro r hr hrh
    exact h.metaData r ((hmem r hrh).1 hr) fun hin => hrh (List.mem_append_right _ hin)
  · intro r hr hrh
    exact h.fits r ((hmem r hrh).1 hr) fun hin => hrh (List.mem_append_right _ hin)
  · intro size a
    rw [h.mem_lists]
    constructor
    · rintro ⟨r, hr, hfree, hsize, rfl, hrh⟩
      have hrh' := hout r hr hrh
      exact ⟨r, (hmem r hrh').2 hr, hfree, hsize, rfl, hrh'⟩
    · rintro ⟨r, hr, hfree, hsize, rfl, hrh⟩
      exact ⟨r, (hmem r hrh).1 hr, hfree, hsize, rfl,
        fun hin => hrh (List.mem_append_right _ hin)⟩

/-- The holes are told by their addresses, in any order. -/
theorem holes_congr (h : Rep t mem dataBlocks blocks lists holes) (holes' : List ℕ)
    (heq : ∀ x, x ∈ holes' ↔ x ∈ holes) : Rep t mem dataBlocks blocks lists holes' := by
  refine { h with metaData := ?_, fits := ?_, mem_lists := ?_ }
  · simpa only [heq] using h.metaData
  · simpa only [heq] using h.fits
  · simpa only [heq] using h.mem_lists

/-- A hole with the meta data of an allocated space is closed. -/
theorem close {a : ℕ} (h : Rep t mem dataBlocks blocks lists (a :: holes)) {s : Space}
    (hs : s ∈ spacesOf blocks) (ha : s.address = a) (hfree : s.free = false)
    (hsize : metaSize (mem a) = s.size) (halloc : isAllocated (mem a) = true) :
    Rep t mem dataBlocks blocks lists holes := by
  have hother : ∀ r ∈ spacesOf blocks, r.address ∉ holes →
      r = s ∨ r.address ∉ a :: holes := by
    intro r hr hrh
    by_cases hra : r.address = a
    · exact .inl (h.eq_of_address hr hs (hra.trans ha.symm))
    · exact .inr (by simp [hra, hrh])
  refine { h with metaData := ?_, fits := ?_, mem_lists := ?_ }
  · intro r hr hrh
    rcases hother r hr hrh with rfl | hrh
    · rw [ha, hfree]
      exact ⟨hsize, halloc⟩
    · exact h.metaData r hr hrh
  · intro r hr hrh hrf
    rcases hother r hr hrh with rfl | hrh
    · rw [hfree] at hrf
      exact absurd hrf Bool.false_ne_true
    · exact h.fits r hr hrh hrf
  · intro size x
    rw [h.mem_lists]
    constructor
    · rintro ⟨r, hr, hrf, hrs, rfl, hrh⟩
      exact ⟨r, hr, hrf, hrs, rfl, fun hin => hrh (List.mem_cons_of_mem _ hin)⟩
    · rintro ⟨r, hr, hrf, hrs, rfl, hrh⟩
      rcases hother r hr hrh with rfl | hrh
      · rw [hfree] at hrf
        exact absurd hrf Bool.false_ne_true
      · exact ⟨r, hr, hrf, hrs, rfl, hrh⟩

/-! ### The lists -/

/-- The entry of the `FSPC` block for the size of a space. -/
theorem getFreeSpacePointer_eq (h : Rep t mem dataBlocks blocks lists holes) {s : Space}
    (hs : s ∈ spacesOf blocks) :
    8 ≤ s.size ∧ 8 ∣ s.size ∧ s.size < t.pageSize ∧
      getFreeSpacePointer t s.size = .ok (t.freeSpaceBlock + s.size) := by
  obtain ⟨b, -, hb1, hb2, hpos, hdvd⟩ := h.inBlock hs
  have hround : roundUp s.size 8 = s.size := by
    simp only [roundUp, roundDown]
    omega
  have hlt : s.size < t.pageSize := by omega
  refine ⟨by omega, hdvd, hlt, ?_⟩
  rw [getFreeSpacePointer, if_neg (by omega), hround, Nat.mod_eq_of_lt hlt]

/-- The lists of two sizes share no space, and the spaces of a list are apart. -/
theorem links_ne (h : Rep t mem dataBlocks blocks lists holes) {size size' a a' x y : ℕ}
    (ha : a ∈ lists size) (ha' : a' ∈ lists size') (hne : a ≠ a') (hx : x = 8 ∨ x = 16)
    (hy : y = 8 ∨ y = 16) : a + x ≠ a' + y := by
  obtain ⟨s, hs, rfl, -, -, hn, hp⟩ := h.owns_links ha
  obtain ⟨s', hs', rfl, -, -, hn', hp'⟩ := h.owns_links ha'
  intro heq
  have hs1 : s.Owns (s.address + x) := by rcases hx with rfl | rfl <;> assumption
  have hs2 : s'.Owns (s.address + x) := by rw [heq]; rcases hy with rfl | rfl <;> assumption
  exact hne (congrArg Space.address (h.eq_of_owns hs hs' hs1 hs2))

/-- The back link of a space in a list is in no other space, and is not a meta data. -/
theorem ne_previous (h : Rep t mem dataBlocks blocks lists holes) {size b : ℕ}
    (hb : b ∈ lists size) {r : Space} (hr : r ∈ spacesOf blocks) {x : ℕ} (hx : r.Owns x)
    (hne : r.address ∈ holes ∨ x = r.address) : x ≠ b + 16 := by
  obtain ⟨s, hs, rfl, hhole, -, -, hp⟩ := h.owns_links hb
  rintro rfl
  obtain rfl := h.eq_of_owns hr hs hx hp
  rcases hne with hin | heq
  · exact hhole hin
  · omega

theorem slot_ne_previous (h : Rep t mem dataBlocks blocks lists holes) {size size' b : ℕ}
    (hb : b ∈ lists size) (hsize : size' < t.pageSize) : t.freeSpaceBlock + size' ≠ b + 16 := by
  obtain ⟨s, hs, rfl, -, -, -, hp⟩ := h.owns_links hb
  exact (h.slot_ne hs hp hsize).symm

/-- Two lists with a space in common are the lists of one size. -/
theorem size_eq (h : Rep t mem dataBlocks blocks lists holes) {size size' a : ℕ}
    (ha : a ∈ lists size) (ha' : a ∈ lists size') : size = size' := by
  obtain ⟨s, hs, -, rfl, rfl, -⟩ := (h.mem_lists size a).1 ha
  obtain ⟨s', hs', -, rfl, heq, -⟩ := (h.mem_lists size' s.address).1 ha'
  rw [h.eq_of_address hs hs' heq.symm]

/-- The words that the functions of the lists may change: the entry of a size, the back link of
the first space of its list, and the holes. -/
def Relinks (t : TableFile) (blocks : List DataBlock) (holes : List ℕ) (size : ℕ) (l : List ℕ)
    (mem mem' : ℕ → ℕ) : Prop :=
  ∀ x, x ≠ t.freeSpaceBlock + size → (∀ b ∈ l.head?, x ≠ b + 16) →
    (∀ s ∈ spacesOf blocks, s.address ∈ holes → ¬ s.Owns x) → mem' x = mem x

section Relinks

variable {mem' : ℕ → ℕ} {size : ℕ} {l : List ℕ}

theorem relinks_meta (h : Rep t mem dataBlocks blocks lists holes)
    (hl : ∀ b ∈ l.head?, b ∈ lists size) (hlt : size < t.pageSize)
    (hkeep : Relinks t blocks holes size l mem mem') {r : Space} (hr : r ∈ spacesOf blocks)
    (hrh : r.address ∉ holes) : mem' r.address = mem r.address := by
  have hown := h.owns_address hr
  refine hkeep _ (h.slot_ne hr hown hlt) (fun b hb => ?_) fun s hs hsh hsx => ?_
  · exact h.ne_previous (hl b hb) hr hown (.inr rfl)
  · exact hrh (h.eq_of_owns hs hr hsx hown ▸ hsh)

theorem relinks_head (h : Rep t mem dataBlocks blocks lists holes)
    (hl : ∀ b ∈ l.head?, b ∈ lists size) (hkeep : Relinks t blocks holes size l mem mem')
    {size' : ℕ} (hlt' : size' < t.pageSize) (hne : size' ≠ size) :
    mem' (t.freeSpaceBlock + size') = mem (t.freeSpaceBlock + size') := by
  refine hkeep _ (by omega) (fun b hb => h.slot_ne_previous (hl b hb) hlt') fun s hs _ hsx => ?_
  exact h.slot_ne hs hsx hlt' rfl

theorem relinks_next (h : Rep t mem dataBlocks blocks lists holes)
    (hl : ∀ b ∈ l.head?, b ∈ lists size) (hlt : size < t.pageSize)
    (hkeep : Relinks t blocks holes size l mem mem') {size' b : ℕ} (hb : b ∈ lists size') :
    mem' (b + 8) = mem (b + 8) := by
  obtain ⟨r, hr, rfl, hrh, -, hn, -⟩ := h.owns_links hb
  refine hkeep _ (h.slot_ne hr hn hlt) (fun c hc => ?_) fun s hs hsh hsx => ?_
  · by_cases hbc : r.address = c
    · omega
    · exact h.links_ne hb (hl c hc) hbc (.inl rfl) (.inr rfl)
  · exact hrh (h.eq_of_owns hs hr hsx hn ▸ hsh)

theorem relinks_previous (h : Rep t mem dataBlocks blocks lists holes)
    (hl : ∀ b ∈ l.head?, b ∈ lists size) (hlt : size < t.pageSize)
    (hkeep : Relinks t blocks holes size l mem mem') {size' b : ℕ} (hb : b ∈ lists size')
    (hbl : b ∉ l.head?) : mem' (b + 16) = mem (b + 16) := by
  obtain ⟨r, hr, rfl, hrh, -, -, hp⟩ := h.owns_links hb
  refine hkeep _ (h.slot_ne hr hp hlt) (fun c hc => ?_) fun s hs hsh hsx => ?_
  · exact h.links_ne hb (hl c hc) (fun hbc => hbl (hbc ▸ hc)) (.inr rfl) (.inr rfl)
  · exact hrh (h.eq_of_owns hs hr hsx hp ▸ hsh)

end Relinks

/-- The lists other than the one of `size` keep their links. -/
theorem relinks_links (h : Rep t mem dataBlocks blocks lists holes) {mem' : ℕ → ℕ} {size : ℕ}
    {l : List ℕ} (hl : ∀ b ∈ l.head?, b ∈ lists size) (hlt : size < t.pageSize)
    (hkeep : Relinks t blocks holes size l mem mem') {size' : ℕ} (hne : size' ≠ size) :
    Links mem' 8 16 0 (lists size') :=
  (h.links size').congr fun b hb =>
    ⟨h.relinks_next hl hlt hkeep hb,
      h.relinks_previous hl hlt hkeep hb fun hbl => hne (h.size_eq hb (hl b hbl))⟩

/-- What `unlink_space()` does in memory when the space is the first one of its list. -/
theorem unlinkSpace_first (h : Rep t mem dataBlocks blocks lists holes) {size a : ℕ} {l : List ℕ}
    (hl : lists size = a :: l) :
    ∃ mem', unlinkSpace t mem a = .ok mem' ∧ mem' (t.freeSpaceBlock + size) = first l ∧
      (∀ b ∈ l.head?, mem' (b + 16) = 0) ∧ Relinks t blocks holes size l mem mem' := by
  obtain ⟨s, hs, hfree, rfl, rfl, hhole⟩ := (h.mem_lists size a).1 (by simp [hl])
  obtain ⟨hnext, hprevious, -⟩ : Links mem 8 16 0 (s.address :: l) := hl ▸ h.links s.size
  obtain ⟨-, -, hlt, hpointer⟩ := h.getFreeSpacePointer_eq hs
  rw [unlinkSpace, hprevious, hnext, (h.metaData s hs hhole).1, hpointer]
  simp only [ne_eq, not_true_eq_false, if_false, ok_bind]
  refine ⟨_, rfl, ?_⟩
  cases l with
  | nil =>
    exact ⟨by simp, by simp, fun x hx _ _ => by simp [poke_of_ne _ _ hx]⟩
  | cons b l =>
    have hb : b ∈ lists s.size := by simp [hl]
    have hpos : ¬ first (b :: l) = 0 := by
      obtain ⟨r, hr, rfl, -⟩ := h.owns_links hb
      exact (h.address_pos hr).ne'
    rw [if_pos hpos, first_cons]
    refine ⟨?_, ?_, fun x hx hxb _ => ?_⟩
    · rw [poke_of_ne _ _ (h.slot_ne_previous hb hlt), poke_self]
    · intro c hc
      obtain rfl : b = c := by simpa using hc
      rw [poke_self]
    · rw [poke_of_ne _ _ (hxb b (by simp)), poke_of_ne _ _ hx]

/-- **`unlink_space()`** of the first space of a list opens a hole. -/
theorem unlink (h : Rep t mem dataBlocks blocks lists holes) {size a : ℕ} {l : List ℕ}
    (hl : lists size = a :: l) :
    ∃ mem', unlinkSpace t mem a = .ok mem' ∧ mem' a = mem a ∧
      Rep t mem' dataBlocks blocks (Function.update lists size l) (a :: holes) := by
  have ha : a ∈ lists size := by simp [hl]
  have hlmem : ∀ b ∈ l, b ∈ lists size := fun b hb => by simp [hl, hb]
  have hhead : ∀ b ∈ l.head?, b ∈ lists size := fun b hb => hlmem b (List.mem_of_mem_head? hb)
  obtain ⟨s, hs, -, hsize, hsa, hhole⟩ := (h.mem_lists size a).1 ha
  have hlt : size < t.pageSize := hsize ▸ (h.getFreeSpacePointer_eq hs).2.2.1
  have hnodup : (a :: l).Nodup := hl ▸ h.lists_nodup size
  obtain ⟨mem', hmem', hslot, hprevious, hkeep⟩ := h.unlinkSpace_first hl
  refine ⟨mem', hmem', hsa ▸ h.relinks_meta hhead hlt hkeep hs (hsa ▸ hhole), ?_⟩
  refine
    { offsets := h.offsets, nodup := h.nodup, pages := h.pages, tiles := h.tiles,
      metaData := ?_, fits := ?_, heads := ?_, links := ?_, lists_nodup := ?_, mem_lists := ?_ }
  · intro r hr hrh
    rw [List.mem_cons, not_or] at hrh
    rw [h.relinks_meta hhead hlt hkeep hr hrh.2]
    exact h.metaData r hr hrh.2
  · intro r hr hrh
    exact h.fits r hr fun hin => hrh (List.mem_cons_of_mem _ hin)
  · intro size' h8 hdvd hlt'
    by_cases heq : size' = size
    · rw [heq, hslot, Function.update_self]
    · rw [Function.update_of_ne heq, h.relinks_head hhead hkeep hlt' heq,
        h.heads size' h8 hdvd hlt']
  · intro size'
    by_cases heq : size' = size
    · rw [heq, Function.update_self]
      have hlinks : Links mem 8 16 0 (a :: l) := hl ▸ h.links size
      refine hlinks.tail.relink (fun b hb => h.relinks_next hhead hlt hkeep (hlmem b hb))
        hprevious fun b hb => ?_
      refine h.relinks_previous hhead hlt hkeep (hlmem b (List.mem_of_mem_tail hb)) fun hbl => ?_
      exact head_notMem_tail (List.nodup_cons.1 hnodup).2 hbl hb
    · rw [Function.update_of_ne heq]
      exact h.relinks_links hhead hlt hkeep heq
  · intro size'
    by_cases heq : size' = size
    · rw [heq, Function.update_self]
      exact (List.nodup_cons.1 hnodup).2
    · rw [Function.update_of_ne heq]
      exact h.lists_nodup size'
  · intro size' x
    have hsplit : x ∈ Function.update lists size l size' ↔ x ∈ lists size' ∧ x ≠ a := by
      by_cases heq : size' = size
      · rw [heq, Function.update_self, hl, List.mem_cons]
        constructor
        · intro hx
          exact ⟨.inr hx, fun hxa => (List.nodup_cons.1 hnodup).1 (hxa ▸ hx)⟩
        · rintro ⟨hx | hx, hxa⟩
          · exact absurd hx hxa
          · exact hx
      · rw [Function.update_of_ne heq]
        exact ⟨fun hx => ⟨hx, fun hxa => heq (h.size_eq (hxa ▸ hx) ha)⟩, And.left⟩
    rw [hsplit, h.mem_lists]
    constructor
    · rintro ⟨⟨r, hr, hrf, hrs, rfl, hrh⟩, hne⟩
      exact ⟨r, hr, hrf, hrs, rfl, by simp [hne, hrh]⟩
    · rintro ⟨r, hr, hrf, hrs, rfl, hrh⟩
      rw [List.mem_cons, not_or] at hrh
      exact ⟨⟨r, hr, hrf, hrs, rfl, hrh.2⟩, hrh.1⟩

/-- What `link_space()` does in memory. -/
theorem linkSpace_hole {a : ℕ} (h : Rep t mem dataBlocks blocks lists (a :: holes)) {s : Space}
    (hs : s ∈ spacesOf blocks) (ha : s.address = a) (hsize : metaSize (mem a) = s.size)
    (hfits : linkBytes ≤ s.size) :
    ∃ mem', linkSpace t mem a a = .ok mem' ∧ metaSize (mem' a) = s.size ∧
      isAllocated (mem' a) = false ∧ mem' (t.freeSpaceBlock + s.size) = a ∧
      mem' (a + 8) = first (lists s.size) ∧ mem' (a + 16) = 0 ∧
      (∀ b ∈ (lists s.size).head?, mem' (b + 16) = a) ∧
      Relinks t blocks [a] s.size (lists s.size) mem mem' := by
  subst ha
  rw [linkBytes] at hfits
  obtain ⟨h8, hdvd, hlt, hpointer⟩ := h.getFreeSpacePointer_eq hs
  have hslot : ∀ {x}, s.Owns x → x ≠ t.freeSpaceBlock + s.size := fun hx => h.slot_ne hs hx hlt
  have h0 : s.Owns s.address := h.owns_address hs
  have h1 : s.Owns (s.address + 8) := ⟨by omega, by omega⟩
  have h2 : s.Owns (s.address + 16) := ⟨by omega, by omega⟩
  rw [linkSpace, hsize, hpointer]
  simp only [ok_bind, h.heads s.size h8 hdvd hlt]
  refine ⟨_, rfl, ?_⟩
  -- the three words of the space, whatever is then done to the next space
  set w := clearPadding (clearAllocated (mem s.address))
  set mem₃ := Prinbee.poke (Prinbee.poke (Prinbee.poke mem s.address w) (s.address + 8)
    (first (lists s.size))) (s.address + 16) 0 with hmem₃
  have hw : mem₃ s.address = w := by
    rw [hmem₃, poke_of_ne _ _ (by omega), poke_of_ne _ _ (by omega), poke_self]
  have hn : mem₃ (s.address + 8) = first (lists s.size) := by
    rw [hmem₃, poke_of_ne _ _ (by omega), poke_self]
  have hp : mem₃ (s.address + 16) = 0 := poke_self _ _ _
  have hkeep : ∀ x, ¬ s.Owns x → mem₃ x = mem x := by
    intro x hx
    rw [hmem₃, poke_of_ne, poke_of_ne, poke_of_ne] <;> rintro rfl <;> exact hx (by assumption)
  have hwsize : metaSize w = s.size := by simp [w, hsize]
  have hwfree : isAllocated w = false := by simp [w]
  cases hl : lists s.size with
  | nil =>
    rw [if_neg (by simp), poke_of_ne _ _ (hslot h0), hw, poke_of_ne _ _ (hslot h1), hn,
      poke_of_ne _ _ (hslot h2), hp, hl]
    refine ⟨hwsize, hwfree, poke_self _ _ _, rfl, rfl, by simp, fun x hx _ hxs => ?_⟩
    rw [poke_of_ne _ _ hx, hkeep x (hxs s hs (by simp))]
  | cons b l =>
    have hb : b ∈ lists s.size := by simp [hl]
    have hpos : first (b :: l) ≠ 0 := by
      obtain ⟨r, hr, rfl, -⟩ := h.owns_links hb
      exact (h.address_pos hr).ne'
    have hback : ∀ {x}, s.Owns x → x ≠ b + 16 := fun hx =>
      h.ne_previous hb hs hx (.inl List.mem_cons_self)
    rw [if_pos hpos, first_cons, poke_of_ne _ _ (hslot h0), poke_of_ne _ _ (hback h0), hw,
      poke_of_ne _ _ (hslot h1), poke_of_ne _ _ (hback h1), hn, poke_of_ne _ _ (hslot h2),
      poke_of_ne _ _ (hback h2), hp, hl]
    refine ⟨hwsize, hwfree, poke_self _ _ _, rfl, rfl, fun c hc => ?_, fun x hx hxb hxs => ?_⟩
    · obtain rfl : b = c := by simpa using hc
      rw [poke_of_ne _ _ (h.slot_ne_previous hb hlt).symm, poke_self]
    · rw [poke_of_ne _ _ hx, poke_of_ne _ _ (hxb b (by simp)), hkeep x (hxs s hs (by simp))]

/-- **`link_space()`** closes a hole: a free space in front of the list of its size. -/
theorem link {a : ℕ} (h : Rep t mem dataBlocks blocks lists (a :: holes)) {s : Space}
    (hs : s ∈ spacesOf blocks) (ha : s.address = a) (hfree : s.free = true) (hhole : a ∉ holes)
    (hsize : metaSize (mem a) = s.size) (hfits : linkBytes ≤ s.size) :
    ∃ mem', linkSpace t mem a a = .ok mem' ∧
      (∀ r ∈ spacesOf blocks, r.address ∈ holes → mem' r.address = mem r.address) ∧
      Rep t mem' dataBlocks blocks (Function.update lists s.size (a :: lists s.size)) holes := by
  obtain ⟨mem', hmem', hmeta, halloc, hslot, hnext, hprevious, hback, hkeep⟩ :=
    h.linkSpace_hole hs ha hsize hfits
  have hlt := (h.getFreeSpacePointer_eq hs).2.2.1
  have hhead : ∀ b ∈ (lists s.size).head?, b ∈ lists s.size :=
    fun b hb => List.mem_of_mem_head? hb
  have hkeep' : Relinks t blocks (a :: holes) s.size (lists s.size) mem mem' :=
    fun x hx hxb hxs => hkeep x hx hxb fun r hr hra => hxs r hr (by simp_all)
  have hother : ∀ r ∈ spacesOf blocks, r.address ∉ holes → r = s ∨ r.address ∉ a :: holes := by
    intro r hr hrh
    by_cases hra : r.address = a
    · exact .inl (h.eq_of_address hr hs (hra.trans ha.symm))
    · exact .inr (by simp [hra, hrh])
  have hnot : a ∉ lists s.size := fun hin =>
    ((h.mem_lists _ _).1 hin).elim fun _ hr => hr.2.2.2.2 List.mem_cons_self
  refine ⟨mem', hmem', fun r hr hrh => ?_, ?_⟩
  · -- another hole is neither in a list nor the space that is linked
    have hown := h.owns_address hr
    refine hkeep _ (h.slot_ne hr hown hlt) (fun b hb => ?_) fun r' hr' hra' hx => ?_
    · exact h.ne_previous (hhead b hb) hr hown (.inr rfl)
    · have heq := h.eq_of_owns hr' hr hx hown
      rw [List.mem_singleton, heq] at hra'
      exact hhole (hra' ▸ hrh)
  refine
    { offsets := h.offsets, nodup := h.nodup, pages := h.pages, tiles := h.tiles,
      metaData := ?_, fits := ?_, heads := ?_, links := ?_, lists_nodup := ?_, mem_lists := ?_ }
  · intro r hr hrh
    rcases hother r hr hrh with rfl | hrh
    · rw [ha, hfree]
      exact ⟨hmeta, halloc⟩
    · rw [h.relinks_meta hhead hlt hkeep' hr hrh]
      exact h.metaData r hr hrh
  · intro r hr hrh hrf
    rcases hother r hr hrh with rfl | hrh
    · exact hfits
    · exact h.fits r hr hrh hrf
  · intro size' h8 hdvd hlt'
    by_cases heq : size' = s.size
    · rw [heq, hslot, Function.update_self, first_cons]
    · rw [Function.update_of_ne heq, h.relinks_head hhead hkeep' hlt' heq,
        h.heads size' h8 hdvd hlt']
  · intro size'
    by_cases heq : size' = s.size
    · rw [heq, Function.update_self]
      refine (h.links s.size).cons hnext hprevious
        (fun b hb => h.relinks_next hhead hlt hkeep' hb) hback fun b hb => ?_
      refine h.relinks_previous hhead hlt hkeep' (List.mem_of_mem_tail hb) fun hbl => ?_
      exact head_notMem_tail (h.lists_nodup s.size) hbl hb
    · rw [Function.update_of_ne heq]
      exact h.relinks_links hhead hlt hkeep' heq
  · intro size'
    by_cases heq : size' = s.size
    · rw [heq, Function.update_self]
      exact List.nodup_cons.2 ⟨hnot, h.lists_nodup s.size⟩
    · rw [Function.update_of_ne heq]
      exact h.lists_nodup size'
  · intro size' x
    have hsplit : x ∈ Function.update lists s.size (a :: lists s.size) size' ↔
        x ∈ lists size' ∨ (x = a ∧ size' = s.size) := by
      by_cases heq : size' = s.size
      · rw [heq, Function.update_self, List.mem_cons]
        tauto
      · rw [Function.update_of_ne heq]
        tauto
    rw [hsplit, h.mem_lists]
    constructor
    · rintro (⟨r, hr, hrf, hrs, rfl, hrh⟩ | ⟨rfl, hsize'⟩)
      · exact ⟨r, hr, hrf, hrs, rfl, fun hin => hrh (List.mem_cons_of_mem _ hin)⟩
      · exact ⟨s, hs, hfree, hsize'.symm, ha, hhole⟩
    · rintro ⟨r, hr, hrf, hrs, rfl, hrh⟩
      rcases hother r hr hrh with rfl | hrh
      · exact .inr ⟨ha, hrs.symm⟩
      · exact .inl ⟨r, hr, hrf, hrs, rfl, hrh⟩

/-- A new data block, whose only space is a hole. -/
theorem addBlock (h : Rep t mem dataBlocks blocks lists holes) (mem' : ℕ → ℕ) (free : Bool)
    (hmem : ∀ x, ¬ (t.newDataBlock dataBlocks + 8 ≤ x ∧
      x < t.newDataBlock dataBlocks + t.pageSize) → mem' x = mem x) :
    Rep t mem' (t.newDataBlock dataBlocks :: dataBlocks)
      ((t.newDataBlock dataBlocks,
        [⟨t.newDataBlock dataBlocks + 8, t.pageSize - 8, free⟩]) :: blocks) lists
      ((t.newDataBlock dataBlocks + 8) :: holes) := by
  set b := t.newDataBlock dataBlocks
  have hpage : 4096 ≤ t.pageSize := Nat.le_of_dvd t.pageSize_pos t.pageSize_dvd
  have hpage8 : 8 ∣ t.pageSize := (by decide : 8 ∣ 4096).trans t.pageSize_dvd
  -- the old spaces are in other pages
  have hout : ∀ r ∈ spacesOf blocks, ∀ x, r.Owns x → ¬ (b + 8 ≤ x ∧ x < b + t.pageSize) := by
    rintro r hr x ⟨hx1, hx2⟩ ⟨hx3, hx4⟩
    obtain ⟨c, hc, hc1, hc2, -, -⟩ := h.inBlock hr
    have hne : b ≠ c := by
      rintro rfl
      exact t.newDataBlock_notMem dataBlocks hc
    have hpages := page_apart (t.newDataBlock_dvd dataBlocks) (h.pages c hc).1 hne
    omega
  have hspaces : ∀ r, r ∈ spacesOf ((b, [⟨b + 8, t.pageSize - 8, free⟩]) :: blocks) ↔
      r = ⟨b + 8, t.pageSize - 8, free⟩ ∨ r ∈ spacesOf blocks := by
    intro r
    simp [spacesOf]
  have hold : ∀ r ∈ spacesOf blocks, r.address ≠ b + 8 := by
    intro r hr heq
    exact hout r hr _ (h.owns_address hr) ⟨heq.ge, by omega⟩
  refine
    { offsets := ?_, nodup := ?_, pages := ?_, tiles := ?_, metaData := ?_, fits := ?_,
      heads := ?_, links := ?_, lists_nodup := h.lists_nodup, mem_lists := ?_ }
  · rw [List.map_cons, h.offsets]
  · exact List.nodup_cons.2 ⟨t.newDataBlock_notMem dataBlocks, h.nodup⟩
  · intro c hc
    rcases List.mem_cons.1 hc with rfl | hc
    · exact ⟨t.newDataBlock_dvd _, t.newDataBlock_ne _, t.newDataBlock_pos _⟩
    · exact h.pages c hc
  · intro c hc
    rcases List.mem_cons.1 hc with rfl | hc
    · refine ⟨rfl, by dsimp only; omega, by dsimp only; omega, ?_⟩
      dsimp only [Tiles]
      omega
    · exact h.tiles c hc
  · intro r hr hrh
    rw [List.mem_cons, not_or] at hrh
    rcases (hspaces r).1 hr with rfl | hr
    · exact absurd rfl hrh.1
    · rw [hmem _ (hout r hr _ (h.owns_address hr))]
      exact h.metaData r hr hrh.2
  · intro r hr hrh
    rw [List.mem_cons, not_or] at hrh
    rcases (hspaces r).1 hr with rfl | hr
    · exact absurd rfl hrh.1
    · exact h.fits r hr hrh.2
  · intro size h8 hdvd hlt
    have hpages := page_apart (t.newDataBlock_dvd dataBlocks) t.freeSpaceBlock_dvd
      (t.newDataBlock_ne dataBlocks)
    rw [hmem _ (by omega)]
    exact h.heads size h8 hdvd hlt
  · intro size
    refine (h.links size).congr fun a ha => ?_
    obtain ⟨s, hs, rfl, -, -, hn, hp⟩ := h.owns_links ha
    exact ⟨hmem _ (hout s hs _ hn), hmem _ (hout s hs _ hp)⟩
  · intro size a
    rw [h.mem_lists]
    constructor
    · rintro ⟨r, hr, hrf, hrs, rfl, hrh⟩
      exact ⟨r, (hspaces r).2 (.inr hr), hrf, hrs, rfl, by simp [hold r hr, hrh]⟩
    · rintro ⟨r, hr, hrf, hrs, rfl, hrh⟩
      rw [List.mem_cons, not_or] at hrh
      rcases (hspaces r).1 hr with rfl | hr
      · exact absurd rfl hrh.1
      · exact ⟨r, hr, hrf, hrs, rfl, hrh.2⟩

end Rep

end Prinbee
