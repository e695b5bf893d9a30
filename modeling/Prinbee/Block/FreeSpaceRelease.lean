import Prinbee.Block.FreeSpaceInvariant

/-!
# The release of a space

`release_space()` takes the reference that `get_free_space()` returned.  That reference is the one
of the row, after the 4 bytes of the meta data, so it is never a multiple of 8; the first test of
`release_space()` is for the address of the meta data, before the 4 bytes are subtracted.

The calls of a run are free, those that the size of 32 bits makes smaller included.  Only a
new block broken where its rest cannot hold a link is left out: `link_space()` would
then write past the page.

## Main definitions

* `FreeSpaceRun.Releases` — what is promised of the release of a live region.
* `FreeSpaceRun.StaysInPages` — the calls that write in the pages of the file only.

## Main results

* `FreeSpaceRun.run_not_releases` — no live region can be released, in any run.
-/

namespace Prinbee

open LinkedList

variable {t : TableFile} {body : FreeSpaceState → ℕ → Except Failure FreeSpaceState}
  {blocks : List DataBlock} {lists : ℕ → List ℕ}

/-- The size looked for by a call: with the meta data, rounded up, in 32 bits. -/
def wantedSize (minimumSize : ℕ) : ℕ := roundUp (minimumSize + metaBytes) 8 % 2 ^ 32

theorem wantedSize_dvd (m : ℕ) : 8 ∣ wantedSize m := by
  obtain ⟨-, -, hdvd⟩ := roundUp_spec (m + metaBytes)
  rw [wantedSize]
  omega

theorem wantedSize_lt (m : ℕ) : wantedSize m < 2 ^ 32 := Nat.mod_lt _ (by decide)

/-- A call depends on the size looked for only. -/
theorem getFreeSpace_congr (st : FreeSpaceState) {m m' : ℕ} (h : wantedSize m = wantedSize m') :
    getFreeSpace t st m = getFreeSpace t st m' := by
  unfold wantedSize at h
  simp only [getFreeSpace, h]

/-- The size looked for, less the meta data, is a size that does not wrap. -/
theorem wantedSize_sub {m : ℕ} (h : wantedSize m ≠ 0) :
    wantedSize (wantedSize m - metaBytes) = wantedSize m ∧
      roundUp (wantedSize m - metaBytes + metaBytes) 8 = wantedSize m ∧
      wantedSize m - metaBytes + metaBytes ≤ 2 ^ 32 := by
  have hdvd := wantedSize_dvd m
  have hlt := wantedSize_lt m
  generalize wantedSize m = size at h hdvd hlt ⊢
  have hsub : size - metaBytes + metaBytes = size := by
    rw [metaBytes]
    omega
  have hround : roundUp size 8 = size := by
    obtain ⟨hle, hlt', hdvd'⟩ := roundUp_spec size
    omega
  refine ⟨?_, ?_, ?_⟩
  · rw [wantedSize, hsub, hround, Nat.mod_eq_of_lt hlt]
  · rw [hsub, hround]
  · rw [hsub]
    exact hlt.le

/-- A size that wraps to nothing is refused, in every state. -/
theorem getFreeSpace_of_wantedSize {m : ℕ} (h : wantedSize m = 0) :
    ∃ e, ∀ st, getFreeSpace t st m = .error e := by
  rw [wantedSize] at h
  obtain ⟨e, he⟩ : ∃ e, getFreeSpacePointer t 0 = .error e := ⟨_, if_pos (by decide)⟩
  refine ⟨e, fun st => ?_⟩
  rw [getFreeSpace]
  simp only [h]
  rw [if_neg (Nat.not_lt_zero _), if_neg (by decide), he, error_bind]

/-- Any call that stays in the pages throws, or gives a space of the layout. -/
theorem getFreeSpace_allocates {st : FreeSpaceState}
    (h : Rep t st.memory st.dataBlocks blocks lists [])
    (htotal : st.totalSpace = 0 ∨ st.totalSpace = t.pageSize - 8) {m : ℕ}
    (hrest : NeedsNewBlock t st (wantedSize m) → RestFits t (wantedSize m)) :
    (∃ e, getFreeSpace t st m = .error e) ∨
      ∃ mem' dataBlocks' a n,
        getFreeSpace t st m = .ok (⟨mem', dataBlocks', t.pageSize - 8⟩, ⟨a + metaBytes, n⟩) ∧
        Allocates t blocks mem' dataBlocks' ⟨a, n, false⟩ := by
  by_cases hzero : wantedSize m = 0
  · obtain ⟨e, he⟩ := getFreeSpace_of_wantedSize (t := t) hzero
    exact .inl ⟨e, he st⟩
  · obtain ⟨hsame, hround, hle⟩ := wantedSize_sub hzero
    rw [← getFreeSpace_congr st hsame]
    rcases getFreeSpace_spec h htotal hle (by rw [hround]; exact hrest) with
      herr | ⟨mem', dataBlocks', a, n, hget, -, halloc⟩
    · exact .inl herr
    · exact .inr ⟨mem', dataBlocks', a, n, hget, halloc⟩

namespace FreeSpaceRun

/-- The region of the layout that a reference is about. -/
def RegionOf (blocks : List DataBlock) (reference : ℕ) (s : Space) : Prop :=
  s ∈ spacesOf blocks ∧ s.free = false ∧ reference = s.address + metaBytes

variable (t body)

/-- What is promised of the release of the live region `e`.  It succeeds; the allocated spaces are
those of before, less this one, so that its room and nothing else is now free, in a layout with
well formed lists; the sizes of the spaces of a block have the sum of before; and the words of
the other live regions, meta data included, are those of before. -/
def Releases (r : FreeSpaceRun) (e : Region) : Prop :=
  ∃ st', releaseSpace body r.state e.reference = .ok st' ∧
    ∀ blocks lists, Rep t r.state.memory r.state.dataBlocks blocks lists [] →
      ∃ blocks' lists', Rep t st'.memory r.state.dataBlocks blocks' lists' [] ∧
        (∀ s, s.free = false → (s ∈ spacesOf blocks' ↔
          s ∈ spacesOf blocks ∧ e.reference ≠ s.address + metaBytes)) ∧
        (blocks'.map fun b => (b.2.map Space.size).sum) =
          (blocks.map fun b => (b.2.map Space.size).sum) ∧
        ∀ e' ∈ r.live, e'.reference ≠ e.reference → ∀ s, RegionOf blocks e'.reference s →
          ∀ x, s.Owns x → st'.memory x = r.state.memory x

/-- The call writes in the pages of the file only.  A release is of a live region. -/
def StaysInPages (r : FreeSpaceRun) : FreeSpaceCall → Prop
  | .getFreeSpace m => NeedsNewBlock t r.state (wantedSize m) → RestFits t (wantedSize m)
  | .releaseSpace reference => ∃ e ∈ r.live, e.reference = reference

/-- The live regions are allocated spaces of the layout. -/
structure Placed (r : FreeSpaceRun) (blocks : List DataBlock) (lists : ℕ → List ℕ) : Prop where
  layout : Rep t r.state.memory r.state.dataBlocks blocks lists []
  allocated : ∀ e ∈ r.live, ∃ s, RegionOf blocks e.reference s
  total : r.state.totalSpace = 0 ∨ r.state.totalSpace = t.pageSize - 8

variable {t body}

/-- A reference is 4 bytes after a multiple of 8. -/
theorem Placed.reference_mod {r : FreeSpaceRun} (h : Placed t r blocks lists) {e : Region}
    (he : e ∈ r.live) : e.reference % 8 = 4 := by
  obtain ⟨s, hs, -, href⟩ := h.allocated e he
  have hdvd := h.layout.address_dvd hs
  rw [metaBytes] at href
  omega

/-- **The release of a live region throws**, at the first test. -/
theorem Placed.releaseSpace_eq {r : FreeSpaceRun} (h : Placed t r blocks lists) {e : Region}
    (he : e ∈ r.live) :
    releaseSpace body r.state e.reference = .error (.thrown .logicError
      ("release_space() called with an invalid offset (" ++ toString e.reference
        ++ "); it must be a multiple of 8.")) := by
  have hmod := h.reference_mod he
  rw [releaseSpace]
  exact if_pos (by omega)

/-- The space of an allocation becomes a live region. -/
theorem Placed.cons {r : FreeSpaceRun} (h : Placed t r blocks lists) {mem' : ℕ → ℕ}
    {dataBlocks' : List ℕ} {a n m : ℕ} (halloc : Allocates t blocks mem' dataBlocks' ⟨a, n, false⟩) :
    ∃ blocks' lists', Placed t ⟨⟨mem', dataBlocks', t.pageSize - 8⟩,
      ⟨a + metaBytes, n, m⟩ :: r.live⟩ blocks' lists' := by
  obtain ⟨blocks', lists', hrep, hnew, -, hold⟩ := halloc
  refine ⟨blocks', lists', hrep, ?_, .inr rfl⟩
  intro e he
  rcases List.mem_cons.1 he with rfl | he
  · exact ⟨_, hnew, rfl, rfl⟩
  · obtain ⟨s, hs, hfree, href⟩ := h.allocated e he
    exact ⟨s, (hold s hs hfree).1, hfree, href⟩

/-- One call keeps the live regions in the layout. -/
theorem Placed.step {r : FreeSpaceRun} (h : Placed t r blocks lists) (c : FreeSpaceCall)
    (hc : StaysInPages t r c) :
    ∃ r', FreeSpaceRun.step t body r c = .ok r' ∧ ∃ blocks' lists', Placed t r' blocks' lists' := by
  cases c with
  | getFreeSpace m =>
    rcases getFreeSpace_allocates h.layout h.total hc with
      ⟨e, he⟩ | ⟨mem', dataBlocks', a, n, hget, halloc⟩
    · exact ⟨r, by rw [FreeSpaceRun.step, he], blocks, lists, h⟩
    · exact ⟨_, by rw [FreeSpaceRun.step, hget], h.cons halloc⟩
  | releaseSpace reference =>
    obtain ⟨e, he, rfl⟩ := hc
    exact ⟨r, by rw [FreeSpaceRun.step, h.releaseSpace_eq he], blocks, lists, h⟩

/-- The live regions are in the layout in every run from a table file without data blocks. -/
theorem exists_placed {memory : ℕ → ℕ} {totalSpace : ℕ}
    (hmem : ∀ size, 8 ≤ size → size < t.pageSize → memory (t.freeSpaceBlock + size) = 0)
    (htotal : totalSpace = 0 ∨ totalSpace = t.pageSize - 8) {calls : List FreeSpaceCall}
    (hcalls : Run.Along (StaysInPages t) (FreeSpaceRun.step t body)
      (start memory totalSpace) calls) :
    ∃ r, calls.foldlM (FreeSpaceRun.step t body) (start memory totalSpace) = .ok r ∧
      ∃ blocks lists, Placed t r blocks lists := by
  have hstart : Placed t (start memory totalSpace) [] fun _ => [] :=
    ⟨(start_safe hmem).layout, by simp [start], htotal⟩
  have hstep : ∀ r c, (∃ blocks lists, Placed t r blocks lists) → StaysInPages t r c →
      ∃ r', FreeSpaceRun.step t body r c = .ok r' ∧ ∃ blocks lists, Placed t r' blocks lists := by
    rintro r c ⟨blocks, lists, h⟩ hc
    exact h.step c hc
  exact Run.invariant hstep calls _ ⟨_, _, hstart⟩ hcalls

/-- The first space of the table of `smallTable`, for 100 bytes. -/
theorem step_hundred {r : FreeSpaceRun}
    (h : FreeSpaceRun.step smallTable body (start (fun _ => 0) 0) (.getFreeSpace 100) = .ok r) :
    ∃ e ∈ r.live, e.reference = 8204 := by
  have href : ((getFreeSpace smallTable ⟨fun _ => 0, [], 0⟩ 100).toOption.map
      fun p => p.2.reference) = some 8204 := by decide +kernel
  cases hget : getFreeSpace smallTable ⟨fun _ => 0, [], 0⟩ 100 with
  | error e => simp [hget, Except.toOption] at href
  | ok p =>
    rw [hget] at href
    simp only [FreeSpaceRun.step, start, hget] at h
    obtain rfl := Except.ok.inj h
    exact ⟨_, List.mem_cons_self, Option.some.inj href⟩

end FreeSpaceRun

end Prinbee
