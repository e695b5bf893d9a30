import Prinbee.Data.VirtualBuffer

/-!
# The chunks of a virtual buffer

What the loops of `pread()`, `pwrite()`, `pinsert()` and `perase()` do to a list of chunks, in
terms of the bytes these show.  Each loop has one lemma, by induction on the chunks, and the
lemma says where the bytes went; nothing after this module unfolds a loop.

A write to a block is also a write to every other chunk that shows the same bytes, so the
lemma about `pwrite()` carries the chunks already passed (`others`) along.

## Main definitions

* `Vbuf.Covers` — the bytes of the blocks that a chunk shows.
* `SameOutside` — two states of the blocks that differ in a given set of bytes only.
* `WriteSafe`, `InsertSafe`, `EraseSafe` — the calls that stay clear of the block defects.

## Main results

* `preadLoop_eq`, `pwriteLoop_eq`, `growLoop_spec`, `pinsertLoop_eq`, `peraseLoop_eq`.
-/

namespace Prinbee

/-- The bytes that a list of chunks shows. -/
def viewAll (blocks : Blocks) (bs : List Vbuf) : List UInt8 := bs.flatMap (Vbuf.view blocks)

/-- The number of bytes that a list of chunks shows. -/
def sizeAll (bs : List Vbuf) : ℕ := (bs.map Vbuf.size).sum

@[simp] theorem viewAll_nil (blocks : Blocks) : viewAll blocks [] = [] := rfl

@[simp] theorem viewAll_cons (blocks : Blocks) (b : Vbuf) (bs : List Vbuf) :
    viewAll blocks (b :: bs) = b.view blocks ++ viewAll blocks bs := rfl

@[simp] theorem sizeAll_nil : sizeAll [] = 0 := rfl

@[simp] theorem sizeAll_cons (b : Vbuf) (bs : List Vbuf) :
    sizeAll (b :: bs) = b.size + sizeAll bs := rfl

namespace Vbuf

variable {blocks : Blocks} {b : Vbuf}

theorem length_view (h : b.WellFormed blocks) : (b.view blocks).length = b.size := by
  unfold WellFormed at h
  unfold view
  split at h
  · rename_i i hb
    rw [List.length_slice_of_le h]
  · rw [List.length_take]; omega

/-- Reading inside a chunk reads what it shows. -/
theorem load_eq (h : b.WellFormed blocks) {offset n : ℕ} (hle : offset + n ≤ b.size) :
    b.load blocks offset n = .ok ((b.view blocks).slice offset n) := by
  unfold WellFormed at h
  unfold load view
  split at h
  · rw [if_pos (by omega)]
    congr 1
    simp only [List.slice, List.drop_take, List.drop_drop, List.take_take]
    congr 1; omega
  · rw [if_pos (by omega)]
    congr 1
    simp only [List.slice, List.drop_take, List.take_take]
    congr 1; omega

/-- Byte `k` of block `i` is one the chunk shows. -/
def Covers (b : Vbuf) (i k : ℕ) : Prop :=
  b.block = some i ∧ b.offset ≤ k ∧ k < b.offset + b.size

end Vbuf

/-- The two states of the blocks differ only in bytes of `S`. -/
def SameOutside (S : ℕ → ℕ → Prop) (m m' : Blocks) : Prop :=
  ∀ i, (m' i).length = (m i).length ∧ ∀ k, ¬ S i k → (m' i)[k]? = (m i)[k]?

namespace SameOutside

variable {S T : ℕ → ℕ → Prop} {m m' m'' : Blocks}

theorem refl (S : ℕ → ℕ → Prop) (m : Blocks) : SameOutside S m m :=
  fun _ => ⟨rfl, fun _ _ => rfl⟩

theorem trans (h : SameOutside S m m') (h' : SameOutside S m' m'') : SameOutside S m m'' :=
  fun i => ⟨(h' i).1.trans (h i).1, fun k hk => ((h' i).2 k hk).trans ((h i).2 k hk)⟩

theorem mono (h : SameOutside S m m') (hST : ∀ i k, S i k → T i k) : SameOutside T m m' :=
  fun i => ⟨(h i).1, fun k hk => (h i).2 k fun hs => hk (hST i k hs)⟩

/-- A chunk that shows none of the bytes that changed. -/
theorem view_eq (h : SameOutside S m m') {b : Vbuf} (hb : ∀ i k, S i k → ¬ b.Covers i k) :
    b.view m' = b.view m := by
  unfold Vbuf.view
  split
  · rename_i i hi
    apply List.ext_getElem?
    intro k
    rw [List.getElem?_slice, List.getElem?_slice]
    by_cases hk : k < b.size
    · rw [if_pos hk, if_pos hk]
      exact (h i).2 _ fun hs => hb i _ hs ⟨hi, by omega, by omega⟩
    · rw [if_neg hk, if_neg hk]
  · rfl

theorem viewAll_eq (h : SameOutside S m m') {bs : List Vbuf}
    (hb : ∀ b ∈ bs, ∀ i k, S i k → ¬ b.Covers i k) : viewAll m' bs = viewAll m bs := by
  induction bs with
  | nil => rfl
  | cons b bs ih =>
    rw [viewAll_cons, viewAll_cons, h.view_eq (hb b (List.mem_cons_self ..)),
      ih fun c hc => hb c (List.mem_cons_of_mem _ hc)]

theorem wellFormed (h : SameOutside S m m') {b : Vbuf} (hb : b.WellFormed m) :
    b.WellFormed m' := by
  unfold Vbuf.WellFormed at *
  split at hb
  · rename_i i hi
    rw [(h i).1]; exact hb
  · exact hb

end SameOutside

theorem length_viewAll {blocks : Blocks} {bs : List Vbuf} (h : ∀ b ∈ bs, b.WellFormed blocks) :
    (viewAll blocks bs).length = sizeAll bs := by
  induction bs with
  | nil => rfl
  | cons b bs ih =>
    rw [viewAll_cons, List.length_append, sizeAll_cons, Vbuf.length_view (h b (by simp)),
      ih fun c hc => h c (List.mem_cons_of_mem _ hc)]

/-! ### Reading -/

/-- **`pread()` reads a slice**: whatever the chunks, the bytes copied are those of the list. -/
theorem preadLoop_eq {blocks : Blocks} {bs : List Vbuf} (h : ∀ b ∈ bs, b.WellFormed blocks)
    (size offset : ℕ) :
    preadLoop blocks bs size offset = .ok ((viewAll blocks bs).slice offset size) := by
  induction bs generalizing size offset with
  | nil => simp [preadLoop]
  | cons b bs ih =>
    have hb : b.WellFormed blocks := h b (by simp)
    have hlen := Vbuf.length_view hb
    have hih := ih fun c hc => h c (List.mem_cons_of_mem _ hc)
    rw [preadLoop, viewAll_cons]
    by_cases hskip : b.size ≤ offset
    · rw [if_pos hskip, hih, List.slice_append_right _ _ (by omega), hlen]
    · rw [if_neg hskip]
      dsimp only
      rw [Vbuf.load_eq hb (by omega), ok_bind]
      by_cases hfit : size ≤ b.size - offset
      · rw [min_eq_left hfit, if_pos (by omega), List.slice_append_left _ (by omega)]
      · rw [min_eq_right (by omega), if_neg (by omega), hih, ok_bind,
          List.slice_append_span _ (by omega) (by omega), hlen]
        congr 2
        · rw [List.slice, List.take_of_length_le (by rw [List.length_drop]; omega)]
        · rw [List.slice, List.drop_zero]
          congr 1; omega

/-! ### Writing -/

namespace Vbuf

/-- Storing `size` bytes at `offset` of this chunk changes what it shows, there and nowhere
else: a block chunk starts at the first byte of its block, and no other chunk shows the
bytes stored. -/
def StoreSafe (b : Vbuf) (others : List Vbuf) (offset size : ℕ) : Prop :=
  ∀ i, b.block = some i → b.offset = 0 ∧
    ∀ d ∈ others, ∀ k, offset ≤ k → k < offset + size → ¬ d.Covers i k

/-- The same place of the same block, or a vector with as many bytes. -/
def SamePlace (b c : Vbuf) : Prop :=
  c.block = b.block ∧ c.offset = b.offset ∧ c.size = b.size ∧ c.capacity = b.capacity

theorem SamePlace.refl (b : Vbuf) : b.SamePlace b := ⟨rfl, rfl, rfl, rfl⟩

theorem SamePlace.covers {b c : Vbuf} (h : b.SamePlace c) {i k : ℕ} :
    c.Covers i k ↔ b.Covers i k := by
  unfold Covers; rw [h.1, h.2.1, h.2.2.1]

/-- A store inside a chunk overwrites what the chunk shows. -/
theorem store_eq {m : Blocks} {b : Vbuf} (h : b.WellFormed m) {others : List Vbuf} (offset : ℕ)
    (bytes : List UInt8) (hle : offset + bytes.length ≤ b.size)
    (hsafe : b.StoreSafe others offset bytes.length) :
    ∃ m' b', b.store m offset bytes = .ok (m', b') ∧ b.SamePlace b' ∧ b'.WellFormed m' ∧
      b'.view m' = (b.view m).overwrite offset bytes ∧
      SameOutside (fun i k => b.Covers i k ∧ ∀ d ∈ others, ¬ d.Covers i k) m m' := by
  cases hb : b.block with
  | some i =>
    obtain ⟨hzero, hothers⟩ := hsafe i hb
    have hin : b.offset + b.size ≤ (m i).length := by simpa [WellFormed, hb] using h
    have hlen : ((m i).overwrite offset bytes).length = (m i).length :=
      List.length_overwrite_of_le (by omega)
    refine ⟨Function.update m i ((m i).overwrite offset bytes), b, ?_, .refl b, ?_, ?_, ?_⟩
    · simp only [store, hb]
      rw [if_pos (by omega)]
    · simpa [WellFormed, hb, hlen] using hin
    · simp only [view, hb, Function.update_self]
      rw [hzero, List.slice_overwrite (Nat.zero_le _) (by omega) (by omega), Nat.sub_zero]
    · intro j
      by_cases hj : j = i
      · subst hj
        rw [Function.update_self]
        refine ⟨hlen, fun k hk => ?_⟩
        rw [List.getElem?_overwrite (by omega)]
        split
        · rfl
        · split
          · -- byte `k` was stored, so it is one the chunk covers alone
            exact absurd ⟨⟨hb, by omega, by omega⟩,
              fun d hd => hothers d hd k (by omega) (by omega)⟩ hk
          · rfl
      · rw [Function.update_of_ne hj]
        exact ⟨rfl, fun _ _ => rfl⟩
  | none =>
    obtain ⟨hsize, hcap⟩ : b.size ≤ b.data.length ∧ b.data.length ≤ b.capacity := by
      simpa [WellFormed, hb] using h
    have hlen : (b.data.overwrite offset bytes).length = b.data.length :=
      List.length_overwrite_of_le (by omega)
    refine ⟨m, { b with data := b.data.overwrite offset bytes }, ?_, ⟨rfl, rfl, rfl, rfl⟩,
      ?_, ?_, .refl _ m⟩
    · simp only [store, hb]
      rw [if_pos (by omega)]
    · simp only [WellFormed, hb, hlen]
      exact ⟨hsize, hcap⟩
    · simp only [view, hb]
      have hs : (b.data.overwrite offset bytes).slice 0 b.size
          = (b.data.slice 0 b.size).overwrite (offset - 0) bytes :=
        List.slice_overwrite (Nat.zero_le offset) (by omega) (by omega)
      simpa [List.slice] using hs

end Vbuf

/-- The loop of `pwrite()` only stores where it is safe to.  `others` are the chunks before. -/
def WriteSafe : List Vbuf → List Vbuf → ℕ → ℕ → Prop
  | _, [], _, _ => True
  | others, b :: bs, size, offset =>
    if b.size ≤ offset then WriteSafe (b :: others) bs size (offset - b.size)
    else
      b.StoreSafe (others ++ bs) offset (min size (b.size - offset)) ∧
        (b.size - offset < size → WriteSafe (b :: others) bs (size - (b.size - offset)) 0)

theorem samePlace_cons {b b' : Vbuf} {bs bs' : List Vbuf} (hb : b.SamePlace b')
    (h : ∀ c' ∈ bs', ∃ c ∈ bs, c.SamePlace c') :
    ∀ c' ∈ b' :: bs', ∃ c ∈ b :: bs, c.SamePlace c' := by
  intro c' hc'
  rcases List.mem_cons.1 hc' with rfl | hc'
  · exact ⟨b, List.mem_cons_self .., hb⟩
  · obtain ⟨c, hc, hcc'⟩ := h c' hc'
    exact ⟨c, List.mem_cons_of_mem _ hc, hcc'⟩

/-- **`pwrite()` overwrites a range**, as far as the chunks go, and leaves the chunks `others`
and the bytes of the blocks that no chunk shows as they were. -/
theorem pwriteLoop_eq {m : Blocks} {others bs : List Vbuf} (h : ∀ b ∈ bs, b.WellFormed m)
    (bytes : List UInt8) (offset : ℕ) (hsafe : WriteSafe others bs bytes.length offset) :
    ∃ m' bs', pwriteLoop m bs bytes offset = .ok (m', bs', bytes.drop (sizeAll bs - offset)) ∧
      (∀ b' ∈ bs', ∃ b ∈ bs, b.SamePlace b') ∧ (∀ b ∈ bs', b.WellFormed m') ∧
      viewAll m' bs' = (viewAll m bs).overwrite offset (bytes.take (sizeAll bs - offset)) ∧
      SameOutside (fun i k => (∃ b ∈ bs, b.Covers i k) ∧ ∀ d ∈ others, ¬ d.Covers i k) m m' := by
  induction bs generalizing m others bytes offset with
  | nil => exact ⟨m, [], by simp [pwriteLoop], by simp, by simp, by simp, .refl _ m⟩
  | cons b bs ih =>
    have hb : b.WellFormed m := h b (by simp)
    have hbs : ∀ c ∈ bs, c.WellFormed m := fun c hc => h c (List.mem_cons_of_mem _ hc)
    have hlen := Vbuf.length_view hb
    rw [pwriteLoop]
    by_cases hskip : b.size ≤ offset
    · rw [WriteSafe, if_pos hskip] at hsafe
      obtain ⟨m', bs', hrun, hplace, hwf, hview, hsame⟩ := ih hbs _ _ hsafe
      have hfree : ∀ i k, (∃ c ∈ bs, c.Covers i k) ∧ (∀ d ∈ b :: others, ¬ d.Covers i k) →
          ¬ b.Covers i k := fun i k hs => hs.2 b (by simp)
      have hleft : sizeAll (b :: bs) - offset = sizeAll bs - (offset - b.size) := by
        rw [sizeAll_cons]; omega
      refine ⟨m', b :: bs', ?_, samePlace_cons (.refl b) hplace, ?_, ?_, ?_⟩
      · rw [if_pos hskip, hrun, ok_bind, hleft]
      · intro c hc
        rcases List.mem_cons.1 hc with rfl | hc
        · exact hsame.wellFormed hb
        · exact hwf c hc
      · rw [viewAll_cons, viewAll_cons, hview, hsame.view_eq hfree,
          List.overwrite_append_right _ _ (by omega), hlen, hleft]
      · exact hsame.mono fun i k ⟨⟨c, hc, hk⟩, hd⟩ =>
          ⟨⟨c, List.mem_cons_of_mem _ hc, hk⟩, fun d hd' => hd d (List.mem_cons_of_mem _ hd')⟩
    · rw [WriteSafe, if_neg hskip] at hsafe
      obtain ⟨hstore, hrest⟩ := hsafe
      have htake : (bytes.take (min bytes.length (b.size - offset))).length
          = min bytes.length (b.size - offset) := by rw [List.length_take]; omega
      obtain ⟨m₁, b₁, hst, hplace₁, hwf₁, hview₁, hsame₁⟩ :=
        Vbuf.store_eq hb offset (bytes.take (min bytes.length (b.size - offset)))
          (by rw [htake]; omega) (by rw [htake]; exact hstore)
      have hfree₁ : ∀ c ∈ bs, ∀ i k, b.Covers i k ∧ (∀ d ∈ others ++ bs, ¬ d.Covers i k) →
          ¬ c.Covers i k := fun c hc i k hs => hs.2 c (List.mem_append_right _ hc)
      have hwf₂ : ∀ c ∈ bs, c.WellFormed m₁ := fun c hc => hsame₁.wellFormed (hbs c hc)
      have hview₂ : viewAll m₁ bs = viewAll m bs := hsame₁.viewAll_eq hfree₁
      rw [if_neg hskip]
      dsimp only
      rw [hst, ok_bind]
      by_cases hfit : bytes.length ≤ b.size - offset
      · have hall : bytes.length ≤ sizeAll (b :: bs) - offset := by rw [sizeAll_cons]; omega
        rw [min_eq_left hfit, List.take_length] at hview₁
        refine ⟨m₁, b₁ :: bs, ?_, samePlace_cons hplace₁ ?_, ?_, ?_, ?_⟩
        · dsimp only
          rw [min_eq_left hfit, if_pos (by omega), List.drop_eq_nil_of_le hall]
        · exact fun c hc => ⟨c, hc, .refl c⟩
        · intro c hc
          rcases List.mem_cons.1 hc with rfl | hc
          · exact hwf₁
          · exact hwf₂ c hc
        · rw [viewAll_cons, viewAll_cons, hview₁, hview₂, List.take_of_length_le hall,
            List.overwrite_append_left _ (by omega)]
        · exact hsame₁.mono fun i k ⟨hk, hd⟩ => ⟨⟨b, by simp, hk⟩,
            fun d hd' => hd d (List.mem_append_left _ hd')⟩
      · have hmin : min bytes.length (b.size - offset) = b.size - offset := by omega
        rw [hmin] at hview₁
        have hdrop : (bytes.drop (b.size - offset)).length
            = bytes.length - (b.size - offset) := List.length_drop
        obtain ⟨m', bs', hrun, hplace, hwf, hview, hsame⟩ :=
          ih hwf₂ (bytes.drop (b.size - offset)) 0
            (by rw [hdrop]; exact hrest (by omega))
        have hfree : ∀ i k, (∃ c ∈ bs, c.Covers i k) ∧ (∀ d ∈ b :: others, ¬ d.Covers i k) →
            ¬ b₁.Covers i k := fun i k hs => by rw [hplace₁.covers]; exact hs.2 b (by simp)
        have hleft : sizeAll (b :: bs) - offset = b.size - offset + (sizeAll bs - 0) := by
          rw [sizeAll_cons]; omega
        refine ⟨m', b₁ :: bs', ?_, samePlace_cons hplace₁ hplace, ?_, ?_, ?_⟩
        · dsimp only
          rw [hmin, if_neg (by omega), hrun, ok_bind, List.drop_drop, hleft]
        · intro c hc
          rcases List.mem_cons.1 hc with rfl | hc
          · exact hsame.wellFormed hwf₁
          · exact hwf c hc
        · rw [viewAll_cons, viewAll_cons, hview, hsame.view_eq hfree, hview₁, hview₂]
          rw [List.overwrite_append_span _ (by omega) (by rw [List.length_take, hleft]; omega),
            hlen, List.take_take, List.drop_take, hleft, Nat.add_sub_cancel_left,
            min_eq_left (Nat.le_add_right _ _)]
        · refine .trans (hsame₁.mono fun i k ⟨hk, hd⟩ => ⟨⟨b, by simp, hk⟩, ?_⟩)
            (hsame.mono fun i k ⟨⟨c, hc, hk⟩, hd⟩ => ⟨⟨c, by simp [hc], hk⟩, ?_⟩)
          · exact fun d hd' => hd d (List.mem_append_left _ hd')
          · exact fun d hd' => hd d (List.mem_cons_of_mem _ hd')

/-- A chunk the buffer owns shows the bytes of its vector. -/
theorem Vbuf.view_owned (m : Blocks) {b : Vbuf} (h : b.block = none) :
    b.view m = b.data.take b.size := by simp only [view, h]

theorem Vbuf.wellFormed_owned (m : Blocks) {b : Vbuf} (h : b.block = none) :
    b.WellFormed m ↔ b.size ≤ b.data.length ∧ b.data.length ≤ b.capacity := by
  simp only [WellFormed, h]

theorem Vbuf.not_covers_owned {b : Vbuf} (h : b.block = none) (i k : ℕ) : ¬ b.Covers i k := by
  rintro ⟨hb, -⟩
  rw [h] at hb
  cases hb

/-- The edit of the chunks `bs` into `bs'` keeps them well formed, shows `l` and no more bytes
of the blocks than before. -/
structure Edited (m : Blocks) (bs bs' : List Vbuf) (l : List UInt8) : Prop where
  wellFormed : ∀ b ∈ bs', b.WellFormed m
  view : viewAll m bs' = l
  covers : ∀ b' ∈ bs', ∀ i k, b'.Covers i k → ∃ b ∈ bs, b.Covers i k

namespace Edited

variable {m : Blocks} {bs bs' : List Vbuf} {b b' : Vbuf} {l : List UInt8}

theorem sizeAll_eq (h : Edited m bs bs' l) : sizeAll bs' = l.length := by
  rw [← h.view, length_viewAll h.wellFormed]

/-- The first chunk replaced by one that shows no more of the blocks. -/
theorem cons (hb : b'.WellFormed m) (hcov : ∀ i k, b'.Covers i k → b.Covers i k)
    (h : Edited m bs bs' l) : Edited m (b :: bs) (b' :: bs') (b'.view m ++ l) where
  wellFormed := List.forall_mem_cons.2 ⟨hb, h.wellFormed⟩
  view := by rw [viewAll_cons, h.view]
  covers := by
    intro c hc i k hk
    rcases List.mem_cons.1 hc with rfl | hc
    · exact ⟨b, List.mem_cons_self .., hcov i k hk⟩
    · obtain ⟨d, hd, hk'⟩ := h.covers c hc i k hk
      exact ⟨d, List.mem_cons_of_mem _ hd, hk'⟩

/-- The first chunk removed. -/
theorem tail (b : Vbuf) (h : Edited m bs bs' l) : Edited m (b :: bs) bs' l where
  wellFormed := h.wellFormed
  view := h.view
  covers := by
    intro c hc i k hk
    obtain ⟨d, hd, hk'⟩ := h.covers c hc i k hk
    exact ⟨d, List.mem_cons_of_mem _ hd, hk'⟩

theorem refl (h : ∀ b ∈ bs, b.WellFormed m) : Edited m bs bs (viewAll m bs) :=
  ⟨h, rfl, fun c hc _ _ hk => ⟨c, hc, hk⟩⟩

/-- The first chunk replaced by one with its own bytes. -/
theorem head_owned (h : ∀ c ∈ bs, c.WellFormed m) (hb : b'.block = none)
    (hsize : b'.size ≤ b'.data.length) (hcap : b'.data.length ≤ b'.capacity) :
    Edited m (b :: bs) (b' :: bs) (b'.data.take b'.size ++ viewAll m bs) := by
  rw [← Vbuf.view_owned m hb]
  refine .cons ((Vbuf.wellFormed_owned m hb).2 ⟨hsize, hcap⟩) ?_ (.refl h)
  intro i k hk
  exact absurd hk (Vbuf.not_covers_owned hb i k)

/-- A new chunk after the last one. -/
theorem append_owned (v : VectorCapacity) (h : Edited m bs bs' l) (bytes : List UInt8) :
    Edited m bs
      (bs' ++ [{ data := bytes, capacity := v.copied bytes.length, size := bytes.length }])
      (l ++ bytes) where
  wellFormed := by
    intro c hc
    rcases List.mem_append.1 hc with hc | hc
    · exact h.wellFormed c hc
    · obtain rfl := List.mem_singleton.1 hc
      exact (Vbuf.wellFormed_owned m rfl).2 ⟨le_rfl, v.le_copied _⟩
  view := by
    rw [← h.view]
    simp [viewAll, Vbuf.view]
  covers := by
    intro c hc i k hk
    rcases List.mem_append.1 hc with hc | hc
    · exact h.covers c hc i k hk
    · obtain rfl := List.mem_singleton.1 hc
      exact absurd hk (Vbuf.not_covers_owned rfl i k)

end Edited

/-- **The end of `pwrite()` appends.** -/
theorem growLoop_spec {m : Blocks} {bs : List Vbuf} (v : VectorCapacity)
    (h : ∀ b ∈ bs, b.WellFormed m) (bytes : List UInt8) :
    Edited m bs (growLoop v bs bytes) (viewAll m bs ++ bytes) := by
  induction bs with
  | nil => exact (Edited.refl h).append_owned v bytes
  | cons b bs ih =>
    have hb : b.WellFormed m := h b (by simp)
    cases bs with
    | cons c bs =>
      rw [growLoop, viewAll_cons, List.append_assoc]
      exact .cons hb (fun _ _ hk => hk) (ih fun d hd => h d (List.mem_cons_of_mem _ hd))
    | nil =>
      cases hblock : b.block with
      | some i =>
        simp only [growLoop, hblock]
        exact (Edited.refl h).append_owned v bytes
      | none =>
        simp only [growLoop, hblock]
        by_cases hroom : b.capacity - b.size = 0
        · rw [if_pos hroom]
          exact (Edited.refl h).append_owned v bytes
        · -- the last vector takes what it has room for
          rw [if_neg hroom]
          obtain ⟨hsize, hcap⟩ := (Vbuf.wellFormed_owned m hblock).1 hb
          set sz := min (b.capacity - b.size) bytes.length with hsz
          have hlen : (b.data.take b.size ++ bytes.take sz).length = b.size + sz := by
            rw [List.length_append, List.length_take, List.length_take]; omega
          have hlast : Edited m [b]
              [{ block := none, data := b.data.take b.size ++ bytes.take sz
                 capacity := b.capacity, offset := b.offset, size := b.size + sz }]
              ((b.data.take b.size ++ bytes.take sz).take (b.size + sz) ++ viewAll m []) :=
            .head_owned (by simp) rfl hlen.ge (by dsimp only; omega)
          rw [List.take_of_length_le hlen.le, viewAll_nil, List.append_nil] at hlast
          rw [viewAll_cons, viewAll_nil, List.append_nil, Vbuf.view_owned m hblock]
          by_cases hfit : bytes.length - sz = 0
          · rw [if_pos hfit]
            have hall : bytes.take sz = bytes := List.take_of_length_le (by omega)
            rw [hall] at hlast ⊢
            exact hlast
          · rw [if_neg hfit]
            have hmore := hlast.append_owned v (bytes.drop sz)
            rwa [List.append_assoc, List.take_append_drop, List.length_drop] at hmore

/-! ### Inserting -/

/-- The position is in a chunk the buffer owns. -/
def InsertSafe : List Vbuf → ℕ → Prop
  | [], _ => True
  | b :: bs, offset =>
    if b.size ≤ offset then InsertSafe bs (offset - b.size) else b.block = none

/-- **`pinsert()` inserts a range.** -/
theorem pinsertLoop_eq {m : Blocks} {bs : List Vbuf} (v : VectorCapacity)
    (h : ∀ b ∈ bs, b.WellFormed m) (bytes : List UInt8) (offset : ℕ) (hlt : offset < sizeAll bs)
    (hsafe : InsertSafe bs offset) :
    ∃ bs', pinsertLoop v bs bytes offset = .ok (.inl bs') ∧
      Edited m bs bs' ((viewAll m bs).insertRange offset bytes) := by
  induction bs generalizing offset with
  | nil => simp at hlt
  | cons b bs ih =>
    have hb : b.WellFormed m := h b (by simp)
    have hbs : ∀ c ∈ bs, c.WellFormed m := fun c hc => h c (List.mem_cons_of_mem _ hc)
    have hlen := Vbuf.length_view hb
    rw [sizeAll_cons] at hlt
    rw [pinsertLoop, viewAll_cons]
    by_cases hskip : b.size ≤ offset
    · rw [InsertSafe, if_pos hskip] at hsafe
      obtain ⟨bs', hrun, hedit⟩ := ih hbs (offset - b.size) (by omega) hsafe
      refine ⟨b :: bs', ?_, ?_⟩
      · rw [if_pos hskip, hrun]; rfl
      · rw [List.insertRange_append_right _ _ (by omega), hlen]
        exact .cons hb (fun _ _ hk => hk) hedit
    · rw [InsertSafe, if_neg hskip] at hsafe
      obtain ⟨hsize, hcap⟩ := (Vbuf.wellFormed_owned m hsafe).1 hb
      refine ⟨_, by rw [if_neg hskip]; simp only [hsafe]; rfl, ?_⟩
      have hins := List.length_insertRange offset bytes b.data
      rw [List.insertRange_append_left _ _ (by omega), Vbuf.view_owned m hsafe,
        ← List.take_insertRange _ (by omega) hsize]
      refine .head_owned hbs rfl ?_ ?_
      · dsimp only; omega
      · dsimp only
        rw [hins]
        exact v.le_grown _ _

/-! ### Erasing -/

/-- The end of a chunk cut off. -/
theorem Vbuf.keep_start {m : Blocks} {b : Vbuf} (h : b.WellFormed m) {n : ℕ} (hn : n ≤ b.size) :
    Vbuf.WellFormed m { b with size := n } ∧
      Vbuf.view m { b with size := n } = (b.view m).take n ∧
      ∀ i k, Vbuf.Covers { b with size := n } i k → b.Covers i k := by
  refine ⟨?_, ?_, fun i k hk => ⟨hk.1, hk.2.1, lt_of_lt_of_le hk.2.2 (by dsimp only; omega)⟩⟩
  · unfold WellFormed at *
    dsimp only
    split at h
    · omega
    · omega
  · unfold view
    dsimp only
    split
    · rw [List.slice, List.slice, List.take_take, min_eq_left hn]
    · rw [List.take_take, min_eq_left hn]

/-- The start of a block chunk cut off. -/
theorem Vbuf.keep_end {m : Blocks} {b : Vbuf} (h : b.WellFormed m) {j : ℕ} (hb : b.block = some j)
    {n : ℕ} (hn : n ≤ b.size) :
    Vbuf.WellFormed m { b with offset := b.offset + n, size := b.size - n } ∧
      Vbuf.view m { b with offset := b.offset + n, size := b.size - n } = (b.view m).drop n ∧
      ∀ i k, Vbuf.Covers { b with offset := b.offset + n, size := b.size - n } i k →
        b.Covers i k := by
  simp only [WellFormed, hb] at h
  refine ⟨?_, ?_, fun i k hk => ⟨hk.1, ?_, lt_of_lt_of_le hk.2.2 ?_⟩⟩
  · simp only [WellFormed, hb]; omega
  · simp only [view, hb]
    rw [List.slice, List.slice, List.drop_take, List.drop_drop]
  · have := hk.2.1
    dsimp only at this
    omega
  · dsimp only; omega

/-- The bytes after a range moved over it, in a chunk with its own bytes. -/
theorem Edited.erase_owned {m : Blocks} {b : Vbuf} {bs : List Vbuf} (h : b.WellFormed m)
    (hbs : ∀ c ∈ bs, c.WellFormed m) (hb : b.block = none) (offset size : ℕ)
    (hle : offset + size ≤ b.size) :
    Edited m (b :: bs)
      ({ block := none
         data := b.data.overwrite offset (b.data.slice (offset + size) (b.size - offset - size))
         capacity := b.capacity, offset := b.offset, size := b.size - size } :: bs)
      ((b.view m).eraseRange offset size ++ viewAll m bs) := by
  obtain ⟨hsize, hcap⟩ := (Vbuf.wellFormed_owned m hb).1 h
  have hlen : (b.data.overwrite offset
      (b.data.slice (offset + size) (b.size - offset - size))).length = b.data.length := by
    apply List.length_overwrite_of_le
    rw [List.length_slice_of_le (by omega)]
    omega
  rw [Vbuf.view_owned m hb, ← List.take_overwrite_slice hle hsize]
  refine .head_owned hbs rfl ?_ ?_
  · dsimp only; omega
  · dsimp only; omega

/-- The range does not lie strictly inside a chunk that views a block. -/
def EraseSafe : List Vbuf → ℕ → ℕ → Prop
  | [], _, _ => True
  | b :: bs, size, offset =>
    if b.size ≤ offset then EraseSafe bs size (offset - b.size)
    else offset = 0 ∨ b.block = none ∨ b.size ≤ offset + size

/-- A range that starts where a chunk starts is never strictly inside one. -/
theorem eraseSafe_zero (bs : List Vbuf) (size : ℕ) : EraseSafe bs size 0 := by
  induction bs with
  | nil => trivial
  | cons b bs ih =>
    rw [EraseSafe, Nat.zero_sub]
    split
    · exact ih
    · exact .inl rfl

/-- **`perase()` erases a range.** -/
theorem peraseLoop_eq {m : Blocks} {bs : List Vbuf} (h : ∀ b ∈ bs, b.WellFormed m)
    (size offset : ℕ) (hle : offset + size ≤ sizeAll bs) (hsafe : EraseSafe bs size offset) :
    ∃ bs', peraseLoop bs size offset = .ok (bs', size) ∧
      Edited m bs bs' ((viewAll m bs).eraseRange offset size) := by
  induction bs generalizing size offset with
  | nil =>
    obtain rfl : size = 0 := by simp only [sizeAll_nil] at hle; omega
    exact ⟨[], rfl, by simp, by simp, by simp⟩
  | cons b bs ih =>
    have hb : b.WellFormed m := h b (by simp)
    have hbs : ∀ c ∈ bs, c.WellFormed m := fun c hc => h c (List.mem_cons_of_mem _ hc)
    have hlen := Vbuf.length_view hb
    rw [sizeAll_cons] at hle
    rw [peraseLoop, viewAll_cons]
    by_cases hzero : size = 0
    · subst hzero
      refine ⟨b :: bs, if_pos rfl, ?_⟩
      rw [List.eraseRange_zero_count]
      exact .refl h
    rw [if_neg hzero]
    by_cases hskip : b.size ≤ offset
    · rw [EraseSafe, if_pos hskip] at hsafe
      obtain ⟨bs', hrun, hedit⟩ := ih hbs size (offset - b.size) (by omega) hsafe
      refine ⟨b :: bs', ?_, ?_⟩
      · rw [if_pos hskip, hrun, ok_bind]
      · rw [List.eraseRange_append_right _ _ (by omega), hlen]
        exact .cons hb (fun _ _ hk => hk) hedit
    rw [EraseSafe, if_neg hskip] at hsafe
    rw [if_neg hskip]
    by_cases hspan : b.size ≤ offset + size
    · rw [if_pos hspan, List.eraseRange_append_span _ (by omega) (by omega), hlen]
      obtain ⟨bs', hrun, hedit⟩ :=
        ih hbs (size - (b.size - offset)) 0 (by omega) (eraseSafe_zero _ _)
      have hcount : b.size - offset + (size - (b.size - offset)) = size := by omega
      by_cases hstart : offset = 0
      · subst hstart
        rw [Nat.sub_zero] at hrun hedit hcount ⊢
        refine ⟨bs', ?_, .tail b ?_⟩
        · rw [if_pos rfl, hrun, ok_bind]
          dsimp only
          rw [hcount]
        · simpa using hedit
      · obtain ⟨hwf, hview, hcov⟩ := Vbuf.keep_start hb (n := offset) (by omega)
        refine ⟨{ b with size := offset } :: bs', ?_, ?_⟩
        · rw [if_neg hstart]
          dsimp only
          rw [hrun, ok_bind]
          dsimp only
          rw [hcount]
        · rw [← hview]
          exact .cons hwf hcov hedit
    rw [if_neg hspan, List.eraseRange_append_left _ (by omega)]
    by_cases hstart : offset = 0
    · subst hstart
      rw [if_pos rfl]
      cases hblock : b.block with
      | some i =>
        obtain ⟨hwf, hview, hcov⟩ := Vbuf.keep_end hb hblock (n := size) (by omega)
        refine ⟨_, rfl, ?_⟩
        have hdrop : (b.view m).eraseRange 0 size = (b.view m).drop size := by
          simp [List.eraseRange]
        rw [hdrop, ← hview]
        rw [hblock] at hwf hcov ⊢
        exact .cons hwf hcov (.refl hbs)
      | none =>
        refine ⟨_, rfl, ?_⟩
        have hedit := Edited.erase_owned hb hbs hblock 0 size (by omega)
        rwa [Nat.zero_add, Nat.sub_zero] at hedit
    · rw [if_neg hstart]
      have hblock : b.block = none := by
        rcases hsafe with h0 | hnone | hle'
        · exact absurd h0 hstart
        · exact hnone
        · exact absurd hle' hspan
      refine ⟨_, by rw [hblock], ?_⟩
      exact .erase_owned hb hbs hblock offset size (by omega)

end Prinbee
