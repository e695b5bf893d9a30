import Prinbee.Database.IndirectIndexArray

/-!
# The indirect index is a growing array

An insertion goes down the index to the place of the next reference and makes the blocks that are
missing on the way: an `INDR` at a position that is not in use, levels over an `INDR` that is full,
a level on top of an index that is full.  Each of these leaves the blocks that the index does not
use as they were, and the references that were held stay so.

## Main definitions

* `OidTable.Grown` — which blocks a computation may change.
* `OidTable.Index` — what holds of a table after `n` insertions.
* `OidTable.rowInserts` — a run of insertions.

## Main results

* `OidTable.descend_eq` — the way down to the next reference, and the reference put there.
* `OidTable.Index.rowInsert` — an insertion adds the next reference.
* `OidTable.growingArray_iff` — the index is a growing array when the blocks can be accessed.
-/

namespace Prinbee

namespace OidTable

variable {p : OidPages} {pages : ℕ → ℕ} {F : ℕ → ℕ} {t t' t'' : OidTable}

/-! ### Blocks that change -/

/-- The blocks allocated between two tables. -/
def fresh (pages : ℕ → ℕ) (t t' : OidTable) : Set ℕ :=
  {x | ∃ i, t.allocated ≤ i ∧ i < t'.allocated ∧ pages i = x}

/-- From one table to the next, only the blocks of `W` and new ones change. -/
structure Grown (pages : ℕ → ℕ) (t t' : OidTable) (W : Set ℕ) : Prop where
  allocated : t.allocated ≤ t'.allocated
  frame : ∀ x, x ∉ W → x ∉ fresh pages t t' → t'.blocks x = t.blocks x
  firstFreeOid : t'.firstFreeOid = t.firstFreeOid
  lastOid : t'.lastOid = t.lastOid
  indirectIndex : t'.indirectIndex = t.indirectIndex

/-- The blocks allocated so far. -/
def used (pages : ℕ → ℕ) (t : OidTable) : Set ℕ := {x | ∃ i < t.allocated, pages i = x}

theorem fresh_union (h : t.allocated ≤ t'.allocated) (h' : t'.allocated ≤ t''.allocated) :
    fresh pages t t'' = fresh pages t t' ∪ fresh pages t' t'' := by
  ext x
  constructor
  · rintro ⟨i, hle, hlt, hx⟩
    by_cases hi : i < t'.allocated
    · exact .inl ⟨i, hle, hi, hx⟩
    · exact .inr ⟨i, Nat.not_lt.1 hi, hlt, hx⟩
  · rintro (⟨i, hle, hlt, hx⟩ | ⟨i, hle, hlt, hx⟩)
    · exact ⟨i, hle, lt_of_lt_of_le hlt h', hx⟩
    · exact ⟨i, h.trans hle, hlt, hx⟩

theorem used_union (h : t.allocated ≤ t'.allocated) :
    used pages t' = used pages t ∪ fresh pages t t' := by
  ext x
  constructor
  · rintro ⟨i, hlt, hx⟩
    by_cases hi : i < t.allocated
    · exact .inl ⟨i, hi, hx⟩
    · exact .inr ⟨i, Nat.not_lt.1 hi, hlt, hx⟩
  · rintro (⟨i, hlt, hx⟩ | ⟨i, -, hlt, hx⟩)
    · exact ⟨i, lt_of_lt_of_le hlt h, hx⟩
    · exact ⟨i, hlt, hx⟩

theorem notMem_fresh (hinj : Function.Injective pages) {x : ℕ} (hx : x ∈ used pages t) :
    x ∉ fresh pages t t' := by
  rintro ⟨i, hle, -, hi⟩
  obtain ⟨j, hlt, hj⟩ := hx
  have hij : i = j := hinj (hi.trans hj.symm)
  omega

/-- The next block is none of those. -/
theorem ne_allocated (hinj : Function.Injective pages) {x : ℕ} (hx : x ∈ used pages t) :
    x ≠ pages t.allocated := by
  obtain ⟨i, hlt, hi⟩ := hx
  exact fun heq => absurd (hinj (hi.trans heq)) (Nat.ne_of_lt hlt)

theorem Grown.refl (t : OidTable) (W : Set ℕ) : Grown pages t t W :=
  ⟨Nat.le_refl _, fun _ _ _ => rfl, rfl, rfl, rfl⟩

theorem Grown.trans {W W' : Set ℕ} (h : Grown pages t t' W) (h' : Grown pages t' t'' W')
    (hW : W' ⊆ W ∪ fresh pages t t') : Grown pages t t'' W := by
  have hfresh : fresh pages t t'' = _ := fresh_union h.allocated h'.allocated
  refine ⟨h.allocated.trans h'.allocated, fun x hx hnew => ?_,
    h'.firstFreeOid.trans h.firstFreeOid, h'.lastOid.trans h.lastOid,
    h'.indirectIndex.trans h.indirectIndex⟩
  rw [hfresh] at hnew
  have hnew' : x ∉ fresh pages t t' := fun hm => hnew (.inl hm)
  rw [h'.frame x (fun hm => (hW hm).elim hx hnew') fun hm => hnew (.inr hm), h.frame x hx hnew']

theorem Grown.mono {W W' : Set ℕ} (h : Grown pages t t' W) (hW : W ⊆ W') :
    Grown pages t t' W' :=
  ⟨h.allocated, fun x hx => h.frame x fun hm => hx (hW hm), h.firstFreeOid, h.lastOid,
    h.indirectIndex⟩

@[simp] theorem store_self (t : OidTable) (off : ℕ) (b : IndexBlock) :
    (t.store off b).blocks off = some b := Function.update_self ..

theorem store_of_ne (t : OidTable) {off x : ℕ} (b : IndexBlock) (h : x ≠ off) :
    (t.store off b).blocks x = t.blocks x := Function.update_of_ne h ..

@[simp] theorem store_allocated (t : OidTable) (off : ℕ) (b : IndexBlock) :
    (t.store off b).allocated = t.allocated := rfl

theorem grown_store (t : OidTable) {off : ℕ} (b : IndexBlock) {W : Set ℕ} (h : off ∈ W) :
    Grown pages t (t.store off b) W :=
  ⟨Nat.le_refl _, fun _ hx _ => t.store_of_ne b fun he => hx (he ▸ h), rfl, rfl, rfl⟩

/-- The table with a new block. -/
def added (pages : ℕ → ℕ) (t : OidTable) (b : IndexBlock) : OidTable :=
  { t.store (pages t.allocated) b with allocated := t.allocated + 1 }

@[simp] theorem added_blocks (t : OidTable) (b : IndexBlock) :
    (added pages t b).blocks = Function.update t.blocks (pages t.allocated) (some b) := rfl

theorem fresh_added (t : OidTable) (b : IndexBlock) :
    fresh pages t (added pages t b) = {pages t.allocated} := by
  ext x
  constructor
  · rintro ⟨i, hle, hlt, hx⟩
    have hi : i = t.allocated := Nat.le_antisymm (Nat.le_of_lt_succ hlt) hle
    exact (hi ▸ hx).symm
  · rintro rfl
    exact ⟨t.allocated, Nat.le_refl _, Nat.lt_succ_self _, rfl⟩

theorem grown_added (t : OidTable) (b : IndexBlock) (W : Set ℕ) :
    Grown pages t (added pages t b) W := by
  refine ⟨Nat.le_succ _, fun x _ hnew => ?_, rfl, rfl, rfl⟩
  rw [fresh_added] at hnew
  exact Function.update_of_ne hnew ..

/-! ### The calls of an insertion -/

/-- The blocks can be accessed, and those handed out are different. -/
structure Pages (p : OidPages) (pages : ℕ → ℕ) : Prop where
  getBlock : p.getBlock = .ok ()
  allocate : ∀ i, p.allocateNewBlock i = .ok (pages i)
  injective : Function.Injective pages
  valid : ∀ i, 1 < pages i
  count : 2 ≤ maxCount p.pageSize

theorem newIndr_eq (hp : Pages p pages) (t : OidTable) :
    t.newIndr p = .ok (added pages t (.indr fun _ => nullFileAddr), pages t.allocated) := by
  rw [newIndr, allocate, hp.allocate]
  rfl

theorem newTind_eq (hp : Pages p pages) (t : OidTable) :
    t.newTind p = .ok (added pages t (.tind 0 fun _ => nullFileAddr), pages t.allocated) := by
  rw [newTind, allocate, hp.allocate]
  rfl

theorem tindSetReference_eq (hp : Pages p pages) {off level q r : ℕ} {refs : ℕ → ℕ} (ref : ℕ)
    (hblock : t.blocks off = some (.tind level refs)) (hlevel : 0 < level)
    (hpow : maxCount p.pageSize ^ level < 2 ^ 64) (hr : r < maxCount p.pageSize ^ level)
    (hq : q < maxCount p.pageSize) :
    t.tindSetReference p off (q * maxCount p.pageSize ^ level + r + 1) ref =
      .ok (t.store off (.tind level (Function.update refs q ref)), r + 1) := by
  have hc := hp.count
  rw [tindSetReference, hblock]
  simp only
  rw [tindPosition_eq (by omega) hlevel hpow hr, if_neg (Nat.not_le.2 hq)]
  rfl

theorem indrSetReference_eq {off pos : ℕ} {refs : ℕ → ℕ} (ref : ℕ)
    (hblock : t.blocks off = some (.indr refs)) (hpos : pos < maxCount p.pageSize) :
    t.indrSetReference p off (pos + 1) ref =
      .ok (t.store off (.indr (Function.update refs pos ref))) := by
  rw [indrSetReference, hblock]
  simp only
  rw [sub64_of_le (Nat.le_add_left 1 pos), Nat.add_sub_cancel, if_neg (Nat.not_le.2 hpos)]

theorem setBlockLevel_eq {off level level' : ℕ} {refs : ℕ → ℕ}
    (hblock : t.blocks off = some (.tind level refs)) :
    t.setBlockLevel off level' = t.store off (.tind level' refs) := by
  rw [setBlockLevel, hblock]

/-- Put a reference at the position that was found. -/
def put (p : OidPages) (ref : ℕ) (place : OidTable × ℕ × ℕ) : Except Failure OidTable :=
  place.1.indrSetReference p place.2.1 place.2.2 ref

/-! ### New blocks -/

variable {blocks : ℕ → Option IndexBlock} {c : ℕ}

/-- A new `INDR` with its first reference. -/
theorem holds_newIndr {x base : ℕ} {refs : ℕ → ℕ} (hc : 2 ≤ c) (k : ℕ)
    (hblock : blocks x = some (.indr refs)) (hfirst : refs 0 = F base) :
    Holds c F blocks k x base (base + 1) {x} := by
  have hindr : HoldsIndr c F blocks x base (base + 1) := by
    refine ⟨refs, hblock, fun i _ hlt => ?_⟩
    have hi : i = 0 := by omega
    rw [hi, hfirst, Nat.add_zero]
  cases k with
  | zero => exact ⟨hindr, rfl⟩
  | succ k => exact .inl ⟨hindr, by omega, rfl⟩

/-- An `INDR` with one more reference. -/
theorem HoldsIndr.put {blocks' : ℕ → Option IndexBlock} {off base n : ℕ} {refs : ℕ → ℕ}
    (h : HoldsIndr c F blocks off base n) (hblock : blocks off = some (.indr refs))
    (hbase : base ≤ n)
    (hblock' : blocks' off = some (.indr (Function.update refs (n - base) (F n)))) :
    HoldsIndr c F blocks' off base (n + 1) := by
  obtain ⟨refs', hrefs', hF⟩ := h
  obtain rfl : refs' = refs := by
    rw [hblock] at hrefs'
    injection hrefs' with he
    injection he with he
    exact he.symm
  refine ⟨_, hblock', fun i hi hlt => ?_⟩
  by_cases hin : i = n - base
  · rw [hin, Function.update_self, Nat.add_sub_cancel' hbase]
  · rw [Function.update_of_ne hin]
    exact hF i hi (by omega)

/-- A `TIND` with a block at its first position only. -/
theorem holdsTind_single {k top first base n : ℕ} {S : Set ℕ}
    (hblock : blocks top =
      some (.tind (k + 1) (Function.update (fun _ => nullFileAddr) 0 first)))
    (hfirst : Holds c F blocks k first base n S) (hbase : base < n)
    (hn : n ≤ base + c ^ (k + 1)) (htop : top ∉ S) (hc : 2 ≤ c) :
    HoldsTind c blocks (fun r b s => Holds c F blocks k r b n s) (k + 1) (c ^ (k + 1)) top base n
      (Function.update (fun _ => nullFileAddr) 0 first) (fun _ => S) (insert top S) := by
  -- no other position is in use
  have hzero : ∀ j, base + j * c ^ (k + 1) < n → j = 0 := fun j hlt => by
    by_contra hne
    have hle : 1 * c ^ (k + 1) ≤ j * c ^ (k + 1) :=
      Nat.mul_le_mul_right _ (Nat.one_le_iff_ne_zero.2 hne)
    omega
  refine ⟨hblock, fun j hj hlt => ?_, fun j hj hle => ?_, fun j hj hlt => htop,
    fun i hi j hj hilt hjlt hne => ?_, fun x => ?_⟩
  · rw [hzero j hlt, Function.update_self, Nat.zero_mul, Nat.add_zero]
    exact hfirst
  · have hne : j ≠ 0 := fun he => by
      rw [he] at hle
      omega
    exact Function.update_of_ne hne ..
  · exact absurd ((hzero i hilt).trans (hzero j hjlt).symm) hne
  · constructor
    · rintro (hx | hx)
      · exact .inl hx
      · exact .inr ⟨0, by omega, by omega, hx⟩
    · rintro (hx | ⟨j, -, -, hx⟩)
      · exact .inl hx
      · exact .inr hx

/-- What an insertion comes to, over the table it starts from: the reference is put, only blocks of
`W` and new ones change, and the block at `off` holds one reference more, with the blocks of `S` and
new ones. -/
def Reaches (p : OidPages) (pages : ℕ → ℕ) (F : ℕ → ℕ) (t : OidTable) (W S : Set ℕ)
    (k off base n : ℕ) (place : Except Failure (OidTable × ℕ × ℕ)) : Prop :=
  ∃ t', (place >>= put p (F n)) = .ok t' ∧ Grown pages t t' W ∧
    ∃ S', Holds (maxCount p.pageSize) F t'.blocks k off base (n + 1) S' ∧
      S' ⊆ S ∪ fresh pages t t'

/-- **Two positions of a new level**: the block that is full, and a new `INDR`. -/
theorem splitTop_reaches (hp : Pages p pages) {k top first base n : ℕ} {S : Set ℕ}
    (hblock : t.blocks top = some (.tind (k + 1) fun _ => nullFileAddr))
    (hfirst : Holds (maxCount p.pageSize) F t.blocks k first base n S)
    (hn : n = base + maxCount p.pageSize ^ (k + 1))
    (hpow : maxCount p.pageSize ^ (k + 1) < 2 ^ 64)
    (htop : top ∉ S) (hused : insert top S ⊆ used pages t) :
    Reaches p pages F t {top} (insert top S) (k + 1) top base n
      (t.splitTop p top first (maxCount p.pageSize ^ (k + 1) + 1)) := by
  have hc := hp.count
  set c := maxCount p.pageSize with hcdef
  have hpos : 0 < c ^ (k + 1) := Nat.pow_pos (by omega)
  set y := pages t.allocated with hy
  have hnew : ∀ x ∈ insert top S, x ≠ y := fun x hx => ne_allocated hp.injective (hused hx)
  have hytop : y ≠ top := fun he => hnew top (.inl rfl) he.symm
  -- the block that is full, at position 0
  have hset₀ := tindSetReference_eq hp (t := t) (q := 0) (r := c ^ (k + 1) - 1) first hblock
    (Nat.succ_pos k) hpow (by rw [← hcdef]; omega) (by omega)
  rw [← hcdef, Nat.zero_mul, Nat.zero_add, Nat.sub_add_cancel hpos] at hset₀
  set r₀ := Function.update (fun _ => nullFileAddr) 0 first with hr₀
  set t₁ := t.store top (.tind (k + 1) r₀) with ht₁
  -- the new block, at position 1
  set t₂ := added pages t₁ (.indr fun _ => nullFileAddr) with ht₂
  have hblock₂ : t₂.blocks top = some (.tind (k + 1) r₀) :=
    (Function.update_of_ne hytop.symm ..).trans (store_self ..)
  have hset₁ := tindSetReference_eq hp (t := t₂) (q := 1) (r := 0) y hblock₂ (Nat.succ_pos k) hpow
    (by rw [← hcdef]; omega) (by omega)
  rw [← hcdef, Nat.one_mul, Nat.add_zero, Nat.zero_add] at hset₁
  set t₃ := t₂.store top (.tind (k + 1) (Function.update r₀ 1 y)) with ht₃
  have hblock₃ : t₃.blocks y = some (.indr fun _ => nullFileAddr) := by
    rw [ht₃, store_of_ne _ _ hytop]
    exact Function.update_self ..
  have hput := indrSetReference_eq (F n) hblock₃ (show 0 < maxCount p.pageSize by omega)
  set t₄ := t₃.store y (.indr (Function.update (fun _ => nullFileAddr) 0 (F n))) with ht₄
  have hgrown : Grown pages t t₄ {top} := by
    have h₂ : Grown pages t t₂ {top} := (grown_store t _ (Set.mem_singleton top)).trans
      (grown_added t₁ _ {top}) Set.subset_union_left
    have h₃ : Grown pages t t₃ {top} :=
      h₂.trans (grown_store t₂ _ (Set.mem_singleton top)) Set.subset_union_left
    refine h₃.trans (grown_store t₃ _ (Set.mem_singleton y)) ?_
    rintro x rfl
    exact .inr ⟨t.allocated, Nat.le_refl _, Nat.lt_succ_self _, rfl⟩
  have hfresh : fresh pages t t₄ = {y} := fresh_added t (.indr fun _ => nullFileAddr)
  have hframe : ∀ x ∈ S, t₄.blocks x = t₁.blocks x := fun x hx => by
    have hxtop : x ≠ top := fun he => htop (he ▸ hx)
    rw [hgrown.frame x hxtop (by rw [hfresh]; exact hnew x (.inr hx)), ht₁, store_of_ne _ _ hxtop]
  have hsingle := holdsTind_single (show t₁.blocks top = some (.tind (k + 1) r₀) from store_self ..)
    (hfirst.congr fun x hx => store_of_ne _ _ fun he => htop (he ▸ hx)) (by omega) (by omega) htop hc
  obtain ⟨sub', S', hheld, hsub⟩ := hsingle.step (q := 1) (r := y) hc (by omega)
    (by omega) (by omega)
    (show t₄.blocks top = _ by rw [ht₄, store_of_ne _ _ hytop.symm, ht₃, store_self])
    (fun j _ _ _ x hx => hframe x hx)
    (show Holds c F t₄.blocks k y _ _ {y} by
      rw [Nat.one_mul, ← hn]
      exact holds_newIndr hc k (store_self ..) (Function.update_self ..))
    (fun he => hytop he.symm)
    (fun j _ _ _ => Set.disjoint_singleton_right.2 fun hm => hnew y (.inr hm) rfl)
  refine ⟨t₄, ?_, hgrown, S', .inr ⟨_, _, hheld⟩, by rw [hfresh]; exact hsub⟩
  rw [splitTop, sub64_of_le (Nat.le_add_left 1 _), Nat.add_sub_cancel, hset₀, ok_bind]
  simp only
  rw [newIndr_eq hp, ok_bind]
  simp only
  rw [← ht₂, show pages t₁.allocated = y from rfl, hset₁, ok_bind]
  exact hput

/-- `createLevels`, and the two positions of the last level. -/
def pushDown (p : OidPages) (level : ℕ) (t : OidTable) (parent top first parentOid oid : ℕ) :
    Except Failure (OidTable × ℕ × ℕ) := do
  let (t, top) ← t.createLevels p level parent top parentOid
  t.splitTop p top first oid

/-- **An `INDR` that is full goes down**: under the position `q` of its parent there are now levels
down to 1, and the last one leads to the `INDR` and to a new one. -/
theorem pushDown_reaches (hp : Pages p pages) {l : ℕ} {l₀ parent top first q base n : ℕ}
    {refs : ℕ → ℕ} (hparent : t.blocks parent = some (.tind (l + 2) refs))
    (htop : t.blocks top = some (.tind l₀ fun _ => nullFileAddr))
    (hfirst : HoldsIndr (maxCount p.pageSize) F t.blocks first base n)
    (hn : n = base + maxCount p.pageSize) (hq : q < maxCount p.pageSize)
    (hpow : maxCount p.pageSize ^ (l + 2) < 2 ^ 64)
    (htp : top ≠ parent) (hft : first ≠ top) (hfp : first ≠ parent)
    (hused : {parent, top, first} ⊆ used pages t) :
    ∃ t', (pushDown p (l + 2) t parent top first
          (q * maxCount p.pageSize ^ (l + 2) + maxCount p.pageSize + 1)
          (maxCount p.pageSize + 1) >>= put p (F n)) = .ok t' ∧
      Grown pages t t' {parent, top} ∧
      t'.blocks parent = some (.tind (l + 2) (Function.update refs q top)) ∧
      ∃ S', Holds (maxCount p.pageSize) F t'.blocks (l + 1) top base (n + 1) S' ∧
        S' ⊆ {top, first} ∪ fresh pages t t' := by
  have hc := hp.count
  set c := maxCount p.pageSize with hcdef
  induction l generalizing t l₀ parent top q refs with
  | zero =>
    have hc2 : c < c ^ 2 := lt_self_pow₀ hc (by decide)
    have hset := tindSetReference_eq hp (t := t.store top (.tind 1 fun _ => nullFileAddr)) (q := q)
      (r := c) top ((store_of_ne _ _ htp.symm).trans hparent) (by omega) hpow hc2 hq
    rw [← hcdef] at hset
    set t₁ := t.store top (.tind 1 fun _ => nullFileAddr) with ht₁
    set t₂ := t₁.store parent (.tind 2 (Function.update refs q top)) with ht₂
    have hgrown₂ : Grown pages t t₂ {parent, top} :=
      (grown_store t _ (Set.mem_insert_of_mem _ (Set.mem_singleton top))).trans
        (grown_store t₁ _ (Set.mem_insert ..)) Set.subset_union_left
    have hindr : HoldsIndr c F t₂.blocks first base n :=
      hfirst.congr ((store_of_ne _ _ hfp).trans (store_of_ne _ _ hft))
    have htop₂ : t₂.blocks top = some (.tind 1 fun _ => nullFileAddr) :=
      (store_of_ne _ _ htp).trans (store_self ..)
    have hfull : n = base + c ^ (0 + 1) := by rw [Nat.zero_add, Nat.pow_one]; exact hn
    obtain ⟨t', heq, hgrown, S', hheld, hS'⟩ := splitTop_reaches hp (k := 0) htop₂
      (show Holds c F t₂.blocks 0 first base n {first} from ⟨hindr, rfl⟩) hfull
      (lt_of_le_of_lt (Nat.pow_le_pow_right (by omega) (by omega)) hpow) (fun he => hft he.symm)
      (fun x hx => hused (.inr hx))
    have hfresh : fresh pages t t' = fresh pages t₂ t' := rfl
    refine ⟨t', ?_, hgrown₂.trans hgrown ?_, ?_, S', hheld, ?_⟩
    · rw [Nat.zero_add, Nat.pow_one, ← hcdef] at heq
      rw [pushDown, createLevels]
      simp only
      rw [setBlockLevel_eq htop, ← ht₁, hset, ok_bind]
      exact heq
    · rintro x rfl
      exact .inl (.inr rfl)
    · rw [hgrown.frame parent htp.symm (notMem_fresh hp.injective (hused (.inl rfl))), ht₂,
        store_self]
    · exact hS'
  | succ l ih =>
    have hlt : ∀ m, 2 ≤ m → c < c ^ m := fun m hm => lt_self_pow₀ hc hm
    have hset := tindSetReference_eq hp (t := t.store top (.tind (l + 2) fun _ => nullFileAddr))
      (q := q) (r := c) top ((store_of_ne _ _ htp.symm).trans hparent) (by omega) hpow
      (hlt _ (by omega)) hq
    rw [← hcdef] at hset
    set t₁ := t.store top (.tind (l + 2) fun _ => nullFileAddr) with ht₁
    set t₂ := t₁.store parent (.tind (l + 1 + 2) (Function.update refs q top)) with ht₂
    set y := pages t.allocated with hy
    have hnew : ∀ x ∈ used pages t, x ≠ y := fun x hx => ne_allocated hp.injective hx
    have hynew : y ∈ fresh pages t (added pages t₂ (.tind 0 fun _ => nullFileAddr)) :=
      ⟨t.allocated, Nat.le_refl _, Nat.lt_succ_self _, rfl⟩
    have hparentNew := hnew parent (hused (.inl rfl))
    have htopNew := hnew top (hused (.inr (.inl rfl)))
    have hfirstNew := hnew first (hused (.inr (.inr rfl)))
    set t₃ := added pages t₂ (.tind 0 fun _ => nullFileAddr) with ht₃
    have hgrown₃ : Grown pages t t₃ {parent, top} :=
      ((grown_store t _ (Set.mem_insert_of_mem _ (Set.mem_singleton top))).trans
        (grown_store t₁ _ (Set.mem_insert ..)) Set.subset_union_left).trans
        (grown_added t₂ _ {parent, top}) Set.subset_union_left
    have hindr : HoldsIndr c F t₃.blocks first base n :=
      hfirst.congr ((Function.update_of_ne hfirstNew ..).trans
        ((store_of_ne _ _ hfp).trans (store_of_ne _ _ hft)))
    have htop₃ : t₃.blocks top = some (.tind (l + 2) fun _ => nullFileAddr) :=
      (Function.update_of_ne htopNew ..).trans ((store_of_ne _ _ htp).trans (store_self ..))
    have hused₃ : used pages t₃ = used pages t ∪ fresh pages t t₃ := used_union hgrown₃.allocated
    -- the next level down starts with the new block, under position 0 of `top`
    obtain ⟨t', heq, hgrown, hblock, S', hheld, hS'⟩ := ih (q := 0) htop₃
      (show t₃.blocks y = _ from Function.update_self ..) htopNew.symm hfirstNew hft
      (by
        rw [hused₃]
        rintro x (rfl | rfl | rfl)
        · exact .inl (hused (.inr (.inl rfl)))
        · exact .inr hynew
        · exact .inl (hused (.inr (.inr rfl))))
      hindr (by omega) (lt_of_le_of_lt (Nat.pow_le_pow_right (by omega) (by omega)) hpow)
    have hfresh : fresh pages t t' = _ := fresh_union hgrown₃.allocated hgrown.allocated
    have hS'' : S' ⊆ {first} ∪ fresh pages t t' := by
      intro x hx
      rw [hfresh]
      rcases hS' hx with (rfl | rfl) | hx
      · exact .inr (.inl hynew)
      · exact .inl rfl
      · exact .inr (.inr hx)
    have htopS : top ∉ S' := fun hm => by
      rcases hS'' hm with he | hm
      · exact hft he.symm
      · exact notMem_fresh hp.injective (hused (.inr (.inl rfl))) hm
    refine ⟨t', ?_, hgrown₃.trans hgrown ?_, ?_, insert top S', .inr ⟨_, _,
      holdsTind_single hblock hheld (by omega) ?_ htopS hc⟩, ?_⟩
    · rw [Nat.zero_mul, Nat.zero_add] at heq
      rw [← heq, pushDown, createLevels]
      simp only
      rw [setBlockLevel_eq htop, ← ht₁, hset, ok_bind]
      simp only
      rw [if_neg (by omega), newTind_eq hp, ok_bind]
      rfl
    · rintro x (rfl | rfl)
      · exact .inl (.inr rfl)
      · exact .inr hynew
    · rw [hgrown.frame parent ?_ ?_]
      · exact (Function.update_of_ne hparentNew ..).trans (store_self ..)
      · rintro (he | he)
        · exact htp he.symm
        · exact hparentNew he
      · exact notMem_fresh hp.injective (by rw [hused₃]; exact .inl (hused (.inl rfl)))
    · have := hlt (l + 1 + 1) (by omega)
      omega
    · rintro x (rfl | hx)
      · exact .inl (.inl rfl)
      · rcases hS'' hx with he | hx
        · exact .inl (.inr he)
        · exact .inr hx

/-! ### The way down -/

/-- The block at position `q` of a `TIND` has taken one more reference, with the blocks of `T` and
new ones. -/
theorem HoldsTind.grow (hp : Pages p pages) {k off base n q r : ℕ} {refs : ℕ → ℕ}
    {sub : ℕ → Set ℕ} {S T Sq : Set ℕ}
    (h : HoldsTind (maxCount p.pageSize) t.blocks
      (fun r b s => Holds (maxCount p.pageSize) F t.blocks k r b n s) (k + 1)
      (maxCount p.pageSize ^ (k + 1)) off base n refs sub S)
    (hS : S ⊆ OidTable.used pages t) (hq : q < maxCount p.pageSize)
    (hlo : base + q * maxCount p.pageSize ^ (k + 1) ≤ n)
    (hhi : n < base + (q + 1) * maxCount p.pageSize ^ (k + 1))
    (hT : T ⊆ S) (hoff : off ∉ T)
    (hdisj : ∀ j < maxCount p.pageSize, j ≠ q → base + j * maxCount p.pageSize ^ (k + 1) < n →
      Disjoint (sub j) T)
    (hblock : t'.blocks off = some (.tind (k + 1) (Function.update refs q r)))
    (hgrown : Grown pages t t' (insert off T))
    (hholds : Holds (maxCount p.pageSize) F t'.blocks k r
      (base + q * maxCount p.pageSize ^ (k + 1)) (n + 1) Sq)
    (hSq : Sq ⊆ T ∪ fresh pages t t') :
    Grown pages t t' S ∧
      ∃ S', Holds (maxCount p.pageSize) F t'.blocks (k + 1) off base (n + 1) S' ∧
        S' ⊆ S ∪ fresh pages t t' := by
  have hoffS : off ∈ S := (h.footprint off).2 (.inl rfl)
  have hsub : ∀ j < maxCount p.pageSize, base + j * maxCount p.pageSize ^ (k + 1) < n →
      sub j ⊆ S := fun j hj hlt x hx => (h.footprint x).2 (.inr ⟨j, hj, hlt, hx⟩)
  obtain ⟨sub', S', hheld, hS'⟩ := h.step hp.count hq hlo hhi hblock
    (fun j hj hjq hlt x hx => by
      -- a block of another position is neither `off`, nor in `T`, nor new
      refine hgrown.frame x ?_ (notMem_fresh hp.injective (hS (hsub j hj hlt hx)))
      rintro (rfl | hxT)
      · exact h.own j hj hlt hx
      · exact Set.disjoint_left.1 (hdisj j hj hjq hlt) hx hxT)
    hholds
    (fun hm => (hSq hm).elim hoff (notMem_fresh hp.injective (hS hoffS)))
    (fun j hj hjq hlt => by
      refine Set.disjoint_left.2 fun x hx hm => ?_
      rcases hSq hm with hxT | hnew
      · exact Set.disjoint_left.1 (hdisj j hj hjq hlt) hx hxT
      · exact notMem_fresh hp.injective (hS (hsub j hj hlt hx)) hnew)
  refine ⟨hgrown.mono ?_, S', .inr ⟨_, _, hheld⟩, fun x hx => ?_⟩
  · rintro x (rfl | hx)
    · exact hoffS
    · exact hT hx
  · rcases hS' hx with hx | hx
    · exact .inl hx
    · exact (hSq hx).imp (fun hm => hT hm) id

/-- An `INDR` that has room takes the next reference. -/
theorem reachIndr_reaches {indr base n : ℕ} (hindr : HoldsIndr (maxCount p.pageSize) F t.blocks
    indr base n) (hbase : base ≤ n) (hroom : n < base + maxCount p.pageSize) (k : ℕ)
    (parent : Option ℕ) (parentOid : ℕ) :
    Reaches p pages F t {indr} {indr} k indr base n
      (t.reachIndr p parent indr parentOid (n - base + 1)) := by
  obtain ⟨refs, hblock, -⟩ := id hindr
  refine ⟨t.store indr (.indr (Function.update refs (n - base) (F n))), ?_,
    grown_store t _ (Set.mem_singleton indr), {indr}, ?_, Set.subset_union_left⟩
  · rw [reachIndr, if_pos (by omega), ok_bind]
    exact indrSetReference_eq (F n) hblock (by omega)
  · have hput := hindr.put hblock hbase (store_self t indr _)
    cases k with
    | zero => exact ⟨hput, rfl⟩
    | succ k => exact .inl ⟨hput, hroom, rfl⟩

section Down

variable {k off base n q r fuel : ℕ} {refs : ℕ → ℕ} {sub : ℕ → Set ℕ} {S : Set ℕ}
  (hp : Pages p pages)
  (h : HoldsTind (maxCount p.pageSize) t.blocks
    (fun r b s => Holds (maxCount p.pageSize) F t.blocks k r b n s) (k + 1)
    (maxCount p.pageSize ^ (k + 1)) off base n refs sub S)
  (hS : S ⊆ used pages t) (hpow : maxCount p.pageSize ^ (k + 1) < 2 ^ 64)
  (hq : q < maxCount p.pageSize) (hr : r < maxCount p.pageSize ^ (k + 1))
  (hn : n = base + (q * maxCount p.pageSize ^ (k + 1) + r))

include hp h hS hq hr hn

/-- The block that position `q` leads to has taken the next reference. -/
theorem reaches_of_sub (hused : base + q * maxCount p.pageSize ^ (k + 1) < n)
    {place : Except Failure (OidTable × ℕ × ℕ)}
    (hreach : Reaches p pages F t (sub q) (sub q) k (refs q)
      (base + q * maxCount p.pageSize ^ (k + 1)) n place) :
    Reaches p pages F t S S (k + 1) off base n place := by
  obtain ⟨t', heq, hgrown, Sq, hheld, hSq⟩ := hreach
  have hoff : off ∉ sub q := h.own q hq hused
  have hmul : (q + 1) * maxCount p.pageSize ^ (k + 1) =
      q * maxCount p.pageSize ^ (k + 1) + maxCount p.pageSize ^ (k + 1) := Nat.succ_mul ..
  obtain ⟨hgrown', hheld'⟩ := h.grow hp hS hq (by omega) (by omega)
    (fun x hx => (h.footprint x).2 (.inr ⟨q, hq, hused, hx⟩)) hoff
    (fun j hj hjq hlt => h.disjoint j hj q hq hlt hused hjq)
    (by
      rw [Function.update_eq_self, hgrown.frame off hoff (notMem_fresh hp.injective
        (hS ((h.footprint off).2 (.inl rfl))))]
      exact h.block)
    (hgrown.mono (Set.subset_insert ..)) hheld hSq
  exact ⟨t', heq, hgrown', hheld'⟩

include hpow

/-- Position `q` is not in use: a new `INDR`. -/
theorem descend_unused (hzero : r = 0) (mustExist : Bool) (parent : Option ℕ) (parentOid : ℕ) :
    Reaches p pages F t S S (k + 1) off base n
      (t.descend p mustExist (fuel + 1) parent off parentOid (n - base + 1)) := by
  have hc := hp.count
  have hoffS : off ∈ S := (h.footprint off).2 (.inl rfl)
  have hoid : n - base + 1 = q * maxCount p.pageSize ^ (k + 1) + r + 1 := by omega
  have hnull : refs q = nullFileAddr := h.unused q hq (by omega)
  set y := pages t.allocated with hy
  have hyoff : off ≠ y := ne_allocated hp.injective (hS hoffS)
  set t₁ := added pages t (.indr fun _ => nullFileAddr) with ht₁
  have hblock₁ : t₁.blocks off = some (.tind (k + 1) refs) :=
    (Function.update_of_ne hyoff ..).trans h.block
  have hset := tindSetReference_eq hp (t := t₁) (q := q) (r := r) y hblock₁ (Nat.succ_pos k) hpow
    hr hq
  set t₂ := t₁.store off (.tind (k + 1) (Function.update refs q y)) with ht₂
  have hblock₂ : t₂.blocks y = some (.indr fun _ => nullFileAddr) :=
    (store_of_ne _ _ hyoff.symm).trans (Function.update_self ..)
  set t₃ := t₂.store y (.indr (Function.update (fun _ => nullFileAddr) 0 (F n))) with ht₃
  have hfresh : fresh pages t t₃ = {y} := fresh_added t (.indr fun _ => nullFileAddr)
  have hgrown : Grown pages t t₃ (insert off ∅) := by
    refine ((grown_added t _ _).trans (grown_store t₁ _ (Set.mem_insert ..))
      Set.subset_union_left).trans (grown_store t₂ _ (Set.mem_singleton y)) ?_
    rintro x rfl
    exact .inr ⟨t.allocated, Nat.le_refl _, Nat.lt_succ_self _, rfl⟩
  have hheld : Holds (maxCount p.pageSize) F t₃.blocks k y
      (base + q * maxCount p.pageSize ^ (k + 1)) (n + 1) {y} := by
    rw [show base + q * maxCount p.pageSize ^ (k + 1) = n by omega]
    exact holds_newIndr hc k (store_self ..) (Function.update_self ..)
  have hmul : (q + 1) * maxCount p.pageSize ^ (k + 1) =
      q * maxCount p.pageSize ^ (k + 1) + maxCount p.pageSize ^ (k + 1) := Nat.succ_mul ..
  obtain ⟨hgrown', hheld'⟩ := h.grow hp hS hq (by omega) (by omega) (Set.empty_subset S)
    (Set.notMem_empty off) (fun j _ _ _ => Set.disjoint_empty _)
    ((store_of_ne _ _ hyoff).trans (store_self ..)) hgrown hheld
    (by rw [hfresh]; exact Set.subset_union_right)
  refine ⟨t₃, ?_, hgrown', hheld'⟩
  rw [descend, getBlock_eq hp.getBlock h.block, ok_bind]
  simp only
  rw [hoid, tindGetReference_eq (by omega) (Nat.succ_pos k) hpow hr hq, ok_bind, hnull]
  simp only [if_true]
  rw [newIndr_eq hp, ok_bind]
  simp only
  rw [hset, ok_bind, hzero]
  exact indrSetReference_eq (F n) hblock₂ (by omega)

/-- Position `q` is in use: the way goes on from the block there. -/
theorem descend_used (hpos : 0 < r) (mustExist : Bool) (parent : Option ℕ) (parentOid : ℕ) :
    t.descend p mustExist (fuel + 1) parent off parentOid (n - base + 1) =
      t.descend p mustExist fuel (some off) (refs q) (n - base + 1)
        (n - (base + q * maxCount p.pageSize ^ (k + 1)) + 1) := by
  have hc := hp.count
  have hoid : n - base + 1 = q * maxCount p.pageSize ^ (k + 1) + r + 1 := by omega
  have hused : base + q * maxCount p.pageSize ^ (k + 1) < n := by omega
  have hmem : refs q ∈ S := (h.footprint _).2 (.inr ⟨q, hq, hused, (h.used q hq hused).mem⟩)
  obtain ⟨i, -, hi⟩ := hS hmem
  have hvalid := hp.valid i
  rw [hi] at hvalid
  rw [descend, getBlock_eq hp.getBlock h.block, ok_bind]
  simp only
  rw [hoid, tindGetReference_eq (by omega) (Nat.succ_pos k) hpow hr hq, ok_bind]
  simp only
  rw [if_neg (by rw [nullFileAddr]; omega), if_neg (by rw [missingFileAddr]; omega),
    show n - (base + q * maxCount p.pageSize ^ (k + 1)) = r by omega]

end Down

/-- Position `q` leads to an `INDR` that is full, where there could be a block of level `k + 1`. -/
theorem pushedDown_reaches (hp : Pages p pages) {k off base n q fuel : ℕ} {refs : ℕ → ℕ}
    {sub : ℕ → Set ℕ} {S : Set ℕ}
    (h : HoldsTind (maxCount p.pageSize) t.blocks
      (fun r b s => Holds (maxCount p.pageSize) F t.blocks (k + 1) r b n s) (k + 2)
      (maxCount p.pageSize ^ (k + 2)) off base n refs sub S)
    (hS : S ⊆ used pages t) (hpow : maxCount p.pageSize ^ (k + 2) < 2 ^ 64)
    (hq : q < maxCount p.pageSize)
    (hused : base + q * maxCount p.pageSize ^ (k + 2) < n)
    (hindr : HoldsIndr (maxCount p.pageSize) F t.blocks (refs q)
      (base + q * maxCount p.pageSize ^ (k + 2)) n)
    (hsub : sub q = {refs q})
    (hn : n = base + q * maxCount p.pageSize ^ (k + 2) + maxCount p.pageSize) (mustExist : Bool) :
    Reaches p pages F t S S (k + 2) off base n
      (t.descend p mustExist (fuel + 1) (some off) (refs q) (n - base + 1)
        (n - (base + q * maxCount p.pageSize ^ (k + 2)) + 1)) := by
  have hc := hp.count
  have hlt : maxCount p.pageSize < maxCount p.pageSize ^ (k + 2) := lt_self_pow₀ hc (by omega)
  have hmul : (q + 1) * maxCount p.pageSize ^ (k + 2) =
      q * maxCount p.pageSize ^ (k + 2) + maxCount p.pageSize ^ (k + 2) := Nat.succ_mul ..
  obtain ⟨refs', hblock, -⟩ := id hindr
  have hoffS : off ∈ S := (h.footprint off).2 (.inl rfl)
  have hmem : refs q ∈ S := (h.footprint _).2 (.inr ⟨q, hq, hused, by rw [hsub]; rfl⟩)
  have hne : refs q ≠ off := fun he => h.own q hq hused (by rw [hsub, he]; rfl)
  set y := pages t.allocated with hy
  have hnew : ∀ x ∈ S, x ≠ y := fun x hx => ne_allocated hp.injective (hS hx)
  set t₁ := added pages t (.tind 0 fun _ => nullFileAddr) with ht₁
  have hgrown₁ : Grown pages t t₁ {off} := grown_added t _ _
  have hfresh₁ : fresh pages t t₁ = {y} := fresh_added t _
  have hused₁ : used pages t₁ = used pages t ∪ {y} := by
    rw [used_union hgrown₁.allocated, hfresh₁]
  have hframe₁ : ∀ x ∈ S, t₁.blocks x = t.blocks x := fun x hx => Function.update_of_ne (hnew x hx) ..
  -- the levels between the two, down to a new `INDR`
  obtain ⟨t', heq, hgrown, hblock', Sq, hheld, hSq⟩ := pushDown_reaches hp
    ((hframe₁ off hoffS).trans h.block) (show t₁.blocks y = _ from Function.update_self ..)
    (hindr.congr (hframe₁ _ hmem)) hn hq hpow (hnew off hoffS).symm (hnew _ hmem) hne (by
      rw [hused₁]
      rintro x (rfl | rfl | rfl)
      · exact .inl (hS hoffS)
      · exact .inr rfl
      · exact .inl (hS hmem))
  have hfresh : fresh pages t t' = _ := fresh_union hgrown₁.allocated hgrown.allocated
  have hgrown' : Grown pages t t' (insert off ∅) := by
    refine (grown_added t _ _).trans hgrown ?_
    rintro x (rfl | rfl)
    · exact .inl (.inl rfl)
    · exact .inr (by rw [hfresh₁]; rfl)
  have hSq' : Sq ⊆ {refs q} ∪ fresh pages t t' := by
    intro x hx
    rw [hfresh, hfresh₁]
    rcases hSq hx with (rfl | rfl) | hx
    · exact .inr (.inl rfl)
    · exact .inl rfl
    · exact .inr (.inr hx)
  obtain ⟨hg, hh⟩ := h.grow hp hS hq (Nat.le_of_lt hused)
    (show n < base + (q + 1) * maxCount p.pageSize ^ (k + 2) by omega) (T := {refs q})
    (Set.singleton_subset_iff.2 hmem) (fun he => hne he.symm)
    (fun j hj hjq hlt => hsub ▸ h.disjoint j hj q hq hlt hused hjq) hblock'
    (hgrown'.mono (Set.insert_subset_insert (Set.empty_subset _))) hheld hSq'
  refine ⟨t', ?_, hg, hh⟩
  rw [← heq, descend, getBlock_eq hp.getBlock hblock, ok_bind]
  simp only
  rw [reachIndr, if_neg (by omega), newTind_eq hp, ok_bind]
  simp only
  rw [getBlockLevel, ← ht₁, hframe₁ off hoffS, h.block]
  simp only [ok_bind]
  rw [if_neg (by omega), pushDown,
    show n - (base + q * maxCount p.pageSize ^ (k + 2)) = maxCount p.pageSize by omega,
    show n - base = q * maxCount p.pageSize ^ (k + 2) + maxCount p.pageSize by omega]

/-- **The way down from a `TIND`** to the next reference. -/
theorem descend_reaches (hp : Pages p pages) {k off base n fuel : ℕ} {refs : ℕ → ℕ}
    {sub : ℕ → Set ℕ} {S : Set ℕ}
    (h : HoldsTind (maxCount p.pageSize) t.blocks
      (fun r b s => Holds (maxCount p.pageSize) F t.blocks k r b n s) (k + 1)
      (maxCount p.pageSize ^ (k + 1)) off base n refs sub S)
    (hS : S ⊆ used pages t) (hpow : maxCount p.pageSize ^ (k + 1) < 2 ^ 64) (hlo : base ≤ n)
    (hhi : n < base + maxCount p.pageSize ^ (k + 2)) (hfuel : k + 2 ≤ fuel)
    (mustExist : Bool) (parent : Option ℕ) (parentOid : ℕ) :
    Reaches p pages F t S S (k + 1) off base n
      (t.descend p mustExist fuel parent off parentOid (n - base + 1)) := by
  have hc := hp.count
  obtain ⟨fuel, rfl⟩ := Nat.exists_eq_succ_of_ne_zero (by omega : fuel ≠ 0)
  induction k generalizing t off base fuel refs sub S parent parentOid with
  | zero =>
    obtain ⟨q, hq, r, hr, hn⟩ := exists_position hc hlo hhi
    rcases Nat.eq_zero_or_pos r with hzero | hpos
    · exact descend_unused hp h hS hpow hq hr hn hzero ..
    · -- under a block of level 1 there is an `INDR`, and it has room
      have hused : base + q * maxCount p.pageSize ^ (0 + 1) < n := by omega
      obtain ⟨hindr, hsub⟩ := h.used q hq hused
      obtain ⟨refs', hblock, -⟩ := id hindr
      rw [descend_used hp h hS hpow hq hr hn hpos]
      refine reaches_of_sub hp h hS hq hr hn hused ?_
      obtain ⟨fuel, rfl⟩ := Nat.exists_eq_succ_of_ne_zero (by omega : fuel ≠ 0)
      rw [descend, getBlock_eq hp.getBlock hblock, ok_bind, hsub]
      have hpow1 : maxCount p.pageSize ^ (0 + 1) = maxCount p.pageSize := Nat.pow_one _
      exact reachIndr_reaches hindr (by omega) (by omega) ..
  | succ k ih =>
    obtain ⟨q, hq, r, hr, hn⟩ := exists_position hc hlo hhi
    rcases Nat.eq_zero_or_pos r with hzero | hpos
    · exact descend_unused hp h hS hpow hq hr hn hzero ..
    have hused : base + q * maxCount p.pageSize ^ (k + 1 + 1) < n := by omega
    obtain ⟨fuel, rfl⟩ := Nat.exists_eq_succ_of_ne_zero (by omega : fuel ≠ 0)
    rw [descend_used hp h hS hpow hq hr hn hpos]
    rcases h.used q hq hused with ⟨hindr, hle, hsub⟩ | ⟨refs', sub', hsub⟩
    · obtain ⟨refs', hblock, -⟩ := id hindr
      by_cases hroom : n < base + q * maxCount p.pageSize ^ (k + 1 + 1) + maxCount p.pageSize
      · refine reaches_of_sub hp h hS hq hr hn hused ?_
        rw [descend, getBlock_eq hp.getBlock hblock, ok_bind, hsub]
        exact reachIndr_reaches hindr (by omega) hroom ..
      · refine pushedDown_reaches hp h hS hpow hq hused hindr hsub ?_ mustExist
        exact show n = _ + q * maxCount p.pageSize ^ (k + 1 + 1) + _ by omega
    · refine reaches_of_sub hp h hS hq hr hn hused ?_
      have hmono : maxCount p.pageSize ^ (k + 1) ≤ maxCount p.pageSize ^ (k + 1 + 1) :=
        Nat.pow_le_pow_right (by omega) (Nat.le_succ _)
      exact ih hsub (fun x hx => hS ((h.footprint x).2 (.inr ⟨q, hq, hused, hx⟩)))
        (lt_of_le_of_lt hmono hpow) (by omega)
        (show n < _ + maxCount p.pageSize ^ (k + 1 + 1) by omega) _ _ _ (by omega)

/-! ### Insertions -/

/-- A table after `n` insertions: the index holds the first `n` references, and it is no higher than
they require. -/
structure Index (p : OidPages) (pages F : ℕ → ℕ) (t : OidTable) (n : ℕ) : Prop where
  firstFreeOid : t.firstFreeOid = nullOid
  lastOid : t.lastOid = (n + 1) % 2 ^ 64
  empty : n = 0 → t.indirectIndex = nullFileAddr
  root : 0 < n → ∃ K S, Holds (maxCount p.pageSize) F t.blocks K t.indirectIndex 0 n S ∧
    S ⊆ used pages t ∧ n ≤ maxCount p.pageSize ^ (K + 1) ∧ (K = 0 ∨ maxCount p.pageSize ^ K < n)

/-- The table with its next identifier taken. -/
def numbered (t : OidTable) (n : ℕ) : OidTable := { t with lastOid := (n + 1 + 1) % 2 ^ 64 }

section Step

variable {n : ℕ} (hp : Pages p pages) (h : Index p pages F t n) (hn : n + 1 < 2 ^ 64)

include hp h hn

/-- The first insertion. -/
theorem rowInsert_first (hzero : n = 0) :
    ∃ t', t.rowInsert p (F n) = .ok (t', n + 1) ∧ Index p pages F t' (n + 1) := by
  have hc := hp.count
  obtain ⟨firstFreeOid, lastOid, indirectIndex, blocks, allocated⟩ := t
  obtain rfl : firstFreeOid = nullOid := h.firstFreeOid
  obtain rfl : indirectIndex = nullFileAddr := h.empty hzero
  obtain rfl : lastOid = n + 1 := h.lastOid.trans (Nat.mod_eq_of_lt hn)
  set t := OidTable.mk nullOid (n + 1) nullFileAddr blocks allocated with ht
  set t₁ := added pages (t.numbered n) (.indr fun _ => nullFileAddr) with ht₁
  set y := pages allocated with hy
  have hblock : { t₁ with indirectIndex := y }.blocks y = some (.indr fun _ => nullFileAddr) :=
    Function.update_self ..
  have hput := indrSetReference_eq (F n) hblock (show n < maxCount p.pageSize by omega)
  refine ⟨{ t₁ with indirectIndex := y }.store y
      (.indr (Function.update (fun _ => nullFileAddr) n (F n))), ?_, h.firstFreeOid, rfl,
    fun he => absurd he (Nat.succ_ne_zero n), fun _ => ⟨0, {y}, ?_, ?_, ?_, .inl rfl⟩⟩
  · rw [rowInsert, hp.getBlock, ok_bind]
    simp only [ht, ne_eq, not_true, decide_false, Bool.false_eq_true, if_false, if_true]
    rw [if_neg (by omega), newIndr_eq hp, ok_bind, ok_bind]
    exact bind_eq_ok.2 ⟨_, hput, rfl⟩
  · subst hzero
    exact holds_newIndr hc 0 (store_self ..) (Function.update_self ..)
  · rintro x rfl
    exact ⟨allocated, Nat.lt_succ_self _, rfl⟩
  · rw [hzero, Nat.zero_add, Nat.pow_one]
    omega

/-- An insertion where there is an index. -/
theorem rowInsert_next (hindex : t.indirectIndex ≠ nullFileAddr)
    (hput : ((t.numbered n).descend p false maxLevels none t.indirectIndex (n + 1) (n + 1) >>=
      put p (F n)) = .ok t') :
    t.rowInsert p (F n) = .ok (t', n + 1) := by
  obtain ⟨x, hx, hset⟩ := bind_eq_ok.1 hput
  rw [rowInsert, hp.getBlock, ok_bind]
  simp only [h.firstFreeOid, h.lastOid, Nat.mod_eq_of_lt hn, ne_eq, not_true, decide_false,
    Bool.false_eq_true, if_false, hindex]
  rw [numbered, h.firstFreeOid] at hx
  rw [hx, ok_bind]
  exact bind_eq_ok.2 ⟨_, hset, rfl⟩

end Step

/-- What an insertion comes to over the whole index. -/
def RootReaches (p : OidPages) (pages F : ℕ → ℕ) (t : OidTable) (n : ℕ)
    (place : Except Failure (OidTable × ℕ × ℕ)) : Prop :=
  ∃ K S t', (place >>= put p (F n)) = .ok t' ∧ t'.firstFreeOid = t.firstFreeOid ∧
    t'.lastOid = t.lastOid ∧
    Holds (maxCount p.pageSize) F t'.blocks K t'.indirectIndex 0 (n + 1) S ∧
    S ⊆ used pages t' ∧ n + 1 ≤ maxCount p.pageSize ^ (K + 1) ∧
    (K = 0 ∨ maxCount p.pageSize ^ K < n + 1)

/-- The index has room. -/
theorem Reaches.root {n K : ℕ} {S : Set ℕ} {place : Except Failure (OidTable × ℕ × ℕ)}
    (h : Reaches p pages F t S S K t.indirectIndex 0 n place) (hS : S ⊆ used pages t)
    (hroom : n < maxCount p.pageSize ^ (K + 1))
    (hheight : K = 0 ∨ maxCount p.pageSize ^ K < n) : RootReaches p pages F t n place := by
  obtain ⟨t', heq, hgrown, S', hheld, hS'⟩ := h
  refine ⟨K, S', t', heq, hgrown.firstFreeOid, hgrown.lastOid, ?_, ?_, hroom,
    hheight.imp_right Nat.lt_succ_of_lt⟩
  · rw [hgrown.indirectIndex]
    exact hheld
  · rw [used_union hgrown.allocated]
    exact hS'.trans (Set.union_subset_union_left _ hS)

/-- The index is full: a level on top. -/
theorem rootReaches_top (hp : Pages p pages) {n K : ℕ} {S : Set ℕ}
    (hholds : Holds (maxCount p.pageSize) F t.blocks K t.indirectIndex 0 n S)
    (hS : S ⊆ used pages t) (hn : n = maxCount p.pageSize ^ (K + 1)) (hn64 : n < 2 ^ 64) :
    RootReaches p pages F t n (splitTop p
      { (added pages t (.tind 0 fun _ => nullFileAddr)).setBlockLevel (pages t.allocated) (K + 1) with
          indirectIndex := pages t.allocated }
      (pages t.allocated) t.indirectIndex (n + 1)) := by
  have hc := hp.count
  set y := pages t.allocated with hy
  set t₁ := added pages t (.tind 0 fun _ => nullFileAddr) with ht₁
  rw [setBlockLevel_eq (show t₁.blocks y = _ from Function.update_self ..)]
  set t₂ : OidTable := { t₁.store y (.tind (K + 1) fun _ => nullFileAddr) with indirectIndex := y }
    with ht₂
  have hnew : ∀ x ∈ S, x ≠ y := fun x hx => ne_allocated hp.injective (hS hx)
  have hframe : ∀ x ∈ S, t₂.blocks x = t.blocks x := fun x hx =>
    (Function.update_of_ne (hnew x hx) ..).trans (Function.update_of_ne (hnew x hx) ..)
  have hused : insert y S ⊆ used pages t₂ := by
    rintro x (rfl | hx)
    · exact ⟨t.allocated, Nat.lt_succ_self _, rfl⟩
    · obtain ⟨i, hi, hxi⟩ := hS hx
      exact ⟨i, Nat.lt_succ_of_lt hi, hxi⟩
  obtain ⟨t', heq, hgrown, S', hheld, hS'⟩ := splitTop_reaches hp
    (show t₂.blocks y = _ from Function.update_self ..) (hholds.congr hframe) (by omega) (by omega)
    (fun hm => hnew y hm rfl) hused
  refine ⟨K + 1, S', t', ?_, hgrown.firstFreeOid, hgrown.lastOid, ?_, ?_, ?_, .inr (by omega)⟩
  · rw [hn]
    rw [hn] at heq
    exact heq
  · rw [hgrown.indirectIndex]
    exact hheld
  · rw [used_union hgrown.allocated]
    exact hS'.trans (Set.union_subset_union_left _ hused)
  · rw [hn]
    exact Nat.pow_lt_pow_right (by omega) (Nat.lt_succ_self _)

/-- The next reference, from the root. -/
theorem descend_rootReaches (hp : Pages p pages) {n K : ℕ} {S : Set ℕ}
    (hholds : Holds (maxCount p.pageSize) F t.blocks K t.indirectIndex 0 n S)
    (hS : S ⊆ used pages t) (hle : n ≤ maxCount p.pageSize ^ (K + 1)) (hn64 : n < 2 ^ 64)
    (hheight : K = 0 ∨ maxCount p.pageSize ^ K < n) :
    RootReaches p pages F t n
      (t.descend p false maxLevels none t.indirectIndex (n + 1) (n + 1)) := by
  have hc := hp.count
  cases K with
  | zero =>
    obtain ⟨hindr, rfl⟩ := hholds
    obtain ⟨refs, hblock, -⟩ := id hindr
    rw [maxLevels, descend, getBlock_eq hp.getBlock hblock, ok_bind]
    simp only
    rw [Nat.zero_add, Nat.pow_one] at hle
    by_cases hroom : n < maxCount p.pageSize
    · exact (reachIndr_reaches hindr (Nat.zero_le n) (by omega) 0 none (n + 1)).root hS
        (by rw [Nat.zero_add, Nat.pow_one]; exact hroom) hheight
    · have htop := rootReaches_top hp (K := 0) (F := F) (n := n) ⟨hindr, rfl⟩ hS
        (by rw [Nat.zero_add, Nat.pow_one]; omega) hn64
      rw [reachIndr, if_neg (by omega), newTind_eq hp, ok_bind]
      exact htop
  | succ k =>
    have hhigh : maxCount p.pageSize ^ (k + 1) < n := hheight.resolve_left (Nat.succ_ne_zero k)
    -- too many references for an `INDR`
    have htind : ∃ refs sub, HoldsTind (maxCount p.pageSize) t.blocks
        (fun r b s => Holds (maxCount p.pageSize) F t.blocks k r b n s) (k + 1)
        (maxCount p.pageSize ^ (k + 1)) t.indirectIndex 0 n refs sub S := by
      refine hholds.resolve_left ?_
      rintro ⟨-, hfew, -⟩
      have hone : maxCount p.pageSize ^ 1 ≤ maxCount p.pageSize ^ (k + 1) :=
        Nat.pow_le_pow_right (by omega) (by omega)
      rw [Nat.pow_one] at hone
      omega
    obtain ⟨refs, sub, htind⟩ := htind
    -- a level is a power of at least 2 that fits in 64 bits
    have hlevel : k + 1 < 64 := by
      refine (Nat.pow_lt_pow_iff_right (a := 2) (by omega)).1 ?_
      calc 2 ^ (k + 1) ≤ maxCount p.pageSize ^ (k + 1) := Nat.pow_le_pow_left hc _
        _ < 2 ^ 64 := hhigh.trans hn64
    by_cases hroom : n < maxCount p.pageSize ^ (k + 1 + 1)
    · exact (descend_reaches hp htind hS (hhigh.trans hn64) (Nat.zero_le n)
        (by rw [Nat.zero_add]; exact hroom) (by rw [maxLevels]; omega) ..).root hS hroom hheight
    · have hn : n = maxCount p.pageSize ^ (k + 1 + 1) := by omega
      have hoid : n + 1 = maxCount p.pageSize * maxCount p.pageSize ^ (k + 1) + 0 + 1 := by
        rw [hn, Nat.pow_succ', Nat.add_zero]
      have hmissing : tindGetReference (maxCount p.pageSize) (k + 1) refs (n + 1) false =
          .ok (missingFileAddr, 0 + 1) := by
        rw [tindGetReference, hoid, tindPosition_eq (by omega) (Nat.succ_pos k)
          (hhigh.trans hn64) (Nat.pow_pos (by omega)), if_pos (Nat.le_refl _)]
        rfl
      have htop := rootReaches_top hp hholds hS hn hn64
      rw [maxLevels, descend, getBlock_eq hp.getBlock htind.block, ok_bind]
      simp only
      rw [hmissing, ok_bind]
      simp only
      rw [if_neg (by decide), if_pos trivial, addTop, if_neg (by omega), newTind_eq hp, ok_bind]
      exact htop

/-- **An insertion adds the next reference.** -/
theorem Index.rowInsert {n M : ℕ} (hp : Pages p pages) (h : Index p pages F t n)
    (hM : n + 1 ≤ maxCount p.pageSize ^ (M + 1)) (hpow : maxCount p.pageSize ^ (M + 1) < 2 ^ 64) :
    ∃ t', t.rowInsert p (F n) = .ok (t', n + 1) ∧ Index p pages F t' (n + 1) := by
  have hn : n + 1 < 2 ^ 64 := lt_of_le_of_lt hM hpow
  rcases Nat.eq_zero_or_pos n with hzero | hpos
  · exact rowInsert_first hp h hn hzero
  obtain ⟨K, S, hholds, hS, hle, hheight⟩ := h.root hpos
  obtain ⟨i, -, hi⟩ := hS hholds.mem
  have hvalid := hp.valid i
  have hindex : t.indirectIndex ≠ nullFileAddr := by
    rw [nullFileAddr]
    omega
  obtain ⟨K', S', t', hput, hfree, hlast, hheld, hS', hle', hheight'⟩ :=
    descend_rootReaches (t := t.numbered n) hp hholds hS hle (by omega) hheight
  exact ⟨t', rowInsert_next hp h hn hindex hput, hfree.trans h.firstFreeOid, hlast,
    fun he => absurd he (Nat.succ_ne_zero n), fun _ => ⟨K', S', hheld, hS', hle', hheight'⟩⟩

/-- A reference that was put is found. -/
theorem Index.getIndirectReference {n M x : ℕ} (hp : Pages p pages) (h : Index p pages F t n)
    (hM : n ≤ maxCount p.pageSize ^ (M + 1)) (hpow : maxCount p.pageSize ^ (M + 1) < 2 ^ 64)
    (hx : x < n) : t.getIndirectReference p (x + 1) = .ok (F x) := by
  have hc := hp.count
  obtain ⟨K, S, hholds, hS, hle, hheight⟩ := h.root (by omega)
  have hvalid : ∀ y ∈ S, y ≠ nullFileAddr := fun y hy => by
    obtain ⟨i, -, hi⟩ := hS hy
    have := hp.valid i
    rw [nullFileAddr]
    omega
  have hK : maxCount p.pageSize ^ K < 2 ^ 64 := by
    rcases hheight with rfl | hlt
    · rw [Nat.pow_zero]
      decide
    · omega
  have hfuel : K < maxLevels := by
    refine lt_trans ((Nat.pow_lt_pow_iff_right (a := 2) (by omega)).1 ?_) (by decide : 64 < maxLevels)
    exact lt_of_le_of_lt (Nat.pow_le_pow_left hc _) hK
  rw [OidTable.getIndirectReference, hp.getBlock, ok_bind, if_neg (hvalid _ hholds.mem)]
  exact findReference_eq hp.getBlock hc hholds hvalid hK (Nat.zero_le x) hx (by omega) hfuel

/-! ### Runs -/

/-- Successive insertions: the table, and the identifiers that were given. -/
def rowInserts (p : OidPages) : OidTable → List ℕ → Except Failure (OidTable × List ℕ)
  | t, [] => .ok (t, [])
  | t, ref :: refs => do
    let (t, oid) ← t.rowInsert p ref
    let (t, oids) ← rowInserts p t refs
    .ok (t, oid :: oids)

/-- The index is a growing array: the insertions of the references succeed, the identifiers are 1,
2, 3 and so on, and each one leads to its reference. -/
def GrowingArray (p : OidPages) (refs : List ℕ) : Prop :=
  ∃ t, rowInserts p {} refs = .ok (t, (List.range refs.length).map (· + 1)) ∧
    ∀ i, (h : i < refs.length) → t.getIndirectReference p (i + 1) = .ok refs[i]

/-- The reference of each row. -/
def reference (refs : List ℕ) (i : ℕ) : ℕ := refs.getD i 0

theorem index_empty (p : OidPages) (pages F : ℕ → ℕ) : Index p pages F {} 0 :=
  ⟨rfl, rfl, fun _ => rfl, fun h => absurd h (Nat.lt_irrefl 0)⟩

/-- A run from a table that has `n` rows. -/
theorem Index.rowInserts {M : ℕ} (hp : Pages p pages)
    (hpow : maxCount p.pageSize ^ (M + 1) < 2 ^ 64) :
    ∀ {refs : List ℕ} {n : ℕ} {t : OidTable}, Index p pages F t n →
      (∀ i, (h : i < refs.length) → refs[i] = F (n + i)) →
      n + refs.length ≤ maxCount p.pageSize ^ (M + 1) →
      ∃ t', OidTable.rowInserts p t refs =
          .ok (t', (List.range refs.length).map (· + (n + 1))) ∧
        Index p pages F t' (n + refs.length)
  | [], n, t, h, _, _ => ⟨t, rfl, h⟩
  | ref :: refs, n, t, h, hF, hM => by
    rw [List.length_cons] at hM
    obtain ⟨t₁, hinsert, h₁⟩ := h.rowInsert hp (M := M) (by omega) hpow
    obtain ⟨t', hrun, h'⟩ := Index.rowInserts hp hpow h₁
      (fun i (hi : i < refs.length) => by
        have hnext := hF (i + 1) (Nat.succ_lt_succ hi)
        rw [List.getElem_cons_succ] at hnext
        rw [hnext, Nat.add_right_comm, Nat.add_assoc])
      (by omega)
    have href : ref = F n := hF 0 (Nat.succ_pos _)
    refine ⟨t', ?_, by rw [List.length_cons, ← Nat.add_assoc, Nat.add_right_comm]; exact h'⟩
    rw [OidTable.rowInserts, href, hinsert, ok_bind]
    simp only
    rw [hrun, ok_bind, List.length_cons, List.range_succ_eq_map, List.map_cons, List.map_map,
      Nat.zero_add]
    congr 3
    refine List.map_congr_left fun i _ => ?_
    simp only [Function.comp_apply]
    omega

/-- A table whose calls on blocks have these outcomes, and whose new blocks are at `pages`. -/
def pagesOf (calls : BlockCalls) (pageSize : ℕ) (pages : ℕ → ℕ) : OidPages where
  pageSize := pageSize
  getBlock := calls.getBlock
  allocateNewBlock i := do
    calls.getBlock
    calls.setStructureVersion
    .ok (pages i)

/-- The first insertion accesses the header and makes a block. -/
theorem not_growingArray {calls : BlockCalls} {pageSize : ℕ} {refs : List ℕ} (hne : refs ≠ [])
    (h : GrowingArray (pagesOf calls pageSize pages) refs) :
    calls.getBlock = .ok () ∧ calls.setStructureVersion = .ok () := by
  obtain ⟨t, hrun, -⟩ := h
  cases refs with
  | nil => exact absurd rfl hne
  | cons ref refs =>
    rw [rowInserts] at hrun
    obtain ⟨x, hinsert, -⟩ := bind_eq_ok.1 hrun
    rw [rowInsert] at hinsert
    obtain ⟨⟨⟩, hget, hrest⟩ := bind_eq_ok.1 hinsert
    have hget' : calls.getBlock = .ok () := hget
    refine ⟨hget', ?_⟩
    obtain ⟨x, hnew, -⟩ := bind_eq_ok.1 hrest
    rw [newIndr, allocate] at hnew
    obtain ⟨x, hnew, -⟩ := bind_eq_ok.1 hnew
    rw [pagesOf] at hnew
    obtain ⟨⟨⟩, -, hnew⟩ := bind_eq_ok.1 hnew
    obtain ⟨⟨⟩, hversion, -⟩ := bind_eq_ok.1 hnew
    exact hversion

/-- **The indirect index is a growing array** exactly when nothing is inserted, or when the blocks of
the table can be accessed and created. -/
theorem growingArray_iff (calls : BlockCalls) {pageSize : ℕ} (hsize : 32 ≤ pageSize)
    (hinj : Function.Injective pages) (hpages : ∀ i, 0 < pages i ∧ pageSize ∣ pages i)
    (refs : List ℕ) {l : ℕ} (hfew : refs.length ≤ maxCount pageSize ^ (l + 1))
    (hfits : maxCount pageSize ^ (l + 1) < 2 ^ 64) :
    GrowingArray (pagesOf calls pageSize pages) refs ↔
      refs = [] ∨ calls.getBlock = .ok () ∧ calls.setStructureVersion = .ok () := by
  constructor
  · intro h
    by_cases hne : refs = []
    · exact .inl hne
    · exact .inr (not_growingArray hne h)
  · rintro (rfl | ⟨hget, hversion⟩)
    · exact ⟨{}, rfl, fun i hi => absurd hi (Nat.not_lt_zero i)⟩
    have hp : Pages (pagesOf calls pageSize pages) pages := by
      refine ⟨hget, fun i => ?_, hinj, fun i => ?_, ?_⟩
      · rw [pagesOf]
        simp only
        rw [hget, ok_bind, hversion, ok_bind]
      · have hle := Nat.le_of_dvd (hpages i).1 (hpages i).2
        omega
      · refine (Nat.le_div_iff_mul_le (by omega)).2 ?_
        rw [show startOffset = 16 by decide]
        exact Nat.le_sub_of_add_le hsize
    obtain ⟨t, hrun, hindex⟩ := (index_empty _ pages (reference refs)).rowInserts hp hfits
      (fun i (hi : i < refs.length) => by rw [reference, Nat.zero_add, List.getD_eq_getElem _ _ hi])
      (by rw [Nat.zero_add]; exact hfew)
    refine ⟨t, hrun, fun i hi => ?_⟩
    rw [Nat.zero_add] at hindex
    rw [hindex.getIndirectReference hp hfew hfits hi, reference, List.getD_eq_getElem _ _ hi]

theorem growingArray_three : GrowingArray (pagesOf {} 4096 fun i => (i + 1) * 4096) [68, 92, 116] :=
  (growingArray_iff {} (l := 0) (by decide)
    (fun i j h => Nat.succ_injective (Nat.eq_of_mul_eq_mul_right (by decide) h))
    (fun i => ⟨Nat.mul_pos (Nat.succ_pos i) (by decide), Dvd.intro_left _ rfl⟩) [68, 92, 116]
    (by decide) (by decide)).2 (.inr ⟨rfl, rfl⟩)

theorem code_not_growingArray :
    ¬ GrowingArray (pagesOf BlockCalls.code 4096 fun i => (i + 1) * 4096) [68] := fun h => by
  have hget := (not_growingArray (List.cons_ne_nil 68 []) h).1
  rw [BlockCalls.code_getBlock] at hget
  nomatch hget

end OidTable

end Prinbee
