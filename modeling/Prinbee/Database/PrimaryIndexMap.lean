import Prinbee.Database.PrimaryIndex

/-!
# The primary index is a map

After any insertions of different keys, a key leads to the identifier it was inserted with, and every
other key to none.  An `EIDX` block is seen as the list of its entries, in the order of their keys,
and the binary search either finds the key or ends where it has to be inserted.  The blocks of the
different positions of the `PIDX` block are different, so an insertion changes the entries of one
position only.

## Main definitions

* `EntryIndex.Holds` — a page that holds a list of entries in order.
* `PrimaryTable.Index` — a table whose primary index holds the pairs.
* `PrimaryTable.PrimaryMap` — the index is a map after a sequence of insertions.

## Main results

* `EntryIndex.Holds.findEntry` — the search finds the key, or the place of a new entry.
* `EntryIndex.Holds.addEntry` — an entry added at that place leaves the page in order.
* `PrimaryTable.primaryMap_iff` — when the index is a map.
-/

namespace Prinbee

open UInt512 (ofBytes toBytes length_toBytes ofBytes_toBytes ofBytes_append ofBytes_lt
  toBytes_ofBytes ofBytes_replicate_zero)

/-! ### Keys -/

/-- The number a key is compared by. -/
def keyValue (key : Bytes) : ℕ := ofBytes key.reverse

theorem keyValue_cons (b : UInt8) (key : Bytes) :
    keyValue (b :: key) = keyValue key + 256 ^ key.length * b.toNat := by
  have hbyte : ofBytes [b] = b.toNat := by simp [ofBytes]
  rw [keyValue, List.reverse_cons, ofBytes_append, List.length_reverse, hbyte, keyValue]

theorem keyValue_lt (key : Bytes) : keyValue key < 256 ^ key.length := by
  have h := ofBytes_lt key.reverse
  rwa [List.length_reverse] at h

theorem keyValue_inj {a b : Bytes} (hlen : a.length = b.length) (h : keyValue a = keyValue b) :
    a = b := by
  have hrev : a.reverse = b.reverse := by
    rw [← toBytes_ofBytes a.reverse, ← toBytes_ofBytes b.reverse, List.length_reverse,
      List.length_reverse, hlen]
    exact congrArg _ h
  exact List.reverse_injective hrev

/-- The bytes are compared from the first one on, so the first one counts most. -/
theorem memcmp_eq : ∀ {a b : Bytes}, a.length = b.length →
    memcmp a b = compare (keyValue a) (keyValue b)
  | [], [], _ => by simp [memcmp]
  | a :: as, b :: bs, h => by
    have hlen : as.length = bs.length := by simpa using h
    have ha := keyValue_lt as
    have hb := keyValue_lt bs
    rw [memcmp, memcmp_eq hlen, keyValue_cons, keyValue_cons, hlen]
    rw [hlen] at ha
    generalize 256 ^ bs.length = w at ha hb
    rcases Nat.lt_trichotomy a.toNat b.toNat with hlt | heq | hgt
    · have hmul : w * (a.toNat + 1) ≤ w * b.toNat := Nat.mul_le_mul_left w hlt
      have hsum : keyValue as + w * a.toNat < keyValue bs + w * b.toNat := by
        rw [Nat.mul_succ] at hmul
        omega
      rw [Nat.compare_eq_lt.2 hlt, Nat.compare_eq_lt.2 hsum]
      rfl
    · rw [heq, Nat.compare_eq_eq.2 (rfl : b.toNat = b.toNat), Ordering.eq_then]
      rcases Nat.lt_trichotomy (keyValue as) (keyValue bs) with hlt | heq' | hgt
      · rw [Nat.compare_eq_lt.2 hlt, Nat.compare_eq_lt.2 (Nat.add_lt_add_right hlt _)]
      · rw [heq', Nat.compare_eq_eq.2 rfl, Nat.compare_eq_eq.2 rfl]
      · rw [Nat.compare_eq_gt.2 hgt, Nat.compare_eq_gt.2 (Nat.add_lt_add_right hgt _)]
    · have hmul : w * (b.toNat + 1) ≤ w * a.toNat := Nat.mul_le_mul_left w hgt
      have hsum : keyValue bs + w * b.toNat < keyValue as + w * a.toNat := by
        rw [Nat.mul_succ] at hmul
        omega
      rw [Nat.compare_eq_gt.2 hgt, Nat.compare_eq_gt.2 hsum]
      rfl

namespace EntryIndex

/-! ### The entries of a page -/

/-- An entry with its whole key. -/
structure Entry where
  key : Bytes
  oid : ℕ

/-- The bytes of an entry. -/
def Entry.bytes (e : Entry) : Bytes := [flagComplete] ++ toBytes 8 e.oid ++ e.key

/-- The keys of the primary index are hashes of 16 bytes, and the identifier is not the null one. -/
structure Entry.Valid (e : Entry) : Prop where
  key : e.key.length = 16
  oid : e.oid ≠ nullFileAddr
  fits : e.oid < 2 ^ 64

/-- The page holds these entries, in the order of their keys. -/
structure Holds (pageSize : ℕ) (page : Bytes) (l : List Entry) : Prop where
  length : page.length = pageSize
  count : getCount page = l.length
  size : getSize page = 25
  entries : ∃ header rest : Bytes, header.length = staticSize ∧
    page = header ++ (l.map Entry.bytes).flatten ++ rest
  valid : ∀ e ∈ l, e.Valid
  sorted : l.Pairwise fun e e' => keyValue e.key < keyValue e'.key

/-- A new entry with this key goes at this position. -/
structure Place (l : List Entry) (key : Bytes) (position : ℕ) : Prop where
  le : position ≤ l.length
  before : ∀ i, (h : i < l.length) → i < position → keyValue l[i].key < keyValue key
  after : ∀ i, (h : i < l.length) → position ≤ i → keyValue key < keyValue l[i].key

variable {pageSize : ℕ} {page : Bytes} {l : List Entry} {key : Bytes}

theorem Entry.Valid.length_bytes {e : Entry} (h : e.Valid) : e.bytes.length = 25 := by
  simp [Entry.bytes, h.key]

theorem Holds.length_bytes (h : Holds pageSize page l) :
    ∀ b ∈ l.map Entry.bytes, b.length = 25 := by
  intro b hb
  obtain ⟨e, he, rfl⟩ := List.mem_map.1 hb
  exact (h.valid e he).length_bytes

/-- A part of an entry, in the page. -/
theorem Holds.slice_entry (h : Holds pageSize page l) {i : ℕ} (hi : i < l.length) {off n : ℕ}
    (hn : off + n ≤ 25) :
    page.slice (entryOffset 25 i + off) n = l[i].bytes.slice off n := by
  obtain ⟨header, rest, hheader, hpage⟩ := h.entries
  have hlen := List.length_flatten_of_length h.length_bytes
  rw [List.length_map] at hlen
  have hmul : i * 25 + 25 ≤ l.length * 25 := by omega
  rw [hpage, List.append_assoc, entryOffset,
    List.slice_append_right _ _ (by omega), hheader,
    show staticSize + i * 25 + off - staticSize = i * 25 + off by omega,
    List.slice_append_left _ (by omega),
    List.slice_flatten h.length_bytes (by rw [List.length_map]; exact hi) hn, List.getElem_map]

theorem Holds.slice_key (h : Holds pageSize page l) {i : ℕ} (hi : i < l.length) :
    page.slice (entryOffset 25 i + 1 + 8) 16 = l[i].key := by
  have hkey := (h.valid l[i] (List.getElem_mem hi)).key
  rw [Nat.add_assoc, h.slice_entry hi (by decide), Entry.bytes,
    List.slice_append_right _ _ (by simp), List.slice]
  simp [hkey]

theorem Holds.slice_oid (h : Holds pageSize page l) {i : ℕ} (hi : i < l.length) :
    ofBytes (page.slice (entryOffset 25 i + 1) 8) = l[i].oid := by
  have hfits := (h.valid l[i] (List.getElem_mem hi)).fits
  rw [h.slice_entry hi (by decide), Entry.bytes, List.append_assoc,
    List.slice_append_right _ _ (by simp), List.slice_append_left _ (by simp), List.slice]
  simp only [List.length_singleton, Nat.sub_self, List.drop_zero]
  rw [List.take_of_length_le (by simp), ofBytes_toBytes]
  exact Nat.mod_eq_of_lt hfits

/-- The key of an entry of a page. -/
def keyAt (page : Bytes) (i : ℕ) : Bytes :=
  page.slice (entryOffset (getSize page) i + 1 + 8) (getSize page - (1 + 8))

/-- The entries of a page are sorted by their keys, which are all different. -/
def Sorted (page : Bytes) : Prop :=
  ∀ i j, i < j → j < getCount page → memcmp (keyAt page i) (keyAt page j) = .lt

/-! ### The search -/

/-- What the binary search ends with: the entry that has the key, or its place. -/
def Searched (l : List Entry) (key : Bytes) (result : Except Failure (ℕ × Bool)) : Prop :=
  (∃ i, ∃ h : i < l.length, result = .ok (i, true) ∧ l[i].key = key) ∨
    ∃ i, result = .ok (i, false) ∧ Place l key i

/-- The comparison of the key with that of an entry. -/
theorem Holds.memcmp_entry (h : Holds pageSize page l) (hkey : key.length = 16) {i : ℕ}
    (hi : i < l.length) :
    memcmp (page.slice (entryOffset 25 i + 1 + 8) 16) (key.take 16) =
      compare (keyValue l[i].key) (keyValue key) := by
  have hentry := (h.valid l[i] (List.getElem_mem hi)).key
  rw [h.slice_key hi, List.take_of_length_le (Nat.le_of_eq hkey), memcmp_eq (by omega)]

/-- The keys of the entries are in order. -/
theorem Holds.lt (h : Holds pageSize page l) {i j : ℕ} (hj : j < l.length) (hij : i < j) :
    keyValue l[i].key < keyValue l[j].key :=
  List.pairwise_iff_getElem.1 h.sorted i j (by omega) hj hij

theorem Holds.isSorted (h : Holds pageSize page l) : Sorted page := by
  intro i j hij hj
  rw [h.count] at hj
  have hi := (h.valid l[i] (List.getElem_mem (by omega))).key
  have hj' := (h.valid l[j] (List.getElem_mem hj)).key
  rw [keyAt, keyAt, h.size, show 25 - (1 + 8) = 16 from rfl, h.slice_key (by omega), h.slice_key hj,
    memcmp_eq (by omega), Nat.compare_eq_lt.2 (h.lt hj hij)]

/-- The entries before `i` are lower and those from `j` on are higher; the position is one of the
two, so it is right when they meet. -/
theorem Holds.search (h : Holds pageSize page l) (hkey : key.length = 16) :
    ∀ (fuel i j position : ℕ), j - i ≤ fuel → i ≤ j → j ≤ l.length →
      position = i ∨ position = j →
      (∀ x, (hx : x < l.length) → x < i → keyValue l[x].key < keyValue key) →
      (∀ x, (hx : x < l.length) → j ≤ x → keyValue key < keyValue l[x].key) →
      Searched l key (search page 25 16 key fuel i j position) := by
  intro fuel
  induction fuel with
  | zero =>
    intro i j position hfuel hij hj hposition hbefore hafter
    have heq : i = j := by omega
    subst heq
    rw [EntryIndex.search, if_neg (Nat.lt_irrefl i)]
    obtain rfl : position = i := by omega
    exact .inr ⟨position, rfl, hj, hbefore, hafter⟩
  | succ fuel ih =>
    intro i j position hfuel hij hj hposition hbefore hafter
    rw [EntryIndex.search]
    by_cases hlt : i < j
    · rw [if_pos hlt]
      have hmid : (j - i) / 2 + i < j := by omega
      have hmid' : i ≤ (j - i) / 2 + i := by omega
      simp only
      generalize (j - i) / 2 + i = m at hmid hmid'
      have hm : m < l.length := by omega
      rw [h.memcmp_entry hkey hm]
      rcases Nat.lt_trichotomy (keyValue l[m].key) (keyValue key) with hlow | heq | hhigh
      · rw [Nat.compare_eq_lt.2 hlow]
        refine ih (m + 1) j (m + 1) (by omega) hmid hj (.inl rfl) (fun x hx hxm => ?_) hafter
        rcases Nat.lt_or_ge x m with hxm' | hxm'
        · exact (h.lt hm hxm').trans hlow
        · obtain rfl : x = m := by omega
          exact hlow
      · rw [Nat.compare_eq_eq.2 heq]
        have hvalid := (h.valid l[m] (List.getElem_mem hm)).key
        exact .inl ⟨m, hm, rfl, keyValue_inj (by omega) heq⟩
      · rw [Nat.compare_eq_gt.2 hhigh]
        refine ih i m m (by omega) hmid' (by omega) (.inr rfl) hbefore (fun x hx hxm => ?_)
        rcases Nat.lt_or_ge m x with hxm' | hxm'
        · exact hhigh.trans (h.lt hx hxm')
        · obtain rfl : x = m := by omega
          exact hhigh
    · have heq : i = j := by omega
      subst heq
      rw [if_neg hlt]
      obtain rfl : position = i := by omega
      exact .inr ⟨position, rfl, hj, hbefore, hafter⟩

/-- The search in the whole page. -/
theorem Holds.searched (h : Holds pageSize page l) (hkey : key.length = 16) :
    Searched l key (EntryIndex.search page 25 16 key l.length 0 l.length 0) :=
  h.search hkey l.length 0 l.length 0 (by omega) (by omega) (Nat.le_refl _) (.inl rfl)
    (fun x _ hx => absurd hx (Nat.not_lt_zero x)) (fun x hx hx' => absurd hx (by omega))

theorem Place.notMem {position : ℕ} (h : Place l key position) : ∀ e ∈ l, e.key ≠ key := by
  rintro e he rfl
  obtain ⟨i, hi, rfl⟩ := List.getElem_of_mem he
  rcases Nat.lt_or_ge i position with hlt | hge
  · exact Nat.lt_irrefl _ (h.before i hi hlt)
  · exact Nat.lt_irrefl _ (h.after i hi hge)

/-- **The search finds the key, or the place of a new entry.** -/
theorem Holds.findEntry (h : Holds pageSize page l) (hkey : key.length = 16) :
    (∃ e ∈ l, e.key = key ∧ ∃ position, EntryIndex.findEntry page key = .ok (e.oid, position)) ∨
      ∃ position, EntryIndex.findEntry page key = .ok (nullFileAddr, position) ∧
        Place l key position := by
  rw [EntryIndex.findEntry, h.count, h.size, hkey]
  by_cases hzero : l.length = 0
  · rw [if_pos hzero]
    exact .inr ⟨0, rfl, Nat.zero_le _, fun i hi => by omega, fun i hi => by omega⟩
  · rw [if_neg hzero]
    simp only
    rw [show min (sub64 25 (1 + 8)) 16 % 2 ^ 32 = 16 by decide]
    rcases h.searched hkey with ⟨i, hi, hsearch, hfound⟩ | ⟨i, hsearch, hplace⟩
    · refine .inl ⟨l[i], List.getElem_mem hi, hfound, i, ?_⟩
      rw [hsearch, ok_bind]
      simp only [if_pos trivial, h.slice_oid hi]
    · refine .inr ⟨i, ?_, hplace⟩
      rw [hsearch, ok_bind]
      simp

/-! ### A new entry -/

/-- The page with an entry more, for which the entries after it are moved. -/
theorem putEntry_eq {header before after new rest : Bytes} {count position oid : ℕ}
    (hheader : header.length = staticSize) (hkey : key.length = 16)
    (hbefore : before.length = position * 25)
    (hafter : after.length = (count - position) * 25) (hnew : new.length = 25) :
    putEntry (header ++ (before ++ after) ++ (new ++ rest)) 25 16 count position key oid =
      header ++ (before ++ Entry.bytes ⟨key, oid⟩ ++ after) ++ rest := by
  have hoff : entryOffset 25 position = (header ++ before).length := by
    rw [List.length_append, entryOffset, hheader, hbefore]
  have hpage : header ++ (before ++ after) ++ (new ++ rest) =
      (header ++ before) ++ (after ++ new) ++ rest := by simp only [List.append_assoc]
  -- the piece the entry is written over, whatever it holds
  obtain ⟨free, moved, hsplit, hfree, hmoved⟩ : ∃ free moved : Bytes,
      after ++ new = free ++ moved ∧ free.length = 25 ∧ moved.length = after.length := by
    refine ⟨(after ++ new).take 25, (after ++ new).drop 25, (List.take_append_drop _ _).symm, ?_, ?_⟩
    · rw [List.length_take, List.length_append]
      omega
    · rw [List.length_drop, List.length_append]
      omega
  have hmove : (if 0 < count - position then
      ((header ++ before) ++ (after ++ new) ++ rest).overwrite (entryOffset 25 (position + 1))
        (((header ++ before) ++ (after ++ new) ++ rest).slice (entryOffset 25 position)
          ((count - position) * 25))
      else (header ++ before) ++ (after ++ new) ++ rest) =
      (header ++ before) ++ free ++ (after ++ rest) := by
    have hslice : ((header ++ before) ++ (after ++ new) ++ rest).slice (entryOffset 25 position)
        ((count - position) * 25) = after := by
      rw [hoff, List.append_assoc, List.slice_append_right _ _ (Nat.le_refl _), Nat.sub_self,
        List.append_assoc, ← hafter, List.slice_append_left _ (by omega), List.slice,
        List.drop_zero, List.take_length]
    have hnext : entryOffset 25 (position + 1) = (header ++ before ++ free).length := by
      rw [List.length_append, ← hoff, hfree, entryOffset, entryOffset]
      omega
    have hwrite : ((header ++ before) ++ (after ++ new) ++ rest).overwrite
        (entryOffset 25 (position + 1)) after = (header ++ before) ++ free ++ (after ++ rest) := by
      rw [hsplit, ← List.append_assoc (header ++ before) free moved, hnext,
        List.overwrite_append_middle rest hmoved.symm]
      simp only [List.append_assoc]
    by_cases hpos : 0 < count - position
    · rw [if_pos hpos, hslice, hwrite]
    · rw [if_neg hpos, ← hwrite]
      have hnil : after = [] := List.eq_nil_of_length_eq_zero (by rw [hafter]; omega)
      rw [hnil, List.overwrite_nil]
  rw [putEntry, hpage, hmove, hkey, if_pos (Nat.le_refl 16), if_neg (Nat.lt_irrefl 16), Nat.min_self,
    List.take_of_length_le (Nat.le_of_eq hkey)]
  have hlen : ((header ++ before) ++ free ++ (after ++ rest)).length =
      entryOffset 25 position + 25 + (after ++ rest).length := by
    rw [List.length_append, List.length_append, hoff, hfree]
  rw [show entryOffset 25 position + 1 = entryOffset 25 position + [flagComplete].length from rfl,
    List.overwrite_overwrite_adjacent _ _ _ _ (by rw [hlen, List.length_singleton]; omega),
    show entryOffset 25 position + [flagComplete].length + 8 =
      entryOffset 25 position + ([flagComplete] ++ toBytes 8 oid).length by
        rw [List.length_append, length_toBytes]; omega,
    List.overwrite_overwrite_adjacent _ _ _ _ (by
      rw [hlen, List.length_append, length_toBytes, List.length_singleton]; omega), hoff,
    List.overwrite_append_middle (after ++ rest) (by simp [hkey, hfree])]
  simp only [Entry.bytes, List.append_assoc]

/-- The header has the count, and nothing else of the page changes with it. -/
theorem setCount_append {header : Bytes} (rest : Bytes) (count : ℕ)
    (h : header.length = staticSize) :
    setCount (header ++ rest) count = setCount header count ++ rest :=
  List.overwrite_append_left rest (by rw [h, length_toBytes]; decide)

theorem length_setCount {header : Bytes} (count : ℕ) (h : header.length = staticSize) :
    (setCount header count).length = staticSize := by
  rw [setCount, List.length_overwrite_of_le (by rw [h, length_toBytes]; decide), h]

theorem getCount_setCount {page : Bytes} {count : ℕ} (h : 16 ≤ page.length)
    (hcount : count < 2 ^ 32) : getCount (setCount page count) = count := by
  rw [getCount, setCount, List.slice_overwrite_start (by omega) (by simp),
    List.take_of_length_le (by simp), ofBytes_toBytes]
  exact Nat.mod_eq_of_lt hcount

theorem getSize_setCount {page : Bytes} {count : ℕ} (h : 16 ≤ page.length) :
    getSize (setCount page count) = getSize page := by
  rw [getSize, setCount, List.slice_overwrite_of_disjoint (by rw [length_toBytes]; omega)
    (.inr (by rw [length_toBytes])), getSize]

/-- The entry goes between the lower and the higher ones. -/
theorem Holds.sorted_insert (h : Holds pageSize page l) {position oid : ℕ}
    (hplace : Place l key position) :
    (l.take position ++ ⟨key, oid⟩ :: l.drop position).Pairwise
      fun e e' : Entry => keyValue e.key < keyValue e'.key := by
  have hbefore : ∀ e ∈ l.take position, keyValue e.key < keyValue key := by
    intro e he
    obtain ⟨i, hi, rfl⟩ := List.getElem_of_mem he
    rw [List.length_take] at hi
    rw [List.getElem_take]
    exact hplace.before i (by omega) (by omega)
  have hafter : ∀ e ∈ l.drop position, keyValue key < keyValue e.key := by
    intro e he
    obtain ⟨i, hi, rfl⟩ := List.getElem_of_mem he
    rw [List.length_drop] at hi
    rw [List.getElem_drop]
    exact hplace.after (position + i) (by omega) (by omega)
  refine List.pairwise_append.2 ⟨h.sorted.sublist (List.take_sublist _ _),
    List.pairwise_cons.2 ⟨hafter, h.sorted.sublist (List.drop_sublist _ _)⟩, fun e he e' he' => ?_⟩
  rcases List.mem_cons.1 he' with rfl | he'
  · exact hbefore e he
  · exact (hbefore e he).trans (hafter e' he')

/-- The page after an entry was put at its place. -/
theorem Holds.put (h : Holds pageSize page l) {position oid : ℕ} (hplace : Place l key position)
    (hvalid : Entry.Valid ⟨key, oid⟩) (hroom : staticSize + (l.length + 1) * 25 ≤ pageSize)
    (hsize : pageSize < 2 ^ 32) :
    Holds pageSize
      (setCount (putEntry page 25 16 l.length position key oid) (l.length + 1))
      (l.take position ++ ⟨key, oid⟩ :: l.drop position) := by
  obtain ⟨header, rest, hheader, hpage⟩ := h.entries
  have hle := hplace.le
  have hpart : ∀ l' : List Entry, (∀ e ∈ l', e ∈ l) →
      ((l'.map Entry.bytes).flatten).length = l'.length * 25 := by
    intro l' hl'
    rw [List.length_flatten_of_length (w := 25), List.length_map]
    intro b hb
    obtain ⟨e, he, rfl⟩ := List.mem_map.1 hb
    exact (h.valid e (hl' e he)).length_bytes
  have hbefore := hpart (l.take position) fun e he => List.mem_of_mem_take he
  have hafter := hpart (l.drop position) fun e he => List.mem_of_mem_drop he
  have hall := hpart l fun e he => he
  rw [List.length_take, Nat.min_eq_left hle] at hbefore
  rw [List.length_drop] at hafter
  have hflat : (l.map Entry.bytes).flatten =
      ((l.take position).map Entry.bytes).flatten ++ ((l.drop position).map Entry.bytes).flatten := by
    rw [← List.flatten_append, ← List.map_append, List.take_append_drop]
  have hlength := congrArg List.length hpage
  rw [h.length, List.length_append, List.length_append, hheader, hall] at hlength
  obtain ⟨new, rest, rfl, hnew⟩ : ∃ new rest' : Bytes, rest = new ++ rest' ∧ new.length = 25 :=
    ⟨rest.take 25, rest.drop 25, (List.take_append_drop _ _).symm,
      by rw [List.length_take]; omega⟩
  rw [List.length_append, hnew] at hlength
  have hput : putEntry page 25 16 l.length position key oid =
      header ++ (((l.take position).map Entry.bytes).flatten ++ Entry.bytes ⟨key, oid⟩ ++
        ((l.drop position).map Entry.bytes).flatten) ++ rest := by
    rw [hpage, hflat]
    exact putEntry_eq hheader hvalid.key hbefore hafter hnew
  have hlen : (putEntry page 25 16 l.length position key oid).length = pageSize := by
    rw [hput, List.length_append, List.length_append, List.length_append, List.length_append,
      hheader, hbefore, hafter, hvalid.length_bytes]
    omega
  have hstatic : staticSize = 32 := rfl
  refine ⟨?_, ?_, ?_, ⟨setCount header (l.length + 1), rest, length_setCount _ hheader, ?_⟩,
    ?_, h.sorted_insert hplace⟩
  · rw [setCount, List.length_overwrite_of_le (by rw [length_toBytes]; omega), hlen]
  · rw [getCount_setCount (by omega) (by omega), List.length_append, List.length_cons,
      List.length_take, List.length_drop]
    omega
  · have hsize := h.size
    rw [hpage, getSize, List.append_assoc, List.slice_append_left _ (by omega)] at hsize
    rw [getSize_setCount (by omega), hput, getSize, List.append_assoc,
      List.slice_append_left _ (by omega), hsize]
  · rw [hput, List.append_assoc, setCount_append _ _ hheader]
    simp only [List.map_append, List.map_cons, List.flatten_append, List.flatten_cons,
      List.append_assoc]
  · intro e he
    rcases List.mem_append.1 he with he | he
    · exact h.valid e (List.mem_of_mem_take he)
    · rcases List.mem_cons.1 he with rfl | he
      · exact hvalid
      · exact h.valid e (List.mem_of_mem_drop he)

/-- The position that is given is the place, or none is. -/
def Given (l : List Entry) (key : Bytes) (given : Option ℕ) : Prop :=
  ∀ position ∈ given, Place l key position

theorem Holds.closePosition (h : Holds pageSize page l) (hkey : key.length = 16)
    (hnew : ∀ e ∈ l, e.key ≠ key) {given : Option ℕ} (hgiven : Given l key given) :
    ∃ position, closePosition page 25 16 l.length key given = .ok position ∧
      Place l key position := by
  cases given with
  | some position => exact ⟨position, rfl, hgiven position rfl⟩
  | none =>
    rw [EntryIndex.closePosition]
    rcases h.searched hkey with ⟨i, hi, -, hfound⟩ | ⟨i, hsearch, hplace⟩
    · exact absurd hfound (hnew _ (List.getElem_mem hi))
    · rw [hsearch]
      exact ⟨i, rfl, hplace⟩

/-- **An entry added at its place leaves the page in order.** -/
theorem Holds.addEntry (h : Holds pageSize page l) {oid : ℕ} (hvalid : Entry.Valid ⟨key, oid⟩)
    (hnew : ∀ e ∈ l, e.key ≠ key) {given : Option ℕ} (hgiven : Given l key given)
    (hroom : l.length < (pageSize - staticSize) / 25) (hsize : pageSize < 2 ^ 32) :
    ∃ page' before after, l = before ++ after ∧
      EntryIndex.addEntry pageSize page key oid given = .ok page' ∧
      Holds pageSize page' (before ++ ⟨key, oid⟩ :: after) := by
  obtain ⟨position, hclose, hplace⟩ := h.closePosition hvalid.key hnew hgiven
  refine ⟨_, l.take position, l.drop position, (List.take_append_drop _ _).symm, ?_,
    h.put hplace hvalid ?_ hsize⟩
  · have hle := hplace.le
    rw [EntryIndex.addEntry, h.count, h.size]
    simp only
    rw [if_neg (by decide), show sub64 25 (1 + 8) % 2 ^ 32 = 16 by decide, hvalid.key, Nat.min_self,
      hclose, ok_bind, if_neg (by omega), if_neg (by omega)]
  · have hmul := (Nat.le_div_iff_mul_le (by decide)).1 (Nat.succ_le_of_lt hroom)
    omega

/-- An exception leaves the page as it is. -/
theorem addEntry_error {pageSize oid : ℕ} {page page' key : Bytes} {given : Option ℕ} {e : Failure}
    (h : EntryIndex.addEntry pageSize page key oid given = .error (e, page')) : page' = page := by
  rw [EntryIndex.addEntry] at h
  simp only [throw] at h
  split at h
  · cases h
    rfl
  · cases hclose : EntryIndex.closePosition page (getSize page)
      (min (sub64 (getSize page) (1 + 8) % 2 ^ 32) key.length) (getCount page) key given with
    | error x =>
      rw [hclose, error_bind] at h
      cases h
      cases given with
      | some position => cases hclose
      | none =>
        rw [EntryIndex.closePosition] at hclose
        split at hclose
        all_goals cases hclose
        all_goals rfl
    | ok position =>
      rw [hclose, ok_bind] at h
      split at h
      · split at h
        all_goals cases h
        all_goals rfl
      · split at h
        · cases h
          rfl
        · cases h

/-! ### A new page -/

/-- A new `EIDX` block, whose keys have 16 bytes, has no entry. -/
theorem holds_new (hroom : staticSize ≤ pageSize) :
    Holds pageSize
      (setKeySize (DbType.entryIndex.magic ++ List.replicate (pageSize - 4) 0) 16) [] := by
  have hmagic : DbType.entryIndex.magic.length = 4 := rfl
  have hstatic : staticSize = 32 := rfl
  have hlen : (DbType.entryIndex.magic ++ List.replicate (pageSize - 4) (0 : UInt8)).length =
      pageSize := by
    rw [List.length_append, hmagic, List.length_replicate]
    omega
  generalize hp : DbType.entryIndex.magic ++ List.replicate (pageSize - 4) (0 : UInt8) = zeroes
  rw [hp] at hlen
  have hset : (setKeySize zeroes 16).length = pageSize := by
    rw [setKeySize, setSize, List.length_overwrite_of_le (by rw [length_toBytes]; omega), hlen]
  refine ⟨hset, ?_, ?_, ⟨(setKeySize zeroes 16).take staticSize,
    (setKeySize zeroes 16).drop staticSize, ?_, ?_⟩, by simp, List.Pairwise.nil⟩
  · rw [getCount, setKeySize, setSize, List.slice_overwrite_of_disjoint
      (by rw [length_toBytes]; omega) (.inl (by decide)), ← hp,
      List.slice_append_right _ _ (by rw [hmagic]; decide), List.slice, List.drop_replicate,
      List.take_replicate, ofBytes_replicate_zero, List.length_nil]
  · rw [getSize, setKeySize, setSize, List.slice_overwrite_start (by omega) (by simp),
      List.take_of_length_le (by simp), ofBytes_toBytes]
    decide
  · rw [List.length_take, hset]
    omega
  · rw [List.map_nil, List.flatten_nil, List.append_nil, List.take_append_drop]

end EntryIndex

/-! ### The positions of the primary index -/

/-- What the table promises: its calls return, its blocks are new, `log2()` rounds down, a page holds
the structure that starts it, and an offset in a page is a number of 32 bits. -/
structure PrimaryPages.Works (p : PrimaryPages) (pages : ℕ → ℕ) : Prop where
  getBlock : p.getBlock = .ok ()
  allocate : ∀ i, p.allocateNewBlock i = .ok (pages i)
  injective : Function.Injective pages
  valid : ∀ i, pages i ≠ nullFileAddr
  log2 : ∀ n, n ≠ 0 → p.log2 n = Nat.log2 n
  page : EntryIndex.staticSize ≤ p.pageSize
  size : p.pageSize < 2 ^ 32

namespace PrimaryPages

variable {p : PrimaryPages} {pages : ℕ → ℕ}

theorem Works.indexBits (hp : p.Works pages) (hpos : p.pageSize ≠ 0) :
    p.indexBits = Nat.log2 p.pageSize - 3 := by
  have hlog : Nat.log2 p.pageSize < 32 := (Nat.log2_lt hpos).2 hp.size
  rw [PrimaryPages.indexBits, hp.log2 _ hpos, hp.log2 8 (by decide), show Nat.log2 8 = 3 by decide]
  omega

/-- The low bits that a mask leaves. -/
theorem mask_eq : ∀ size < 32, 2 ^ 32 - 1 - ((2 ^ 32 - 1) <<< size) % 2 ^ 32 = 2 ^ size - 1 := by
  decide

/-- A key has a position, and a reference there is in the page. -/
theorem Works.keyToIndex (hp : p.Works pages) (key : Bytes) :
    ∃ k, p.keyToIndex key = .ok k ∧ k * 8 + 8 ≤ p.pageSize := by
  have hroom : 8 ≤ p.pageSize := le_trans (by decide) hp.page
  have hpos : p.pageSize ≠ 0 := by omega
  have hlog : Nat.log2 p.pageSize < 32 := (Nat.log2_lt hpos).2 hp.size
  have hlog' : 3 ≤ Nat.log2 p.pageSize := (Nat.le_log2 hpos).2 hroom
  have hpow : 2 ^ (Nat.log2 p.pageSize - 3) * 8 ≤ p.pageSize := by
    calc 2 ^ (Nat.log2 p.pageSize - 3) * 2 ^ 3
        = 2 ^ Nat.log2 p.pageSize := by rw [← Nat.pow_add, Nat.sub_add_cancel hlog']
      _ ≤ p.pageSize := Nat.log2_self_le hpos
  rw [PrimaryPages.keyToIndex, hp.indexBits hpos]
  simp only
  rw [if_neg (by omega), mask_eq _ (by omega)]
  refine ⟨_, rfl, ?_⟩
  have hle := Nat.and_le_right (n := keyBits key
    (min ((Nat.log2 p.pageSize - 3 + 8 - 1) / 8) key.length) key.length 0 0)
    (m := 2 ^ (Nat.log2 p.pageSize - 3) - 1)
  have hone : 0 < 2 ^ (Nat.log2 p.pageSize - 3) := Nat.pow_pos (by decide)
  omega

end PrimaryPages

namespace PrimaryTable

open EntryIndex (Sorted Entry Holds Place Given staticSize)

variable {p : PrimaryPages} {pages : ℕ → ℕ} {t : PrimaryTable} {ref : ℕ → ℕ} {ents : ℕ → List Entry}
  {key : Bytes} {k : ℕ}

/-- The reference at a position of the `PIDX` block with those bytes. -/
def slot (t : PrimaryTable) (page : Bytes) (k : ℕ) : ℕ :=
  if k = 0 then t.primaryIndexReferenceZero else ofBytes (page.slice (k * 8) 8)

/-- The block is one that was allocated. -/
def Used (pages : ℕ → ℕ) (t : PrimaryTable) (offset : ℕ) : Prop := ∃ i < t.allocated, pages i = offset

/-- The blocks of the index: each position leads to a block of its own with its entries. -/
structure Index (p : PrimaryPages) (pages : ℕ → ℕ) (t : PrimaryTable) (ref : ℕ → ℕ)
    (ents : ℕ → List Entry) : Prop where
  new : t.primaryIndexBlock = nullFileAddr →
    t.allocated = 0 ∧ t.primaryIndexReferenceZero = nullFileAddr ∧ ∀ k, ref k = nullFileAddr
  pidx : t.primaryIndexBlock ≠ nullFileAddr → Used pages t t.primaryIndexBlock ∧
    ∃ page, t.blocks t.primaryIndexBlock = some (.pidx page) ∧ page.length = p.pageSize ∧
      ∀ k, k * 8 + 8 ≤ p.pageSize → t.slot page k = ref k
  empty : ∀ k, ref k = nullFileAddr → ents k = []
  eidx : ∀ k, ref k ≠ nullFileAddr → Used pages t (ref k) ∧
    ∃ page, t.blocks (ref k) = some (.eidx page) ∧ Holds p.pageSize page (ents k)
  injective : ∀ k k', ref k ≠ nullFileAddr → ref k = ref k' → k = k'
  only : ∀ offset page, t.blocks offset = some (.eidx page) →
    offset ≠ nullFileAddr ∧ ∃ k, ref k = offset

theorem index_empty (p : PrimaryPages) (pages : ℕ → ℕ) :
    Index p pages {} (fun _ => nullFileAddr) fun _ => [] where
  new _ := ⟨rfl, rfl, fun _ => rfl⟩
  pidx h := absurd rfl h
  empty _ _ := rfl
  eidx _ h := absurd rfl h
  injective _ _ h := absurd rfl h
  only _ _ h := nomatch h

/-! ### Blocks -/

theorem getBlock_eq {offset : ℕ} {b : PrimaryBlock} (hget : p.getBlock = .ok ())
    (h : t.blocks offset = some b) : t.getBlock p offset = .ok b := by
  rw [getBlock, hget, ok_bind, h]

@[simp] theorem store_blocks_self (t : PrimaryTable) (offset : ℕ) (b : PrimaryBlock) :
    (t.store offset b).blocks offset = some b := Function.update_self ..

theorem store_blocks_of_ne (t : PrimaryTable) {offset x : ℕ} (b : PrimaryBlock) (h : x ≠ offset) :
    (t.store offset b).blocks x = t.blocks x := Function.update_of_ne h ..

/-- A block that is allocated is not one there was. -/
theorem Used.ne (hp : p.Works pages) {offset : ℕ} (h : Used pages t offset) :
    offset ≠ pages t.allocated := by
  obtain ⟨i, hi, rfl⟩ := h
  intro heq
  exact Nat.ne_of_lt hi (hp.injective heq)

theorem getTopIndex_eq (hp : p.Works pages) (hkey : p.keyToIndex key = .ok k) (page : Bytes) :
    t.getTopIndex p page key = .ok (t.slot page k) := by
  rw [getTopIndex, hkey, ok_bind, slot]
  by_cases hk : k = 0
  · rw [if_pos hk, if_pos hk, hp.getBlock, ok_bind]
  · rw [if_neg hk, if_neg hk]

/-- The table after the reference at a position is set. -/
theorem setTopIndex_eq (hp : p.Works pages) (hkey : p.keyToIndex key = .ok k) {page : Bytes}
    (hpage : page.length = p.pageSize) (hfits : k * 8 + 8 ≤ p.pageSize) {pidx offset : ℕ}
    (hoffset : offset < 2 ^ 64) (hblock : t.blocks pidx = some (.pidx page)) :
    ∃ t' page', t.setTopIndex p pidx page key offset = .ok t' ∧
      t'.primaryIndexBlock = t.primaryIndexBlock ∧ t'.allocated = t.allocated ∧
      (∀ x, x ≠ pidx → t'.blocks x = t.blocks x) ∧
      t'.blocks pidx = some (.pidx page') ∧ page'.length = p.pageSize ∧
      ∀ k', k' * 8 + 8 ≤ p.pageSize →
        t'.slot page' k' = if k' = k then offset else t.slot page k' := by
  rw [setTopIndex, hkey, ok_bind]
  by_cases hk : k = 0
  · subst hk
    rw [if_pos rfl, hp.getBlock, ok_bind]
    refine ⟨_, page, rfl, rfl, rfl, fun _ _ => rfl, hblock, hpage, fun k' _ => ?_⟩
    by_cases hk' : k' = 0
    · rw [if_pos hk', slot, if_pos hk']
    · rw [if_neg hk', slot, slot, if_neg hk', if_neg hk']
  · rw [if_neg hk]
    have hlen : k * 8 + (toBytes 8 offset).length ≤ page.length := by
      rw [length_toBytes, hpage]
      exact hfits
    refine ⟨_, _, rfl, rfl, rfl, fun x hx => store_blocks_of_ne _ _ hx, store_blocks_self .., ?_,
      fun k' hk' => ?_⟩
    · rw [List.length_overwrite_of_le hlen, hpage]
    · by_cases heq : k' = k
      · subst heq
        rw [if_pos rfl, slot, if_neg hk, List.slice_overwrite_start (by omega) (by simp),
          List.take_of_length_le (by simp), ofBytes_toBytes]
        exact Nat.mod_eq_of_lt hoffset
      · rw [if_neg heq, slot, slot]
        by_cases hzero : k' = 0
        · rw [if_pos hzero, if_pos hzero]
          rfl
        · rw [if_neg hzero, if_neg hzero, List.slice_overwrite_of_disjoint hlen]
          rw [length_toBytes]
          omega

/-! ### Lookups -/

/-- What a lookup finds of a key whose position is `k`. -/
def Found (t : PrimaryTable) (p : PrimaryPages) (ref : ℕ → ℕ) (ents : ℕ → List Entry) (key : Bytes)
    (k : ℕ) : Prop :=
  (∃ e ∈ ents k, e.key = key ∧ ∃ state, t.readPrimary p key = .ok (e.oid, state)) ∨
    (∀ e ∈ ents k, e.key ≠ key) ∧ ∃ state, t.readPrimary p key = .ok (nullFileAddr, state) ∧
      (state.entryIndex = none ∧ ref k = nullFileAddr ∨
        state.entryIndex = some (ref k) ∧ ref k ≠ nullFileAddr ∧
          Place (ents k) key state.entryIndexClosePosition)

theorem Index.readPrimary (hp : p.Works pages) (h : Index p pages t ref ents)
    (hlen : key.length = 16) (hkey : p.keyToIndex key = .ok k) (hfits : k * 8 + 8 ≤ p.pageSize) :
    Found t p ref ents key k := by
  have habsent : ref k = nullFileAddr → t.readPrimary p key = .ok (nullFileAddr, {}) →
      Found t p ref ents key k := fun href hread => by
    refine .inr ⟨fun e he => ?_, {}, hread, .inl ⟨rfl, href⟩⟩
    rw [h.empty k href] at he
    exact absurd he List.not_mem_nil
  by_cases hnew : t.primaryIndexBlock = nullFileAddr
  · refine habsent ((h.new hnew).2.2 k) ?_
    rw [PrimaryTable.readPrimary, getPrimaryIndexBlock, hp.getBlock, ok_bind, if_pos hnew]
    rfl
  obtain ⟨-, page, hblock, -, hslot⟩ := h.pidx hnew
  have hpidx : t.getPrimaryIndexBlock p false = .ok (t, some (t.primaryIndexBlock, page)) := by
    rw [getPrimaryIndexBlock, hp.getBlock, ok_bind, if_neg hnew, getBlock_eq hp.getBlock hblock,
      ok_bind]
  have htop : t.getTopIndex p page key = .ok (ref k) := by
    rw [getTopIndex_eq hp hkey, hslot k hfits]
  by_cases href : ref k = nullFileAddr
  · refine habsent href ?_
    rw [PrimaryTable.readPrimary, hpidx, ok_bind]
    simp only
    rw [htop, ok_bind, if_pos href]
  obtain ⟨-, entries, heidx, hholds⟩ := h.eidx k href
  have hread : ∀ oid position, EntryIndex.findEntry entries key = .ok (oid, position) →
      t.readPrimary p key =
        .ok (oid, { entryIndex := some (ref k), entryIndexClosePosition := position }) := by
    intro oid position hfind
    rw [PrimaryTable.readPrimary, hpidx, ok_bind]
    simp only
    rw [htop, ok_bind, if_neg href, getBlock_eq hp.getBlock heidx, ok_bind]
    simp only
    rw [hfind, ok_bind]
  rcases hholds.findEntry hlen with ⟨e, he, hfound, position, hfind⟩ | ⟨position, hfind, hplace⟩
  · exact .inl ⟨e, he, hfound, _, hread _ position hfind⟩
  · exact .inr ⟨hplace.notMem, _, hread _ position hfind, .inr ⟨rfl, href, hplace⟩⟩

/-! ### Insertions -/

/-- The entry of a key, where there is a block for its position. -/
theorem Index.insert_entry (hp : p.Works pages) (h : Index p pages t ref ents)
    {offset oid : ℕ} {given : Option ℕ} {page : Bytes} (href : ref k ≠ nullFileAddr)
    (hoffset : ref k = offset) (hblock : t.blocks offset = some (.eidx page))
    (hvalid : Entry.Valid ⟨key, oid⟩) (hnew : ∀ e ∈ ents k, e.key ≠ key)
    (hgiven : Given (ents k) key given)
    (hroom : (ents k).length < (p.pageSize - staticSize) / 25) :
    ∃ page' before after, ents k = before ++ after ∧
      t.addEntry p offset page key oid given = .ok (t.store offset (.eidx page')) ∧
      Index p pages (t.store offset (.eidx page')) ref
        (Function.update ents k (before ++ ⟨key, oid⟩ :: after)) := by
  subst hoffset
  obtain ⟨-, page₀, hblock₀, hholds⟩ := h.eidx k href
  obtain rfl : page = page₀ := by
    rw [hblock] at hblock₀
    cases hblock₀
    rfl
  obtain ⟨page', before, after, hsplit, hadd, hholds'⟩ :=
    hholds.addEntry hvalid hnew hgiven hroom hp.size
  refine ⟨page', before, after, hsplit, by rw [PrimaryTable.addEntry, hadd], ?_⟩
  have hindex : t.primaryIndexBlock ≠ nullFileAddr := fun h₀ => href ((h.new h₀).2.2 k)
  obtain ⟨hused, pidx, hpidx, hlen, hslot⟩ := h.pidx hindex
  refine ⟨fun h₀ => absurd h₀ hindex, fun _ => ⟨hused, pidx, ?_, hlen, hslot⟩,
    fun k' href' => ?_, fun k' href' => ⟨(h.eidx k' href').1, ?_⟩, h.injective,
    fun x page₁ hx => ?_⟩
  · rw [store_blocks_of_ne]
    · exact hpidx
    · intro heq
      rw [← heq, PrimaryTable.store] at hblock
      rw [hpidx] at hblock
      cases hblock
  · have hne : k' ≠ k := by
      rintro rfl
      exact href href'
    rw [Function.update_of_ne hne]
    exact h.empty k' href'
  · by_cases hk : k' = k
    · subst hk
      exact ⟨page', store_blocks_self .., by rw [Function.update_self]; exact hholds'⟩
    · obtain ⟨-, page₁, hpage₁, hholds₁⟩ := h.eidx k' href'
      have hne : ref k' ≠ ref k := fun heq => hk (h.injective k' k href' heq)
      exact ⟨page₁, by rw [store_blocks_of_ne _ _ hne]; exact hpage₁,
        by rw [Function.update_of_ne hk]; exact hholds₁⟩
  · by_cases hxk : x = ref k
    · exact hxk ▸ ⟨href, k, rfl⟩
    · rw [store_blocks_of_ne _ _ hxk] at hx
      exact h.only x page₁ hx

/-- The `PIDX` block there is, or a new one. -/
theorem Index.getPrimaryIndexBlock (hp : p.Works pages)
    (h : Index p pages t ref ents) {n : ℕ} (hn : t.allocated ≤ n + 1) :
    ∃ t' page, t.getPrimaryIndexBlock p true = .ok (t', some (t'.primaryIndexBlock, page)) ∧
      t'.primaryIndexBlock ≠ nullFileAddr ∧ t'.allocated ≤ n + 1 ∧
      t'.blocks t'.primaryIndexBlock = some (.pidx page) ∧ Index p pages t' ref ents := by
  by_cases hnew : t.primaryIndexBlock = nullFileAddr
  · obtain ⟨halloc, hzero, href⟩ := h.new hnew
    have hne := hp.valid t.allocated
    have hroom : 4 ≤ p.pageSize := le_trans (by decide) hp.page
    refine ⟨{ t.store (pages t.allocated) (.pidx (DbType.primaryIndex.magic ++
          List.replicate (p.pageSize - 4) 0)) with
        primaryIndexBlock := pages t.allocated
        allocated := t.allocated + 1 }, _, ?_, hne, ?_, store_blocks_self .., ?_⟩
    · rw [PrimaryTable.getPrimaryIndexBlock, hp.getBlock, ok_bind, if_pos hnew, if_pos rfl, allocate,
        hp.allocate, ok_bind]
      rfl
    · simp only [halloc]
      omega
    · refine ⟨fun h₀ => absurd h₀ hne, fun _ => ⟨⟨t.allocated, Nat.lt_succ_self _, rfl⟩, _,
        store_blocks_self .., ?_, fun k' hk' => ?_⟩, h.empty, fun k' href' => absurd (href k') href',
        h.injective, fun x page hx => ?_⟩
      · rw [List.length_append, List.length_replicate,
          show DbType.primaryIndex.magic.length = 4 from rfl]
        omega
      · rw [href k', slot]
        by_cases hk : k' = 0
        · rw [if_pos hk]
          exact hzero
        · rw [if_neg hk, List.slice_append_right _ _
            (by rw [show DbType.primaryIndex.magic.length = 4 from rfl]; omega), List.slice,
            List.drop_replicate, List.take_replicate, ofBytes_replicate_zero]
          rfl
      · by_cases hxk : x = pages t.allocated
        · subst hxk
          rw [store_blocks_self] at hx
          cases hx
        · exact h.only x page (by rwa [store_blocks_of_ne _ _ hxk] at hx)
  · obtain ⟨hused, page, hblock, hlen, hslot⟩ := h.pidx hnew
    refine ⟨t, page, ?_, hnew, hn, hblock, h⟩
    rw [PrimaryTable.getPrimaryIndexBlock, hp.getBlock, ok_bind, if_neg hnew,
      getBlock_eq hp.getBlock hblock, ok_bind]

/-- The last part of `row_insert()`, where the position of the key has no block: a new block that
holds the entry, which the `PIDX` block then leads to. -/
def insertBlock (p : PrimaryPages) (t : PrimaryTable) (pidx : ℕ) (pidxPage key : Bytes) (oid : ℕ) :
    Except Failure PrimaryTable := do
  let (t, offset, page) ← t.allocate p .eidx .entryIndex
  let page := EntryIndex.setKeySize page 16
  let t ← (t.store offset (.eidx page)).addEntry p offset page key oid none
  t.setTopIndex p pidx pidxPage key offset

theorem Index.insertBlock (hp : p.Works pages) (h : Index p pages t ref ents) {oid : ℕ}
    {pidxPage : Bytes} (hindex : t.primaryIndexBlock ≠ nullFileAddr)
    (hblock : t.blocks t.primaryIndexBlock = some (.pidx pidxPage)) (href : ref k = nullFileAddr)
    (hkey : p.keyToIndex key = .ok k) (hfits : k * 8 + 8 ≤ p.pageSize)
    (hvalid : Entry.Valid ⟨key, oid⟩) (hroom : 0 < (p.pageSize - staticSize) / 25)
    (h64 : pages t.allocated < 2 ^ 64) :
    ∃ t', PrimaryTable.insertBlock p t t.primaryIndexBlock pidxPage key oid = .ok t' ∧
      t'.allocated = t.allocated + 1 ∧
      Index p pages t' (Function.update ref k (pages t.allocated))
        (Function.update ents k [⟨key, oid⟩]) := by
  obtain ⟨hused, page₀, hblock₀, hlen, hslot⟩ := h.pidx hindex
  obtain rfl : pidxPage = page₀ := by
    rw [hblock] at hblock₀
    cases hblock₀
    rfl
  have hne := hp.valid t.allocated
  have hold : ∀ {x}, Used pages t x → x ≠ pages t.allocated := fun hx => hx.ne hp
  obtain ⟨page', before, after, hsplit, hadd, hholds⟩ :=
    (EntryIndex.holds_new hp.page).addEntry hvalid (fun e he => absurd he List.not_mem_nil)
      (show Given [] key none from fun _ hx => nomatch hx) hroom hp.size
  obtain ⟨rfl, rfl⟩ := List.append_eq_nil_iff.1 hsplit.symm
  rw [List.nil_append] at hholds
  -- the table whose new block has the entry
  obtain ⟨t₁, ht₁⟩ : ∃ t₁, t₁ = ((({ t.store (pages t.allocated) (.eidx (DbType.entryIndex.magic ++
      List.replicate (p.pageSize - 4) 0)) with allocated := t.allocated + 1 } : PrimaryTable).store
      (pages t.allocated) (.eidx (EntryIndex.setKeySize (DbType.entryIndex.magic ++
        List.replicate (p.pageSize - 4) 0) 16))).store (pages t.allocated) (.eidx page')) := ⟨_, rfl⟩
  have hself : t₁.blocks (pages t.allocated) = some (.eidx page') := by
    rw [ht₁, store_blocks_self]
  have hother : ∀ x, x ≠ pages t.allocated → t₁.blocks x = t.blocks x := fun x hx => by
    rw [ht₁, store_blocks_of_ne _ _ hx, store_blocks_of_ne _ _ hx]
    exact store_blocks_of_ne _ _ hx
  have hblock₁ : t₁.blocks t.primaryIndexBlock = some (.pidx pidxPage) := by
    rw [hother _ (hold hused), hblock]
  obtain ⟨t', pidx', hset, hpib, halloc, hframe, hpidx', hlen', hslot'⟩ :=
    setTopIndex_eq hp hkey hlen hfits h64 hblock₁
  have hpib' : t'.primaryIndexBlock = t.primaryIndexBlock := by rw [hpib, ht₁]; rfl
  have halloc' : t'.allocated = t.allocated + 1 := by rw [halloc, ht₁]; rfl
  have hslot₁ : ∀ k', t₁.slot pidxPage k' = t.slot pidxPage k' := fun k' => by rw [ht₁]; rfl
  have hused' : ∀ {x}, Used pages t x → Used pages t' x := fun ⟨i, hi, hx⟩ =>
    ⟨i, by rw [halloc']; omega, hx⟩
  have hnew : ∀ {x}, x = pages t.allocated → x ≠ t.primaryIndexBlock := fun hx heq =>
    hold hused (heq.symm.trans hx)
  refine ⟨t', ?_, halloc', ?_⟩
  · rw [PrimaryTable.insertBlock, allocate, hp.allocate, ok_bind, ok_bind]
    simp only
    rw [PrimaryTable.addEntry, hadd]
    simp only
    rw [ok_bind, ← ht₁, hset]
  · refine ⟨fun h₀ => absurd h₀ (by rw [hpib']; exact hindex),
      fun _ => ⟨by rw [hpib']; exact hused' hused, pidx', by rw [hpib', hpidx'], hlen',
        fun k' hk' => ?_⟩, fun k' href' => ?_, fun k' href' => ?_, fun k₁ k₂ h₁ h₁₂ => ?_,
      fun x page hx => ?_⟩
    · rw [hslot' k' hk', hslot₁, Function.update_apply, hslot k' hk']
    · have hk : k' ≠ k := by
        rintro rfl
        rw [Function.update_self] at href'
        exact hne href'
      rw [Function.update_of_ne hk] at href' ⊢
      exact h.empty k' href'
    · by_cases hk : k' = k
      · subst hk
        rw [Function.update_self, Function.update_self]
        exact ⟨⟨t.allocated, by rw [halloc']; omega, rfl⟩, page',
          by rw [hframe _ (hnew rfl), hself], hholds⟩
      · rw [Function.update_of_ne hk] at href' ⊢
        rw [Function.update_of_ne hk]
        obtain ⟨hu, page, hpage, hheld⟩ := h.eidx k' href'
        refine ⟨hused' hu, page, ?_, hheld⟩
        have hpib₀ : ref k' ≠ t.primaryIndexBlock := by
          intro heq
          rw [heq, hblock] at hpage
          cases hpage
        rw [hframe _ hpib₀, hother _ (hold hu), hpage]
    · by_cases hk₁ : k₁ = k
      · by_cases hk₂ : k₂ = k
        · rw [hk₁, hk₂]
        · subst hk₁
          rw [Function.update_self, Function.update_of_ne hk₂] at h₁₂
          exact absurd h₁₂.symm (hold (h.eidx k₂ (h₁₂ ▸ hne)).1)
      · rw [Function.update_of_ne hk₁] at h₁ h₁₂
        by_cases hk₂ : k₂ = k
        · subst hk₂
          rw [Function.update_self] at h₁₂
          exact absurd h₁₂ (hold (h.eidx k₁ h₁).1)
        · rw [Function.update_of_ne hk₂] at h₁₂
          exact h.injective k₁ k₂ h₁ h₁₂
    · by_cases hxn : x = pages t.allocated
      · subst hxn
        exact ⟨hne, k, Function.update_self ..⟩
      · have hxp : x ≠ t.primaryIndexBlock := by
          rintro rfl
          rw [hpidx'] at hx
          cases hx
        rw [hframe _ hxp, hother _ hxn] at hx
        obtain ⟨hx₀, k', hk'⟩ := h.only x page hx
        have hk : k' ≠ k := by
          rintro rfl
          exact hx₀ (hk'.symm.trans href)
        exact ⟨hx₀, k', by rw [Function.update_of_ne hk]; exact hk'⟩

/-- **An insertion adds an entry at the position of its key.** -/
theorem Index.insert (hp : p.Works pages) (h : Index p pages t ref ents) {oid n : ℕ}
    (hkey : p.keyToIndex key = .ok k) (hfits : k * 8 + 8 ≤ p.pageSize)
    (hvalid : Entry.Valid ⟨key, oid⟩) (hnew : ∀ e ∈ ents k, e.key ≠ key)
    (hroom : (ents k).length < (p.pageSize - staticSize) / 25) (hn : t.allocated ≤ n + 1)
    (h64 : ∀ i ≤ n + 1, pages i < 2 ^ 64) :
    ∃ t' ref' before after, ents k = before ++ after ∧ t.insert p key oid = .ok t' ∧
      t'.allocated ≤ n + 2 ∧
      Index p pages t' ref' (Function.update ents k (before ++ ⟨key, oid⟩ :: after)) := by
  rcases h.readPrimary hp hvalid.key hkey hfits with ⟨e, he, heq, -⟩ | ⟨-, state, hread, hstate⟩
  · exact absurd heq (hnew e he)
  have hinsert : t.insert p key oid = t.rowInsert p key oid state := by
    rw [PrimaryTable.insert, hread, ok_bind]
    exact if_pos rfl
  rcases hstate with ⟨hnone, href⟩ | ⟨hsome, href, hplace⟩
  · obtain ⟨t₁, page, hpidx, hindex, halloc, hblock, h₁⟩ := h.getPrimaryIndexBlock hp hn
    obtain ⟨t', hrun, halloc', h'⟩ := h₁.insertBlock hp hindex hblock href hkey hfits hvalid
      (by omega) (h64 _ halloc)
    refine ⟨t', _, [], [], h.empty k href, ?_, by omega, h'⟩
    rw [hinsert, rowInsert, hnone]
    simp only
    rw [hpidx, ok_bind]
    exact hrun
  · obtain ⟨-, page, hblock, -⟩ := h.eidx k href
    obtain ⟨page', before, after, hsplit, hadd, h'⟩ := h.insert_entry hp href rfl hblock hvalid hnew
      (show Given (ents k) key (some state.entryIndexClosePosition) from fun _ hx => by
        cases hx
        exact hplace) hroom
    refine ⟨t.store (ref k) (.eidx page'), ref, before, after, hsplit, ?_, Nat.le_succ_of_le hn, h'⟩
    rw [hinsert, rowInsert, hsome]
    simp only
    rw [hblock]
    exact hadd

/-! ### Runs -/

/-- The entries are those of the pairs, at the positions of their keys. -/
structure Contents (p : PrimaryPages) (ents : ℕ → List Entry) (pairs : List (Bytes × ℕ)) :
    Prop where
  mem : ∀ k e, e ∈ ents k ↔ (e.key, e.oid) ∈ pairs ∧ p.keyToIndex e.key = .ok k
  count : ∀ k, (ents k).length = pairs.countP fun x => (p.keyToIndex x.1).toOption = some k

theorem Contents.insert {pairs : List (Bytes × ℕ)} {oid : ℕ} {before after : List Entry}
    (h : Contents p ents pairs) (hkey : p.keyToIndex key = .ok k)
    (hsplit : ents k = before ++ after) :
    Contents p (Function.update ents k (before ++ ⟨key, oid⟩ :: after)) ((key, oid) :: pairs) := by
  refine ⟨fun k' e => ?_, fun k' => ?_⟩
  · have hmem := h.mem k' e
    by_cases hk : k' = k
    · subst hk
      rw [hsplit] at hmem
      rw [Function.update_self, List.mem_append, List.mem_cons, List.mem_cons]
      rw [List.mem_append] at hmem
      constructor
      · rintro (he | rfl | he)
        · exact ⟨.inr (hmem.1 (.inl he)).1, (hmem.1 (.inl he)).2⟩
        · exact ⟨.inl rfl, hkey⟩
        · exact ⟨.inr (hmem.1 (.inr he)).1, (hmem.1 (.inr he)).2⟩
      · rintro ⟨he | he, hindex⟩
        · cases e
          cases he
          exact .inr (.inl rfl)
        · exact (hmem.2 ⟨he, hindex⟩).imp id .inr
    · rw [Function.update_of_ne hk, hmem, List.mem_cons]
      refine ⟨fun ⟨he, hindex⟩ => ⟨.inr he, hindex⟩, fun ⟨he, hindex⟩ => ⟨he.resolve_left ?_, hindex⟩⟩
      rintro heq
      cases heq
      rw [hkey] at hindex
      cases hindex
      exact hk rfl
  · have hcount := h.count k'
    have hoption : (p.keyToIndex key).toOption = some k := by rw [hkey]; rfl
    by_cases hk : k' = k
    · subst hk
      rw [hsplit, List.length_append] at hcount
      rw [Function.update_self, List.countP_cons_of_pos (by simpa using hoption), ← hcount,
        List.length_append, List.length_cons]
      omega
    · have hne : ¬ (p.keyToIndex key).toOption = some k' := by
        rw [hoption]
        exact fun heq => hk (Option.some.inj heq).symm
      rw [Function.update_of_ne hk, List.countP_cons_of_neg (by simpa using hne), hcount]

/-- Successive insertions. -/
def inserts (p : PrimaryPages) : PrimaryTable → List (Bytes × ℕ) → Except Failure PrimaryTable
  | t, [] => .ok t
  | t, (key, oid) :: pairs => do
    let t ← t.insert p key oid
    inserts p t pairs

/-- What can be inserted: different keys of 16 bytes with their identifiers, not more for a position
than its block has room for. -/
structure Insertable (p : PrimaryPages) (pairs : List (Bytes × ℕ)) : Prop where
  key : ∀ x ∈ pairs, x.1.length = 16
  oid : ∀ x ∈ pairs, x.2 ≠ nullFileAddr ∧ x.2 < 2 ^ 64
  distinct : pairs.Pairwise fun x y => x.1 ≠ y.1
  room : ∀ k, (pairs.countP fun x => (p.keyToIndex x.1).toOption = some k) ≤
    (p.pageSize - staticSize) / 25

/-- A run on a table that has the pairs of `done`. -/
theorem Index.inserts (hp : p.Works pages) :
    ∀ {pairs done : List (Bytes × ℕ)} {t : PrimaryTable} {ref : ℕ → ℕ} {ents : ℕ → List Entry},
      Index p pages t ref ents → Contents p ents done → t.allocated ≤ done.length + 1 →
      Insertable p (pairs.reverse ++ done) →
      (∀ i ≤ pairs.length + done.length, pages i < 2 ^ 64) →
      ∃ t' ref' ents', PrimaryTable.inserts p t pairs = .ok t' ∧ Index p pages t' ref' ents' ∧
        Contents p ents' (pairs.reverse ++ done)
  | [], done, t, ref, ents, h, hc, _, _, _ => ⟨t, ref, ents, rfl, h, hc⟩
  | (key, oid) :: pairs, done, t, ref, ents, h, hc, hn, hok, h64 => by
    rw [List.reverse_cons, List.append_assoc, List.singleton_append] at hok
    have hmem : (key, oid) ∈ pairs.reverse ++ (key, oid) :: done := by simp
    have hoid := hok.oid _ hmem
    have hvalid : Entry.Valid ⟨key, oid⟩ := ⟨hok.key _ hmem, hoid.1, hoid.2⟩
    have hroom : ∀ k, p.keyToIndex key = .ok k →
        done.countP (fun x => (p.keyToIndex x.1).toOption = some k) <
          (p.pageSize - staticSize) / 25 := fun k hk => by
      have hle := hok.room k
      have hoption : (p.keyToIndex key).toOption = some k := by rw [hk]; rfl
      rw [List.countP_append, List.countP_cons_of_pos (by simpa using hoption)] at hle
      omega
    obtain ⟨k, hk, hfits⟩ := hp.keyToIndex key
    have hnew : ∀ e ∈ ents k, e.key ≠ key := by
      rintro e he rfl
      have hdone := ((hc.mem k e).1 he).1
      have hpair := (List.pairwise_append.1 hok.distinct).2.1
      exact (List.pairwise_cons.1 hpair).1 _ hdone rfl
    obtain ⟨t₁, ref₁, before, after, hsplit, hinsert, hn₁, h₁⟩ := h.insert hp hk hfits hvalid hnew
      (by rw [hc.count k]; exact hroom k hk) hn (fun i hi => h64 i (by rw [List.length_cons]; omega))
    obtain ⟨t', ref', ents', hrun, h', hc'⟩ := Index.inserts hp h₁
      (hc.insert hk hsplit) (by rw [List.length_cons]; exact hn₁) hok
      (fun i hi => h64 i (by rw [List.length_cons] at hi ⊢; omega))
    refine ⟨t', ref', ents', ?_, h', ?_⟩
    · rw [PrimaryTable.inserts, hinsert, ok_bind, hrun]
    · rw [List.reverse_cons, List.append_assoc, List.singleton_append]
      exact hc'

/-- The index is a map: the insertions succeed, each key then leads to its identifier and every other
one to none, the entries of each block are sorted, and an `add_entry()` that throws leaves its block
unchanged. -/
def PrimaryMap (p : PrimaryPages) (pairs : List (Bytes × ℕ)) : Prop :=
  (∃ t, inserts p {} pairs = .ok t ∧
    (∀ x ∈ pairs, ∃ state, t.readPrimary p x.1 = .ok (x.2, state)) ∧
    (∀ key, key.length = 16 → (∀ x ∈ pairs, x.1 ≠ key) →
      ∃ state, t.readPrimary p key = .ok (nullFileAddr, state)) ∧
    ∀ offset page, t.blocks offset = some (.eidx page) → Sorted page) ∧
  ∀ page key oid position e page',
    EntryIndex.addEntry p.pageSize page key oid position = .error (e, page') → page' = page

theorem primaryMap_of_works (hp : p.Works pages) {pairs : List (Bytes × ℕ)}
    (hok : Insertable p pairs) (h64 : ∀ i ≤ pairs.length, pages i < 2 ^ 64) :
    PrimaryMap p pairs := by
  refine ⟨?_, fun page key oid position e page' h => EntryIndex.addEntry_error h⟩
  have hok' : Insertable p (pairs.reverse ++ []) := by
    rw [List.append_nil]
    exact ⟨fun x hx => hok.key x (List.mem_reverse.1 hx), fun x hx => hok.oid x (List.mem_reverse.1 hx),
      List.pairwise_reverse.2 (hok.distinct.imp fun h => h.symm),
      fun k => by rw [List.countP_reverse]; exact hok.room k⟩
  obtain ⟨t, ref, ents, hrun, h, hc⟩ := Index.inserts hp (index_empty p pages)
    ⟨fun k e => by simp, fun k => rfl⟩ (Nat.zero_le _) hok' h64
  rw [List.append_nil] at hc
  have hmem : ∀ {k : ℕ} {e : Entry}, e ∈ ents k →
      (e.key, e.oid) ∈ pairs ∧ p.keyToIndex e.key = .ok k := fun he => by
    have := (hc.mem _ _).1 he
    rwa [List.mem_reverse] at this
  refine ⟨t, hrun, fun x hx => ?_, fun key hlen hnew => ?_, fun offset page hpage => ?_⟩
  · obtain ⟨k, hk, hfits⟩ := hp.keyToIndex x.1
    have hent : (⟨x.1, x.2⟩ : Entry) ∈ ents k :=
      (hc.mem k ⟨x.1, x.2⟩).2 ⟨List.mem_reverse.2 hx, hk⟩
    rcases h.readPrimary hp (hok.key x hx) hk hfits with ⟨e, he, hkey, state, hread⟩ | ⟨hnew, -⟩
    · have hsame : (e.key, e.oid) = x := by
        by_contra hne
        have : Std.Symm fun x y : Bytes × ℕ => x.1 ≠ y.1 := ⟨fun _ _ h => h.symm⟩
        exact hok.distinct.forall (hmem he).1 hx hne hkey
      exact ⟨state, by rw [hread, ← hsame]⟩
    · exact absurd rfl (hnew _ hent)
  · obtain ⟨k, hk, hfits⟩ := hp.keyToIndex key
    rcases h.readPrimary hp hlen hk hfits with ⟨e, he, hkey, -⟩ | ⟨-, state, hread, -⟩
    · exact absurd hkey (hnew _ (hmem he).1)
    · exact ⟨state, hread⟩
  · obtain ⟨hne, k, rfl⟩ := h.only offset page hpage
    obtain ⟨-, page', hpage', hholds⟩ := h.eidx k hne
    rw [hpage] at hpage'
    cases hpage'
    exact hholds.isSorted

/-- A table whose calls on blocks have these outcomes, and whose new blocks are at `pages`. -/
def pagesOf (calls : BlockCalls) (pageSize : ℕ) (log2 pages : ℕ → ℕ) : PrimaryPages where
  pageSize := pageSize
  log2 := log2
  getBlock := calls.getBlock
  allocateNewBlock i := do
    calls.getBlock
    calls.setStructureVersion
    .ok (pages i)

/-- A lookup accesses the header, and the first insertion makes a block. -/
theorem calls_of_primaryMap {calls : BlockCalls} {pageSize : ℕ} {log2 : ℕ → ℕ}
    {pairs : List (Bytes × ℕ)} (h : PrimaryMap (pagesOf calls pageSize log2 pages) pairs) :
    calls.getBlock = .ok () ∧ (pairs = [] ∨ calls.setStructureVersion = .ok ()) := by
  obtain ⟨⟨t, hrun, hfound, hnone, -⟩, -⟩ := h
  have hread : ∃ key x, t.readPrimary (pagesOf calls pageSize log2 pages) key = .ok x := by
    cases pairs with
    | nil =>
      obtain ⟨state, hread⟩ := hnone (List.replicate 16 0) (by simp) (by simp)
      exact ⟨_, _, hread⟩
    | cons x pairs =>
      obtain ⟨state, hread⟩ := hfound x List.mem_cons_self
      exact ⟨_, _, hread⟩
  obtain ⟨key, x, hread⟩ := hread
  rw [readPrimary] at hread
  obtain ⟨y, hpidx, -⟩ := bind_eq_ok.1 hread
  rw [getPrimaryIndexBlock] at hpidx
  obtain ⟨⟨⟩, hget, -⟩ := bind_eq_ok.1 hpidx
  have hget' : calls.getBlock = .ok () := hget
  refine ⟨hget', ?_⟩
  cases pairs with
  | nil => exact .inl rfl
  | cons x pairs =>
    refine .inr ?_
    rw [inserts] at hrun
    obtain ⟨t₁, hinsert, -⟩ := bind_eq_ok.1 hrun
    rw [insert, readPrimary, getPrimaryIndexBlock, hget, ok_bind, if_pos rfl, if_neg (by decide),
      ok_bind] at hinsert
    simp only [ok_bind] at hinsert
    rw [if_pos trivial, rowInsert] at hinsert
    simp only at hinsert
    obtain ⟨y, hcreate, -⟩ := bind_eq_ok.1 hinsert
    rw [getPrimaryIndexBlock, hget, ok_bind, if_pos rfl, if_pos rfl] at hcreate
    obtain ⟨z, halloc, -⟩ := bind_eq_ok.1 hcreate
    rw [allocate] at halloc
    obtain ⟨offset, hnew, -⟩ := bind_eq_ok.1 halloc
    rw [pagesOf] at hnew
    obtain ⟨⟨⟩, -, hnew⟩ := bind_eq_ok.1 hnew
    obtain ⟨⟨⟩, hversion, -⟩ := bind_eq_ok.1 hnew
    exact hversion

/-- **The primary index is a map** exactly when the blocks of the table can be accessed and, where
something is inserted, created. -/
theorem primaryMap_iff (calls : BlockCalls) {pageSize : ℕ} {log2 : ℕ → ℕ}
    (hlog : ∀ n, n ≠ 0 → log2 n = Nat.log2 n) (hpage : EntryIndex.staticSize ≤ pageSize)
    (hsize : pageSize < 2 ^ 32) (hinj : Function.Injective pages)
    (hvalid : ∀ i, pages i ≠ nullFileAddr) (pairs : List (Bytes × ℕ))
    (h64 : ∀ i ≤ pairs.length, pages i < 2 ^ 64)
    (hok : Insertable (pagesOf calls pageSize log2 pages) pairs) :
    PrimaryMap (pagesOf calls pageSize log2 pages) pairs ↔
      calls.getBlock = .ok () ∧ (pairs = [] ∨ calls.setStructureVersion = .ok ()) := by
  constructor
  · exact calls_of_primaryMap
  · rintro ⟨hget, rfl | hversion⟩
    · refine ⟨⟨{}, rfl, fun x hx => absurd hx List.not_mem_nil, fun key _ _ => ⟨{}, ?_⟩,
        fun offset page hpage => nomatch hpage⟩,
        fun page key oid position e page' h => EntryIndex.addEntry_error h⟩
      rw [readPrimary, getPrimaryIndexBlock, show (pagesOf calls pageSize log2 pages).getBlock = .ok ()
        from hget]
      rfl
    · refine primaryMap_of_works ⟨hget, fun i => ?_, hinj, hvalid, hlog, hpage, hsize⟩ hok h64
      rw [pagesOf]
      simp only
      rw [hget, ok_bind, hversion, ok_bind]

/-- Two keys of one position, the second lower than the first, and one of another position. -/
theorem primaryMap_three :
    PrimaryMap (pagesOf {} 4096 Nat.log2 fun i => (i + 1) * 4096)
      [(List.replicate 15 2 ++ [7], 1), (List.replicate 15 1 ++ [7], 2), (List.replicate 16 0, 3)] :=
  (primaryMap_iff {} (fun _ _ => rfl) (by decide) (by decide)
    (fun i j h => Nat.succ_injective (Nat.eq_of_mul_eq_mul_right (by decide) h))
    (fun i => Nat.mul_ne_zero (Nat.succ_ne_zero i) (by decide)) _
    (fun i hi => lt_of_le_of_lt (Nat.mul_le_mul_right 4096 (Nat.succ_le_succ hi)) (by decide))
    ⟨by decide, by decide, by decide, fun k => le_trans List.countP_le_length (by decide)⟩).2
    ⟨rfl, .inr rfl⟩

theorem code_not_primaryMap :
    ¬ PrimaryMap (pagesOf BlockCalls.code 4096 Nat.log2 fun i => (i + 1) * 4096) [] := fun h => by
  have hget := (calls_of_primaryMap h).1
  rw [BlockCalls.code_getBlock] at hget
  nomatch hget

end PrimaryTable

end Prinbee
