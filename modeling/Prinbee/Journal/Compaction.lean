import Prinbee.Journal.Sound

/-!
# Compressing the files of a journal

`load_event_locations(true)` on a sound journal whose files are scannable: file after file, the
events of the file are entered in the index again, at their new places.  In between, the live events
are those that were entered and those of the files to come.

## Main definitions

* `Journal.SameEvent` — a location before and after its file was read.
* `Journal.Tiled`, `Journal.Cleared`, `Journal.Readable` — what the files hold.

## Main results

* `Journal.Sound.loadEventLocations` — the journal is sound again, and each live event is still
  there, with the bytes it had.
-/

namespace Prinbee

namespace Journal

/-- The location `m` is the location `l`, perhaps with its event at another offset. -/
def SameEvent (s s' : Journal) (l m : Location) : Prop :=
  m = { l with file := m.file, offset := m.offset } ∧
    ∃ b b', s.disk l.fileIndex = some b ∧ s'.disk l.fileIndex = some b' ∧
      b'.slice m.offset l.size = b.slice l.offset l.size

/-- The events of each file that has live ones follow each other, from its header to the place of the
next one; `ls` are the live ones. -/
def Tiled (s : Journal) (ls : List Location) : Prop :=
  ∀ l ∈ ls, ∃ b lives, s.disk l.fileIndex = some b ∧
    EventFile.Tiling b 8 (s.file l.file).nextAppend lives ∧
    ∀ o, o ∈ lives ↔ ∃ m ∈ ls, m.fileIndex = l.fileIndex ∧ m.offset = o

/-- A reader never finds a live event in a file that has none. -/
def Cleared (s : Journal) (ls : List Location) : Prop :=
  ∀ i b, s.disk i = some b → (∀ l ∈ ls, l.fileIndex ≠ i) → ∀ now, EventFile.liveOffsets now b = []

/-- A reader comes to the event, and its header is valid. -/
def Readable (now : ℤ) (s : Journal) (l : Location) : Prop :=
  ∀ b, s.disk l.fileIndex = some b →
    EventFile.Reaches now b 8 l.offset ∧ EventFile.Valid now b l.offset

variable {s s' : Journal} {p index : ℕ} {E L P : List Location}

/-! ### The live events while the files are read -/

theorem isOpen_with_locations (h : Sound { s with eventLocations := E ++ (L ++ P) })
    (hE : s.eventLocations = E) (q : ℕ) :
    isOpen { s with eventLocations := E ++ (L ++ P) } q = s.isOpen q := by
  rw [Bool.eq_iff_iff, isOpen_iff, isOpen_iff]
  constructor
  · rintro (⟨l, hl, hlq⟩ | hq)
    · exact .inr ⟨l, (h.locations l).1 hl, hlq⟩
    · exact .inr hq
  · rintro (⟨l, hl, hlq⟩ | hq)
    · rw [hE] at hl
      exact .inl ⟨l, List.mem_append_left _ hl, hlq⟩
    · exact .inr hq

theorem lock_with_locations (h : Sound { s with eventLocations := E ++ (L ++ P) })
    (hE : s.eventLocations = E) (i : ℕ) :
    lock { s with eventLocations := E ++ (L ++ P) } i = s.lock i := by
  rw [Journal.lock, Journal.lock]
  congr 1
  exact funext fun q => isOpen_with_locations h hE q

theorem truncate_with_locations (s : Journal) (ls : List Location) (p : ℕ) :
    truncate { s with eventLocations := ls } p = { s.truncate p with eventLocations := ls } := by
  unfold truncate
  dsimp only
  cases hm : s.options.fileManagement with
  | keep =>
    dsimp only
    change (if 0 < (s.file p).nextAppend ∧ (s.file p).nextAppend < (s.content p).length then _
      else _) = _
    split <;> rfl
  | truncate => rfl
  | delete =>
    dsimp only
    change (if max 8 (s.file p).nextAppend = 8 then _ else _) = _
    split <;> rfl

/-- Nothing was found in the file. -/
theorem loading_nil {c : Bool} {b : Bytes} {f : JournalFile}
    (hf : f = { index, eventCount := 0, nextAppend := f.nextAppend }) (hb : s.disk index = some b) :
    loading s p index c [] f.nextAppend b = { s.setFile p f with canBeCompressed := c } := by
  have hdisk : Function.update s.disk index (some b) = s.disk := by
    rw [← hb, Function.update_eq_self]
  have hfilter : (s.timebasedReplay.filter fun r =>
      ([] : List Location).all fun m => r.eventTime ≠ m.eventTime) = s.timebasedReplay :=
    List.filter_eq_self.2 fun _ _ => rfl
  rw [loading, hdisk, hfilter, List.append_nil, List.append_nil, List.length_nil, ← hf]
  rfl

theorem map_eq_of_moved {β : Type*} {b₀ b : Bytes} {olds ms : List Location} (f : Location → β)
    (hf : ∀ l : Location, ∀ p offset, f { l with file := p, offset } = f l)
    (h : List.Forall₂ (Moved p b₀ b) olds ms) : ms.map f = olds.map f := by
  induction h with
  | nil => rfl
  | cons hm _ ih => rw [List.map_cons, List.map_cons, ih, hm.1, hf]

/-- A sound journal, where the live events of the file object `p` of an index are `L`. -/
structure Around (s : Journal) (index p : ℕ) (E L P : List Location) : Prop where
  sound : Sound { s with eventLocations := E ++ (L ++ P) }
  lt : index < s.options.maximumNumberOfFiles
  get : s.eventFiles.getD index none = some p
  before : ∀ l ∈ E, l.fileIndex ≠ index
  here : ∀ l ∈ L, l.fileIndex = index
  after : ∀ l ∈ P, l.fileIndex ≠ index

theorem Around.mem (_ : Around s index p E L P) {l : Location} (hl : l ∈ L) :
    l ∈ E ++ (L ++ P) :=
  List.mem_append_right _ (List.mem_append_left _ hl)

section

variable {l : Location} (ha : Around s index p E L P)

include ha

theorem Around.file_eq (hl : l ∈ L) : l.file = p := by
  have hlink := (ha.sound.linked l (ha.mem hl)).2
  rw [ha.here l hl] at hlink
  exact Option.some.inj (hlink.symm.trans ha.get)

/-- The events of the other files. -/
theorem Around.other (hl : l ∈ E ++ P) :
    l ∈ E ++ (L ++ P) ∧ l.fileIndex ≠ index ∧ l.file ≠ p := by
  have hmem : l ∈ E ++ (L ++ P) := by
    rcases List.mem_append.1 hl with hl | hl
    · exact List.mem_append_left _ hl
    · exact List.mem_append_right _ (List.mem_append_right _ hl)
  have hne : l.fileIndex ≠ index := by
    rcases List.mem_append.1 hl with hl | hl
    · exact ha.before l hl
    · exact ha.after l hl
  refine ⟨hmem, hne, ?_⟩
  rintro rfl
  exact hne (ha.sound.inj _ _ _ (ha.sound.linked l hmem).2 ha.get)

theorem Around.nodup : L.Nodup :=
  (List.Nodup.of_map _ ha.sound.ids).sublist
    ((List.sublist_append_left L P).trans (List.sublist_append_right E (L ++ P)))

theorem Around.eq_of_eventTime {m : Location} (hl : l ∈ E ++ (L ++ P)) (hm : m ∈ E ++ (L ++ P))
    (heq : l.eventTime = m.eventTime) : l = m :=
  ha.sound.eq_of_eventTime ((ha.sound.locations l).1 hl) ((ha.sound.locations m).1 hm) heq

end

/-- What the loop finds in a file with live events. -/
structure Found (p : ℕ) (b₀ : Bytes) (L olds ms : List Location) (nextAppend : ℕ) (b : Bytes) :
    Prop where
  perm : olds.Perm L
  moved : List.Forall₂ (Moved p b₀ b) olds ms
  length : b.length = b₀.length
  header : b.take 8 = b₀.take 8
  above : ∀ m ∈ ms, 8 ≤ m.offset ∧ m.offset + m.size ≤ nextAppend ∧ nextAppend ≤ b₀.length
  sorted : ms.Pairwise fun m m' => m.offset + m.size ≤ m'.offset

/-- The events that were found, from the header of the file on, each with a valid header. -/
structure FoundChain (now : ℤ) (ms : List Location) (nextAppend : ℕ) (b : Bytes) : Prop where
  ended : ms ≠ [] → EventFile.Tiling b 8 nextAppend (ms.map (·.offset))
  reached : ∀ m ∈ ms, EventFile.Reaches now b 8 m.offset ∧ EventFile.Valid now b m.offset

/-- The journal after the events of a file were entered, with all its live events. -/
def entered (s : Journal) (p index : ℕ) (c : Bool) (E ms P : List Location) (nextAppend : ℕ)
    (b : Bytes) : Journal :=
  { loading s p index c ms nextAppend b with eventLocations := E ++ (ms ++ P) }

section

variable {b₀ b : Bytes} {olds ms : List Location} {nextAppend : ℕ} {c : Bool} {l m : Location}
  (hf : Found p b₀ L olds ms nextAppend b) (ha : Around s index p E L P)

include hf

theorem Found.exists_old (hm : m ∈ ms) : ∃ l ∈ L, m = { l with file := p, offset := m.offset } ∧
    b.slice m.offset l.size = b₀.slice l.offset l.size := by
  obtain ⟨l, hl, hmoved⟩ := exists_of_mem_right hf.moved hm
  exact ⟨l, hf.perm.mem_iff.1 hl, hmoved⟩

theorem Found.map_eventTime : ms.map (·.eventTime) = olds.map (·.eventTime) :=
  map_eq_of_moved _ (fun _ _ _ => rfl) hf.moved

theorem Found.map_requestId : ms.map (·.requestId) = olds.map (·.requestId) :=
  map_eq_of_moved _ (fun _ _ _ => rfl) hf.moved

include ha

theorem Found.fileIndex_eq (hm : m ∈ ms) : m.fileIndex = index ∧ m.file = p := by
  obtain ⟨l, hl, heq, -⟩ := hf.exists_old hm
  rw [heq]
  exact ⟨ha.here l hl, rfl⟩

/-- The times of the file are not those of the others. -/
theorem Found.eventTime_ne (hl : l ∈ E ++ P) (hm : m ∈ ms) : l.eventTime ≠ m.eventTime := by
  intro heq
  obtain ⟨old, hold, hmo, -⟩ := hf.exists_old hm
  obtain ⟨hmem, hne, -⟩ := ha.other hl
  have htime : l.eventTime = old.eventTime := by rw [heq, hmo]
  rw [ha.eq_of_eventTime hmem (ha.mem hold) htime] at hne
  exact hne (ha.here old hold)

/-- What is left of the map by time when the times of the file are taken out of it. -/
theorem Found.mem_replay : l ∈ (s.timebasedReplay.filter
    fun r => ms.all fun m => r.eventTime ≠ m.eventTime) ↔ l ∈ E ++ P := by
  rw [List.mem_filter, List.all_eq_true]
  constructor
  · rintro ⟨hl, hall⟩
    have hl' := (ha.sound.locations l).2 hl
    simp only [List.mem_append] at hl' ⊢
    rcases hl' with hl' | hl' | hl'
    · exact .inl hl'
    · -- its event was found
      have htime : l.eventTime ∈ ms.map (·.eventTime) := by
        rw [hf.map_eventTime]
        exact List.mem_map.2 ⟨l, hf.perm.mem_iff.2 hl', rfl⟩
      obtain ⟨m, hm, heq⟩ := List.mem_map.1 htime
      exact absurd heq.symm (of_decide_eq_true (hall m hm))
    · exact .inr hl'
  · intro hl
    exact ⟨(ha.sound.locations l).1 (ha.other hl).1,
      fun m hm => decide_eq_true (hf.eventTime_ne ha hl hm)⟩

theorem Found.nodup_requestId : ((E ++ (ms ++ P)).map (·.requestId)).Nodup := by
  have hperm : ((E ++ (ms ++ P)).map (·.requestId)).Perm ((E ++ (L ++ P)).map (·.requestId)) := by
    simp only [List.map_append]
    rw [hf.map_requestId]
    exact (((hf.perm.map _).append_right _).append_left _)
  exact hperm.nodup_iff.2 ha.sound.ids

theorem Found.nodup_eventTime : (((s.timebasedReplay.filter fun r =>
    ms.all fun m => r.eventTime ≠ m.eventTime) ++ ms).map (·.eventTime)).Nodup := by
  rw [List.map_append, List.nodup_append]
  refine ⟨(List.filter_sublist.map _).nodup ha.sound.times, ?_, ?_⟩
  · rw [hf.map_eventTime]
    have hmem : ∀ l ∈ olds, l ∈ E ++ (L ++ P) := fun l hl => ha.mem (hf.perm.mem_iff.1 hl)
    exact List.Nodup.map_on
      (fun l hl l' hl' heq => ha.eq_of_eventTime (hmem l hl) (hmem l' hl') heq)
      (hf.perm.nodup_iff.2 ha.nodup)
  · rintro x hx y hy rfl
    obtain ⟨l, hl, hlx⟩ := List.mem_map.1 hx
    obtain ⟨m, hm, hmx⟩ := List.mem_map.1 hy
    exact hf.eventTime_ne ha ((hf.mem_replay ha).1 hl) hm (hlx.trans hmx.symm)

omit hf in
theorem Around.file_self : (entered s p index c E ms P nextAppend b).file p =
    { index, eventCount := ms.length, nextAppend } :=
  file_loading (c := c) (b := b) (ha.sound.fresh index p ha.get)

omit hf ha in
theorem file_entered_of_ne {q : ℕ} (hq : q ≠ p) :
    (entered s p index c E ms P nextAppend b).file q = s.file q := by
  exact List.getD_set_ne hq _ _ _

omit hf ha in
theorem disk_entered_of_ne {j : ℕ} (hj : j ≠ index) :
    (entered s p index c E ms P nextAppend b).disk j = s.disk j :=
  Function.update_of_ne hj _ _

/-- A file that is open has an event of its own, or is the one that was read. -/
theorem Found.isOpen_of_ne {q : ℕ} (hqp : q ≠ p)
    (hq : (entered s p index c E ms P nextAppend b).isOpen q = true) :
    ∃ l ∈ E ++ P, l.file = q := by
  rcases isOpen_iff.1 hq with ⟨l, hl, hlq⟩ | ⟨l, hl, hlq⟩
  · simp only [entered, List.mem_append] at hl
    rcases hl with hl | hl | hl
    · exact ⟨l, List.mem_append_left _ hl, hlq⟩
    · exact absurd (hlq.symm.trans (hf.fileIndex_eq ha hl).2) hqp
    · exact ⟨l, List.mem_append_right _ hl, hlq⟩
  · rcases List.mem_append.1 hl with hl | hl
    · exact ⟨l, (hf.mem_replay ha).1 hl, hlq⟩
    · exact absurd (hlq.symm.trans (hf.fileIndex_eq ha hl).2) hqp

theorem Found.counts {q : ℕ} (hq : (entered s p index c E ms P nextAppend b).isOpen q = true) :
    ((entered s p index c E ms P nextAppend b).file q).eventCount =
      ((E ++ (ms ++ P)).filter (·.file = q)).length := by
  simp only [List.filter_append, List.length_append]
  by_cases hqp : q = p
  · subst hqp
    have hEnil : E.filter (·.file = q) = [] := List.filter_eq_nil_iff.2 fun l hl => by
      simpa using (ha.other (List.mem_append_left _ hl)).2.2
    have hPnil : P.filter (·.file = q) = [] := List.filter_eq_nil_iff.2 fun l hl => by
      simpa using (ha.other (List.mem_append_right _ hl)).2.2
    have hms : ms.filter (·.file = q) = ms := List.filter_eq_self.2 fun m hm => by
      simpa using (hf.fileIndex_eq ha hm).2
    rw [ha.file_self, hEnil, hPnil, hms]
    simp
  · have hLnil : L.filter (·.file = q) = [] := List.filter_eq_nil_iff.2 fun l hl => by
      rw [ha.file_eq hl]
      simpa using Ne.symm hqp
    have hmsnil : ms.filter (·.file = q) = [] := List.filter_eq_nil_iff.2 fun m hm => by
      rw [(hf.fileIndex_eq ha hm).2]
      simpa using Ne.symm hqp
    obtain ⟨l, hl, rfl⟩ := hf.isOpen_of_ne ha hqp hq
    have hcount := ha.sound.counts l.file
      (isOpen_of_mem (s := { s with eventLocations := E ++ (L ++ P) }) (ha.other hl).1)
    change (s.file l.file).eventCount =
      ((E ++ (L ++ P)).filter (·.file = l.file)).length at hcount
    rw [file_entered_of_ne hqp, hcount, hmsnil]
    simp only [List.filter_append, List.length_append, hLnil]

/-- The events of the file are in the bytes that were written. -/
theorem Found.stored (hb : s.disk index = some b₀) (hheader : EventFile.HasHeader b₀) (hm : m ∈ ms) :
    ∃ b', (entered s p index c E ms P nextAppend b).disk m.fileIndex = some b' ∧
      EventFile.HasHeader b' ∧
      ((entered s p index c E ms P nextAppend b).file m.file).nextAppend ≤ b'.length ∧
      Holds b' m ∧ 8 ≤ m.offset := by
  obtain ⟨old, hold, heq, hslice⟩ := hf.exists_old hm
  obtain ⟨habove, hend, hle⟩ := hf.above m hm
  obtain ⟨b₁, hb₁, -, -, hholds, -⟩ := ha.sound.stored old (ha.mem hold)
  have hb₀ : b₁ = b₀ := by
    rw [ha.here old hold] at hb₁
    exact Option.some.inj (hb₁.symm.trans hb)
  subst hb₀
  have hlength := hf.length
  rw [(hf.fileIndex_eq ha hm).2, ha.file_self, (hf.fileIndex_eq ha hm).1]
  refine ⟨b, Function.update_self .., ⟨?_, ?_⟩, ?_, ?_, habove⟩
  · rw [hlength]
    exact hheader.1
  · have htake := congrArg (List.take 6) hf.header
    rw [List.take_take, List.take_take] at htake
    exact htake.trans hheader.2
  · rw [hlength]
    exact hle
  · have hsize : m.size = old.size := by rw [heq]
    rw [heq]
    exact hholds.of_slice hslice (by omega) p

/-- The journal is sound again after the events of a file were entered. -/
theorem Found.sound (hb : s.disk index = some b₀) (hheader : EventFile.HasHeader b₀) :
    Sound (entered s p index c E ms P nextAppend b) := by
  have hmem : ∀ l, l ∈ E ++ (ms ++ P) ↔ l ∈ ms ∨ l ∈ E ++ P := fun l => by
    simp only [List.mem_append]
    tauto
  have h := ha.sound
  refine { length := h.length, linked := ?_, fresh := ?_, inj := h.inj, locations := ?_,
           ids := hf.nodup_requestId ha, times := hf.nodup_eventTime ha,
           counts := fun q hq => hf.counts ha hq, disjoint := ?_, below := ?_, index := ?_,
           stored := ?_ }
  · intro l hl
    rcases (hmem l).1 hl with hl | hl
    · obtain ⟨hindex, hfile⟩ := hf.fileIndex_eq ha hl
      rw [hindex, hfile]
      exact ⟨ha.lt, ha.get⟩
    · exact h.linked l (ha.other hl).1
  · intro i q hq
    exact (h.fresh i q hq).trans_eq (List.length_set ..).symm
  · intro l
    change l ∈ E ++ (ms ++ P) ↔ l ∈ (s.timebasedReplay.filter
      fun r => ms.all fun m => r.eventTime ≠ m.eventTime) ++ ms
    exact (hmem l).trans ((or_comm.trans (or_congr_left (hf.mem_replay ha).symm)).trans
      List.mem_append.symm)
  · -- two events of the file are in their order, and no other file has one
    intro l hl m hm hne hfile
    rcases (hmem l).1 hl with hl | hl <;> rcases (hmem m).1 hm with hm | hm
    · have hpair : ms.Pairwise fun m m' => m.offset + m.size ≤ m'.offset ∨
          m'.offset + m'.size ≤ m.offset := hf.sorted.imp Or.inl
      have : Std.Symm fun m m' : Location => m.offset + m.size ≤ m'.offset ∨
          m'.offset + m'.size ≤ m.offset := ⟨fun _ _ => Or.symm⟩
      exact hpair.forall hl hm hne
    · exact absurd (hfile.symm.trans (hf.fileIndex_eq ha hl).2) (ha.other hm).2.2
    · exact absurd (hfile.trans (hf.fileIndex_eq ha hm).2) (ha.other hl).2.2
    · exact h.disjoint l (ha.other hl).1 m (ha.other hm).1 hne hfile
  · intro l hl
    rcases (hmem l).1 hl with hl | hl
    · rw [(hf.fileIndex_eq ha hl).2, ha.file_self]
      exact (hf.above l hl).2.1
    · rw [file_entered_of_ne (ha.other hl).2.2]
      exact h.below l (ha.other hl).1
  · intro l hl
    rcases (hmem l).1 hl with hl | hl
    · rw [(hf.fileIndex_eq ha hl).2, ha.file_self, (hf.fileIndex_eq ha hl).1]
    · rw [file_entered_of_ne (ha.other hl).2.2]
      exact h.index l (ha.other hl).1
  · intro l hl
    rcases (hmem l).1 hl with hl | hl
    · exact hf.stored ha hb hheader hl
    · rw [file_entered_of_ne (ha.other hl).2.2, disk_entered_of_ne (ha.other hl).2.1]
      exact h.stored l (ha.other hl).1

end

/-! ### One file -/

/-- The loop over the events of a file finds its live events. -/
theorem loadEvents_found (now : ℤ) {b₀ : Bytes} (compress : Bool)
    (hs : Loadable s p index b₀ L) (hheader : EventFile.HasHeader b₀)
    (hscan : ∀ o, o ∈ EventFile.liveOffsets now b₀ ↔ ∃ l ∈ L, l.offset = o)
    (hoffset : ∀ l ∈ L, ∀ l' ∈ L, l.offset = l'.offset → l = l') (hnodup : L.Nodup) (c : Bool)
    (nextAppend : ℕ) :
    ∃ c' olds ms nextAppend' b,
      loadEvents now compress index p b₀.length (loading s p index c [] nextAppend b₀) 8 none =
        loading s p index c' ms nextAppend' b ∧
      Found p b₀ L olds ms nextAppend' b ∧ FoundChain now ms nextAppend' b ∧
      (ms = [] → b = b₀ ∧ nextAppend' = nextAppend) := by
  rw [EventFile.liveOffsets, if_pos hheader] at hscan
  obtain ⟨c', offset, tellp, olds, ms, nextAppend', b, heq, hp, hchain, hmap, hnil⟩ :=
    loadEvents_eq hs b₀.length c (progress_nil compress p b₀ L nextAppend)
      (chained_nil now compress nextAppend b₀) fun o ho => (hscan o).1 ho
  rw [List.map_nil, List.nil_append] at hmap
  have holds : olds.Nodup := hp.ordered.imp fun hlt heq => by rw [heq] at hlt; omega
  have hperm : olds.Perm L := (List.perm_ext_iff_of_nodup holds hnodup).2 fun l => by
    refine ⟨fun hl => (hp.known l hl).1, fun hl => ?_⟩
    have hmem : l.offset ∈ olds.map (·.offset) := by
      rw [hmap]
      exact (hscan _).2 ⟨l, hl, rfl⟩
    obtain ⟨l', hl', heq'⟩ := List.mem_map.1 hmem
    rwa [hoffset l hl l' (hp.known l' hl').1 heq'.symm]
  exact ⟨c', olds, ms, nextAppend', b, heq,
    ⟨hperm, hp.moved, hp.length, hp.header, fun m hm =>
      ⟨(hp.above m hm).1, (hp.append m hm).1, (hp.append m hm).2⟩, hp.sorted⟩,
    ⟨hchain.ended, hchain.reached⟩, hnil⟩

/-- Two live events of a file are not at the same place. -/
theorem Sound.eq_of_offset (h : s.Sound) {l m : Location} (hl : l ∈ s.eventLocations)
    (hm : m ∈ s.eventLocations) (hindex : l.fileIndex = m.fileIndex)
    (hoffset : l.offset = m.offset) : l = m := by
  by_contra hne
  obtain ⟨_, -, -, -, hholds, -⟩ := h.stored l hl
  obtain ⟨_, -, -, -, hholds', -⟩ := h.stored m hm
  have hsize := hholds.prefixed
  have hsize' := hholds'.prefixed
  have := h.disjoint l hl m hm hne ((h.file_eq_iff hl hm).2 hindex)
  omega

/-- What reading the file of an index leaves: its live events `L` are the locations `ms` now, one
after the other. -/
structure FileLoaded (now : ℤ) (s : Journal) (index : ℕ) (E L P ms : List Location)
    (s' : Journal) : Prop where
  eventLocations : s'.eventLocations = E ++ ms
  sound : Sound { s' with eventLocations := E ++ (ms ++ P) }
  same : ∃ olds, olds.Perm L ∧ List.Forall₂ (SameEvent s s') olds ms
  indexes : ∀ m ∈ ms, m.fileIndex = index
  disk : ∀ j, j ≠ index → s'.disk j = s.disk j
  files : ∀ l ∈ E, s'.file l.file = s.file l.file
  chain : ms ≠ [] → ∃ b, s'.disk index = some b ∧ ∀ m ∈ ms,
    EventFile.Tiling b 8 (s'.file m.file).nextAppend (ms.map (·.offset)) ∧
      EventFile.Reaches now b 8 m.offset ∧ EventFile.Valid now b m.offset
  cleared : L = [] → (∀ b, s.disk index = some b → ∀ now, EventFile.liveOffsets now b = []) →
    ∀ b, s'.disk index = some b → ∀ now, EventFile.liveOffsets now b = []
  options : s'.options = s.options
  external : s'.external = s.external
  current : s'.currentFileIndex = s.currentFileIndex

/-- A file object that is open has a live event of its own. -/
theorem Around.exists_mem (ha : Around s index p E L P) (hEs : s.eventLocations = E)
    (hopen : s.isOpen p = true) : ∃ l, l ∈ L := by
  rw [← isOpen_with_locations ha.sound hEs] at hopen
  obtain ⟨l, hl, rfl⟩ := ha.sound.exists_of_isOpen hopen
  have hindex : l.fileIndex = index := ha.sound.inj _ _ _ (ha.sound.linked l hl).2 ha.get
  simp only [List.mem_append] at hl
  rcases hl with hl | hl | hl
  · exact absurd hindex (ha.before l hl)
  · exact ⟨l, hl⟩
  · exact absurd hindex (ha.after l hl)

theorem Around.file_index (ha : Around s index p E L P) {l : Location} (hl : l ∈ L) :
    (s.file p).index = index := by
  have hindex := ha.sound.index l (ha.mem hl)
  rw [ha.file_eq hl, ha.here l hl] at hindex
  exact hindex

theorem Around.loadable (ha : Around s index p E L P) (hEs : s.eventLocations = E) {b : Bytes}
    (hb : s.disk index = some b) : Loadable s p index b L where
  made := ha.sound.fresh index p ha.get
  holds := fun l hl => by
    obtain ⟨b₁, hb₁, -, -, hholds, -⟩ := ha.sound.stored l (ha.mem hl)
    rw [ha.here l hl] at hb₁
    cases Option.some.inj (hb₁.symm.trans hb)
    exact ⟨hholds, ha.here l hl⟩
  ids := fun l hl e he heq => by
    rw [hEs] at he
    have hsame := ha.sound.eq_of_requestId (List.mem_append_left _ he) (ha.mem hl) heq
    exact ha.before e he (hsame ▸ ha.here l hl)
  idInj := fun l hl l' hl' heq => ha.sound.eq_of_requestId (ha.mem hl) (ha.mem hl') heq
  timeInj := fun l hl l' hl' heq => ha.eq_of_eventTime (ha.mem hl) (ha.mem hl') heq
  replay := fun l hl r hr heq => by
    rw [ha.eq_of_eventTime ((ha.sound.locations r).2 hr) (ha.mem hl) heq]
    exact ha.file_eq hl

/-- The file object is still open when an event was found. -/
theorem Found.isOpen {b₀ b : Bytes} {olds ms : List Location} {nextAppend : ℕ} {c : Bool}
    (hf : Found p b₀ L olds ms nextAppend b) {l : Location} (hl : l ∈ L) :
    (loading s p index c ms nextAppend b).isOpen p = true := by
  have hne : ms ≠ [] := by
    rintro rfl
    have holds := List.forall₂_nil_right_iff.1 hf.moved
    rw [holds] at hf
    exact List.ne_nil_of_mem hl hf.perm.nil_eq.symm
  obtain ⟨m, hm⟩ := List.exists_mem_of_ne_nil ms hne
  obtain ⟨_, -, hmoved, -⟩ := hf.exists_old hm
  have hmp : m.file = p := by rw [hmoved]
  rw [← hmp]
  exact isOpen_of_mem (List.mem_append_right _ hm)

/-- The events of an open file are read by the loop. -/
theorem loadFile_eq {now : ℤ} {compress : Bool} {b b' : Bytes} {c : Bool} {ms : List Location}
    {nextAppend : ℕ} (hlock : s.lock index = some p) (hindex : (s.file p).index = index)
    (hb : s.disk index = some b) (hheader : EventFile.HasHeader b)
    (hloop : loadEvents now compress index p b.length
      (loading s p index s.canBeCompressed [] (s.file p).nextAppend b) 8 none =
        loading s p index c ms nextAppend b')
    (hopen : (loading s p index c ms nextAppend b').isOpen p = true) :
    loadFile now compress s index = loading s p index c ms nextAppend b' := by
  have hcontent : (s.setFile p { s.file p with eventCount := 0 }).content p = b := by
    have hsame := index_setFile (s := s) (p := p) (f := { s.file p with eventCount := 0 }) rfl
    rw [content, hsame, hindex]
    change (s.disk index).getD [] = b
    rw [hb]
    rfl
  have hnil := loading_nil (p := p) (c := s.canBeCompressed)
    (f := { s.file p with eventCount := 0 }) (by dsimp only; rw [hindex]) hb
  have hself : ({ s.setFile p { s.file p with eventCount := 0 } with
      canBeCompressed := s.canBeCompressed } : Journal) =
      s.setFile p { s.file p with eventCount := 0 } := rfl
  rw [hself] at hnil
  rw [loadFile, openFile, hlock]
  dsimp only
  rw [hcontent, if_pos hheader, ← hnil]
  change (loadEvents now compress index p b.length
    (loading s p index s.canBeCompressed [] (s.file p).nextAppend b) 8 none).drop p = _
  rw [hloop, drop_of_isOpen hopen]

/-- A file that has live events. -/
theorem Sound.loadFile_open {now : ℤ} (compress : Bool)
    (h : Sound { s with eventLocations := E ++ (L ++ P) }) (hEs : s.eventLocations = E)
    (hi : index < s.options.maximumNumberOfFiles) (hlock : s.lock index = some p)
    (hE : ∀ l ∈ E, l.fileIndex ≠ index) (hL : ∀ l ∈ L, l.fileIndex = index)
    (hP : ∀ l ∈ P, l.fileIndex ≠ index)
    (hscan : ∀ b, s.disk index = some b → ∀ o, o ∈ EventFile.liveOffsets now b ↔
      ∃ l ∈ L, l.offset = o) :
    ∃ ms, FileLoaded now s index E L P ms (loadFile now compress s index) := by
  obtain ⟨hget, hopen⟩ := Option.filter_eq_some_iff.1 hlock
  have ha : Around s index p E L P := ⟨h, hi, hget, hE, hL, hP⟩
  obtain ⟨l₀, hl₀⟩ := ha.exists_mem hEs hopen
  obtain ⟨b, hb, hheader, -, -, -⟩ := h.stored l₀ (ha.mem hl₀)
  rw [hL l₀ hl₀] at hb
  replace hb : s.disk index = some b := hb
  obtain ⟨c, olds, ms, nextAppend, b₁, heq, hfound, hchain, -⟩ :=
    loadEvents_found now compress (ha.loadable hEs hb) hheader (hscan b hb)
      (fun l hl l' hl' => h.eq_of_offset (ha.mem hl) (ha.mem hl') ((hL l hl).trans (hL l' hl').symm))
      ha.nodup s.canBeCompressed (s.file p).nextAppend
  rw [loadFile_eq hlock (ha.file_index hl₀) hb hheader heq (hfound.isOpen hl₀)]
  refine ⟨ms, by rw [← hEs]; rfl, hfound.sound ha hb hheader, ⟨olds, hfound.perm, ?_⟩,
    fun m hm => (hfound.fileIndex_eq ha hm).1, fun j hj => Function.update_of_ne hj _ _,
    fun l hl => ?_, fun hne => ⟨b₁, Function.update_self .., fun m hm => ⟨?_, hchain.reached m hm⟩⟩,
    fun hnil => ?_, rfl, rfl, rfl⟩
  · have hboth := (List.forall₂_and_left _ _).2
      ⟨fun l hl => hL l (hfound.perm.mem_iff.1 hl), hfound.moved⟩
    refine hboth.imp fun l m => ?_
    rintro ⟨hl, heq, hslice⟩
    refine ⟨by rw [heq], b, b₁, ?_, ?_, hslice⟩
    · rw [hl]
      exact hb
    · rw [hl]
      exact Function.update_self ..
  · exact List.getD_set_ne (ha.other (List.mem_append_left _ hl)).2.2 _ _ _
  · rw [(hfound.fileIndex_eq ha hm).2, file_loading (show p < s.files.length from
      h.fresh index p hget)]
    exact hchain.ended hne
  · rw [hnil] at hl₀
    cases hl₀

theorem Sound.compressible (h : s.Sound) (c : Bool) : Sound { s with canBeCompressed := c } :=
  ⟨⟨h.length, h.linked, h.fresh, h.inj⟩,
    ⟨h.locations, h.ids, h.times, h.counts, h.disjoint, h.below⟩, h.index, h.stored⟩

/-- The file of a new object is read. -/
theorem loadFile_new {now : ℤ} {compress : Bool} {b : Bytes}
    (ho : s.openFile index false = (some s.files.length, s.opened index b)) :
    loadFile now compress s index =
      (if EventFile.HasHeader b then
        loadEvents now compress index s.files.length b.length
          (loading (s.opened index b) s.files.length index s.canBeCompressed [] 0 b) 8 none
      else s.opened index b).drop s.files.length := by
  have hself : (s.opened index b).file s.files.length = { index } := file_opened_self s index b
  have hset : (s.opened index b).setFile s.files.length
      { (s.opened index b).file s.files.length with eventCount := 0 } = s.opened index b := by
    rw [setFile, hself]
    change { s.opened index b with
      files := (s.opened index b).files.set s.files.length { index } } = s.opened index b
    rw [← hself, set_file_self]
  have hdisk : (s.opened index b).disk index = some b := Function.update_self ..
  have hcontent : (s.opened index b).content s.files.length = b := by
    rw [content, hself, hdisk]
    rfl
  have hnone : loading (s.opened index b) s.files.length index s.canBeCompressed [] 0 b =
      s.opened index b := by
    have hnil := loading_nil (s := s.opened index b) (p := s.files.length) (c := s.canBeCompressed)
      (f := { index }) rfl hdisk
    rw [hself] at hset
    rw [hset] at hnil
    exact hnil
  rw [loadFile, ho, hnone]
  dsimp only
  rw [hset, hcontent]

/-- Nothing is found in a file without live events. -/
theorem loadFile_opened {now : ℤ} (compress : Bool) {b : Bytes}
    (ho : s.openFile index false = (some s.files.length, s.opened index b))
    (hscan : EventFile.liveOffsets now b = []) :
    ∃ c, loadFile now compress s index =
      drop { s.opened index b with canBeCompressed := c } s.files.length := by
  rw [loadFile_new ho]
  split
  · next hheader =>
    have hself : (s.opened index b).file s.files.length = { index } := file_opened_self s index b
    have hfiles : s.files.length < (s.opened index b).files.length := by
      rw [Journal.opened, List.length_append, List.length_singleton]
      omega
    have hloadable : Loadable (s.opened index b) s.files.length index b [] :=
      { made := hfiles
        holds := fun l hl => by cases hl
        ids := fun l hl => by cases hl
        idInj := fun l hl => by cases hl
        timeInj := fun l hl => by cases hl
        replay := fun l hl => by cases hl }
    obtain ⟨c, olds, ms, nextAppend, b₁, heq, hfound, -, hnil⟩ :=
      loadEvents_found now compress hloadable hheader
        (fun o => by rw [hscan]; simp) (fun l hl => by cases hl) List.nodup_nil
        s.canBeCompressed 0
    have hms : ms = [] := by
      have hmoved := hfound.moved
      rw [List.perm_nil.1 hfound.perm] at hmoved
      exact List.forall₂_nil_left_iff.1 hmoved
    obtain ⟨rfl, rfl⟩ := hnil hms
    have hset : (s.opened index b₁).setFile s.files.length { index } = s.opened index b₁ := by
      rw [setFile, ← hself, set_file_self]
    have hnone := loading_nil (s := s.opened index b₁) (p := s.files.length) (c := c)
      (f := { index }) rfl (Function.update_self ..)
    rw [hset] at hnone
    rw [heq, hms]
    exact ⟨c, congrArg (drop · s.files.length) hnone⟩
  · exact ⟨s.canBeCompressed, rfl⟩

/-- A file without live events. -/
theorem Sound.loadFile_closed {now : ℤ} (compress : Bool)
    (h : Sound { s with eventLocations := E ++ P }) (hEs : s.eventLocations = E)
    (hi : index < s.options.maximumNumberOfFiles) (hlock : s.lock index = none)
    (hscan : ∀ b, s.disk index = some b → EventFile.liveOffsets now b = []) :
    FileLoaded now s index E [] P [] (loadFile now compress s index) := by
  have hlockE : lock { s with eventLocations := E ++ P } index = none :=
    (lock_with_locations (L := []) h hEs index).trans hlock
  obtain ⟨q, hlock', -⟩ | ⟨-, -, -, heq⟩ | ⟨-, b, hb, heq⟩ := s.openFile_cases index false
  · rw [hlock] at hlock'
    cases hlock'
  · -- no such file
    rw [show loadFile now compress s index = s by rw [loadFile, heq]]
    exact ⟨by rw [hEs, List.append_nil], h, ⟨[], .nil, .nil⟩,
      fun m hm => absurd hm List.not_mem_nil, fun _ _ => rfl, fun _ _ => rfl,
      fun hne => absurd rfl hne, fun _ hnone => hnone, rfl, rfl, rfl⟩
  · have hb' : s.disk index = some b := by
      rcases hb with hb | ⟨-, hcreate, -⟩
      · exact hb
      · cases hcreate
    obtain ⟨c, hload⟩ := loadFile_opened compress heq (hscan b hb')
    set s₁ : Journal := { s.opened index b with canBeCompressed := c } with hs₁
    have hself : s₁.file s.files.length = { index } := file_opened_self s index b
    have hsound : Sound { s₁ with eventLocations := E ++ P } :=
      (h.opened hi hlockE b).compressible c
    have hclosedE : isOpen { s₁ with eventLocations := E ++ P } s.files.length = false := by
      rw [Bool.eq_false_iff]
      intro hopen
      obtain ⟨l, hl, hfile⟩ := hsound.exists_of_isOpen hopen
      have := h.file_lt hl
      change l.file < s.files.length at this
      omega
    have hclosed : s₁.isOpen s.files.length = false :=
      (isOpen_with_locations (L := []) hsound hEs _).symm.trans hclosedE
    have hdropped := hsound.drop_closed hclosedE fun l hl => by
      have hne := h.fileIndex_ne_of_lock hlockE hl
      change l.fileIndex ≠ (s₁.file s.files.length).index
      rwa [hself]
    rw [drop, if_neg (by rw [hclosedE]; decide), truncate_with_locations] at hdropped
    have hcase := truncate_new hself
    rw [hload, drop, if_neg (by rw [hclosed]; decide)]
    obtain ⟨f, d, -, htrunc⟩ := s₁.truncate_eq s.files.length
    rw [hself] at htrunc
    rw [htrunc] at hdropped hcase ⊢
    refine ⟨hEs.trans (List.append_nil E).symm, hdropped, ⟨[], .nil, .nil⟩,
      fun m hm => absurd hm List.not_mem_nil, fun j hj => ?_, fun l hl => ?_,
      fun hne => absurd rfl hne, fun _ hnone b' hb'' now => ?_, rfl, rfl, rfl⟩
    · change Function.update (Function.update s.disk index (some b)) index d j = s.disk j
      rw [Function.update_of_ne hj, Function.update_of_ne hj]
    · have hlt : l.file < s.files.length := h.file_lt (List.mem_append_left _ hl)
      refine (List.getD_set_ne (by omega) _ _ _).trans (file_opened s hlt index b)
    · rcases hcase with hsame | hshort
      · rw [hb''] at hsame
        have hbb : s₁.disk index = some b := Function.update_self ..
        rw [hbb] at hsame
        cases hsame
        exact hnone b (hb' ▸ rfl) now
      · exact liveOffsets_of_length_le (hshort b' hb'') now

/-- One file is read. -/
theorem Sound.loadFile (now : ℤ) (compress : Bool)
    (h : Sound { s with eventLocations := E ++ (L ++ P) }) (hEs : s.eventLocations = E)
    (hi : index < s.options.maximumNumberOfFiles)
    (hE : ∀ l ∈ E, l.fileIndex ≠ index) (hL : ∀ l ∈ L, l.fileIndex = index)
    (hP : ∀ l ∈ P, l.fileIndex ≠ index)
    (hscan : ∀ b, s.disk index = some b → ∀ o, o ∈ EventFile.liveOffsets now b ↔
      ∃ l ∈ L, l.offset = o) :
    ∃ ms, FileLoaded now s index E L P ms (loadFile now compress s index) := by
  cases hlock : s.lock index with
  | some p => exact h.loadFile_open compress hEs hi hlock hE hL hP hscan
  | none =>
    have hnil : L = [] := List.eq_nil_iff_forall_not_mem.2 fun l hl => by
      have hl' : l ∈ E ++ (L ++ P) := List.mem_append_right _ (List.mem_append_left _ hl)
      have hlink := h.toLinked.lock hl'
      rw [lock_with_locations h hEs, hL l hl, hlock] at hlink
      cases hlink
    subst hnil
    refine ⟨[], h.loadFile_closed compress hEs hi hlock fun b hb =>
      List.eq_nil_iff_forall_not_mem.2 fun o ho => ?_⟩
    obtain ⟨l, hl, -⟩ := (hscan b hb o).1 ho
    cases hl

/-! ### All the files -/

/-- The files before `k` were read: `s` is where the journal `s₀` got to. -/
structure Reading (now : ℤ) (s₀ : Journal) (k : ℕ) (s : Journal) : Prop where
  sound : Sound { s with
    eventLocations := s.eventLocations ++ s₀.eventLocations.filter (k ≤ ·.fileIndex) }
  same : ∃ olds, olds.Perm (s₀.eventLocations.filter (·.fileIndex < k)) ∧
    List.Forall₂ (SameEvent s₀ s) olds s.eventLocations
  indexes : ∀ m ∈ s.eventLocations, m.fileIndex < k
  disk : ∀ j, k ≤ j → s.disk j = s₀.disk j
  tiled : s.Tiled s.eventLocations
  readable : ∀ l ∈ s.eventLocations, Readable now s l
  cleared : s₀.Cleared s₀.eventLocations → s.Cleared s₀.eventLocations
  options : s.options = s₀.options
  external : s.external = s₀.external
  current : s.currentFileIndex = s₀.currentFileIndex

/-- The locations from an index on are those with the index and the later ones. -/
theorem filter_le_perm (ls : List Location) (k : ℕ) :
    (ls.filter (k ≤ ·.fileIndex)).Perm
      (ls.filter (·.fileIndex = k) ++ ls.filter (k + 1 ≤ ·.fileIndex)) := by
  have hperm := List.filter_append_perm (fun l : Location => decide (l.fileIndex = k))
    (ls.filter (k ≤ ·.fileIndex))
  rw [List.filter_filter, List.filter_filter] at hperm
  refine hperm.symm.trans (List.Perm.of_eq (congrArg₂ (· ++ ·) ?_ ?_))
  all_goals
    refine List.filter_congr fun l _ => ?_
    grind

theorem filter_lt_perm (ls : List Location) (k : ℕ) :
    (ls.filter (·.fileIndex < k) ++ ls.filter (·.fileIndex = k)).Perm
      (ls.filter (·.fileIndex < k + 1)) := by
  have hperm := List.filter_append_perm (fun l : Location => decide (l.fileIndex < k))
    (ls.filter (·.fileIndex < k + 1))
  rw [List.filter_filter, List.filter_filter] at hperm
  refine (List.Perm.of_eq (congrArg₂ (· ++ ·) ?_ ?_)).trans hperm
  all_goals
    refine List.filter_congr fun l _ => ?_
    grind

theorem Reading.step {s₀ : Journal} {now : ℤ} {k : ℕ} (compress : Bool) (h : Reading now s₀ k s)
    (hs₀ : s₀.Scannable now) (hk : k < s₀.options.maximumNumberOfFiles) :
    Reading now s₀ (k + 1) (loadFile now compress s k) := by
  have hsound := h.sound.perm ((filter_le_perm s₀.eventLocations k).append_left s.eventLocations)
  have hL : ∀ l ∈ s₀.eventLocations.filter (·.fileIndex = k), l.fileIndex = k :=
    fun l hl => of_decide_eq_true (List.mem_filter.1 hl).2
  have hP : ∀ l ∈ s₀.eventLocations.filter (k + 1 ≤ ·.fileIndex), l.fileIndex ≠ k :=
    fun l hl => by
      have := of_decide_eq_true (List.mem_filter.1 hl).2
      omega
  obtain ⟨ms, hloaded⟩ := Sound.loadFile (s := s) now compress hsound rfl
    (show k < s.options.maximumNumberOfFiles by rw [h.options]; exact hk)
    (fun l hl => (h.indexes l hl).ne) hL hP fun b hb o => by
      rw [h.disk k le_rfl] at hb
      rw [hs₀ k hk b hb o]
      constructor
      · rintro ⟨l, hl, hindex, hoffset⟩
        exact ⟨l, List.mem_filter.2 ⟨hl, decide_eq_true hindex⟩, hoffset⟩
      · rintro ⟨l, hl, hoffset⟩
        exact ⟨l, (List.mem_filter.1 hl).1, hL l hl, hoffset⟩
  obtain ⟨olds, hperm, hsame⟩ := h.same
  obtain ⟨olds', hperm', hsame'⟩ := hloaded.same
  have hold : ∀ m ∈ s.eventLocations, m.fileIndex ≠ k := fun m hm => (h.indexes m hm).ne
  refine { sound := ?_, same := ⟨olds ++ olds', ?_, ?_⟩, indexes := ?_, disk := ?_, tiled := ?_,
           readable := ?_, cleared := ?_, options := hloaded.options.trans h.options,
           external := hloaded.external.trans h.external,
           current := hloaded.current.trans h.current }
  · rw [hloaded.eventLocations, List.append_assoc]
    exact hloaded.sound
  · exact (hperm.append hperm').trans (filter_lt_perm _ _)
  · rw [hloaded.eventLocations]
    refine List.rel_append ?_ ?_
    · have hlt : ∀ l ∈ olds, l.fileIndex < k := fun l hl =>
        of_decide_eq_true (List.mem_filter.1 (hperm.mem_iff.1 hl)).2
      refine ((List.forall₂_and_left _ _).2 ⟨hlt, hsame⟩).imp fun l m => ?_
      rintro ⟨hl, heq, b, b', hb, hb', hslice⟩
      exact ⟨heq, b, b', hb, (hloaded.disk _ hl.ne).trans hb', hslice⟩
    · have hindex : ∀ l ∈ olds', l.fileIndex = k := fun l hl => hL l (hperm'.mem_iff.1 hl)
      refine ((List.forall₂_and_left _ _).2 ⟨hindex, hsame'⟩).imp fun l m => ?_
      rintro ⟨hl, heq, b, b', hb, hb', hslice⟩
      exact ⟨heq, b, b', (h.disk _ hl.ge).symm.trans hb, hb', hslice⟩
  · rw [hloaded.eventLocations]
    intro m hm
    rcases List.mem_append.1 hm with hm | hm
    · have := h.indexes m hm
      omega
    · have := hloaded.indexes m hm
      omega
  · intro j hj
    rw [hloaded.disk j (by omega), h.disk j (by omega)]
  · rw [hloaded.eventLocations]
    intro m hm
    rcases List.mem_append.1 hm with hm | hm
    · obtain ⟨b, lives, hb, htiling, hmem⟩ := h.tiled m hm
      refine ⟨b, lives, ?_, by rw [hloaded.files m hm]; exact htiling, fun o => (hmem o).trans ?_⟩
      · rw [hloaded.disk _ (hold m hm)]
        exact hb
      · refine exists_congr fun m' => and_congr_left fun hm' => ?_
        rw [List.mem_append]
        refine ⟨.inl, fun hmem' => hmem'.resolve_right fun hmem' => ?_⟩
        rw [hloaded.indexes m' hmem'] at hm'
        exact hold m hm hm'.1.symm
    · obtain ⟨b, hb, hchain⟩ := hloaded.chain (List.ne_nil_of_mem hm)
      rw [hloaded.indexes m hm]
      refine ⟨b, _, hb, (hchain m hm).1, fun o => ?_⟩
      rw [List.mem_map]
      constructor
      · rintro ⟨m', hm', hoffset⟩
        exact ⟨m', List.mem_append_right _ hm', hloaded.indexes m' hm', hoffset⟩
      · rintro ⟨m', hm', hindex, hoffset⟩
        exact ⟨m', (List.mem_append.1 hm').resolve_left fun hm'' => hold m' hm'' hindex, hoffset⟩
  · rw [hloaded.eventLocations]
    intro m hm b hb
    rcases List.mem_append.1 hm with hm | hm
    · rw [hloaded.disk _ (hold m hm)] at hb
      exact h.readable m hm b hb
    · obtain ⟨b', hb', hchain⟩ := hloaded.chain (List.ne_nil_of_mem hm)
      rw [hloaded.indexes m hm, hb'] at hb
      cases hb
      exact (hchain m hm).2
  · intro hcleared i b hb hne
    by_cases hik : i = k
    · subst hik
      refine hloaded.cleared ?_ (fun b hb => h.cleared hcleared i b hb hne) b hb
      exact List.filter_eq_nil_iff.2 fun l hl => by simpa using hne l hl
    · rw [hloaded.disk i hik] at hb
      exact h.cleared hcleared i b hb hne

/-- The files are read one after the other. -/
theorem Reading.run {s₀ : Journal} {now : ℤ} (compress : Bool) (h : Reading now s₀ 0 s)
    (hs₀ : s₀.Scannable now) {n : ℕ} (hn : n ≤ s₀.options.maximumNumberOfFiles) :
    Reading now s₀ n ((List.range n).foldl (Journal.loadFile now compress) s) := by
  induction n with
  | zero => exact h
  | succ n ih =>
    rw [List.range_succ, List.foldl_append]
    exact (ih (by omega)).step compress hs₀ (by omega)

/-- All the files are read. -/
theorem Sound.reading {now : ℤ} (h : s.Sound) (hs : s.Scannable now) (compress : Bool) :
    Reading now s s.options.maximumNumberOfFiles (s.loadEventLocations now compress) := by
  set s₁ : Journal := { s with canBeCompressed := false, eventLocations := [] } with hs₁
  -- the map by time still refers to the files
  have hdrop : s₁.dropAll s.eventLocations = s₁ := dropAll_of_isOpen fun l hl =>
    isOpen_iff.2 (.inr ⟨l, (h.locations l).1 hl, rfl⟩)
  have hall : s.eventLocations.filter (0 ≤ ·.fileIndex) = s.eventLocations :=
    List.filter_eq_self.2 fun l _ => decide_eq_true (Nat.zero_le _)
  have hstart : Reading now s 0 s₁ :=
    { sound := by
        rw [hall]
        exact h.compressible false
      same := ⟨[], by simp, .nil⟩
      indexes := fun m hm => by cases hm
      disk := fun _ _ => rfl
      tiled := fun m hm => by cases hm
      readable := fun m hm => by cases hm
      cleared := fun hcleared => hcleared
      options := rfl
      external := rfl
      current := rfl }
  have hread := hstart.run compress hs le_rfl
  have heq : s.loadEventLocations now compress =
      (List.range s.options.maximumNumberOfFiles).foldl (Journal.loadFile now compress) s₁ := by
    rw [Journal.loadEventLocations]
    dsimp only
    rw [hdrop]
  rwa [heq]

/-- **Reading the files again**, compressed or not: the journal is sound, and has the events that it
had. -/
theorem Sound.loadEventLocations {now : ℤ} (h : s.Sound) (hs : s.Scannable now)
    (compress : Bool) :
    (s.loadEventLocations now compress).Sound ∧
      (∃ olds, olds.Perm s.eventLocations ∧
        List.Forall₂ (SameEvent s (s.loadEventLocations now compress)) olds
          (s.loadEventLocations now compress).eventLocations) ∧
      (s.loadEventLocations now compress).options = s.options ∧
      (s.loadEventLocations now compress).external = s.external ∧
      (s.loadEventLocations now compress).currentFileIndex = s.currentFileIndex := by
  have hread := h.reading hs compress
  have hnone : s.eventLocations.filter (s.options.maximumNumberOfFiles ≤ ·.fileIndex) = [] :=
    List.filter_eq_nil_iff.2 fun l hl => by
      have := (h.linked l hl).1
      simpa using this
  have hevery : s.eventLocations.filter (·.fileIndex < s.options.maximumNumberOfFiles) =
      s.eventLocations := List.filter_eq_self.2 fun l hl => decide_eq_true (h.linked l hl).1
  obtain ⟨olds, hperm, hsame⟩ := hread.same
  rw [hevery] at hperm
  have hsound := hread.sound
  rw [hnone, List.append_nil] at hsound
  exact ⟨hsound, ⟨olds, hperm, hsame⟩, hread.options, hread.external, hread.current⟩

/-- The files after they were read again: the events of each file follow each other, a reader comes
to the live ones, and finds none in the other files. -/
theorem Sound.loadEventLocations_tiled {now : ℤ} (h : s.Sound) (hs : s.Scannable now)
    (hcleared : s.Cleared s.eventLocations) (compress : Bool) :
    (s.loadEventLocations now compress).Tiled (s.loadEventLocations now compress).eventLocations ∧
      (∀ m ∈ (s.loadEventLocations now compress).eventLocations,
        Readable now (s.loadEventLocations now compress) m) ∧
      (s.loadEventLocations now compress).Cleared
        (s.loadEventLocations now compress).eventLocations := by
  have hread := h.reading hs compress
  obtain ⟨-, ⟨olds, hperm, hsame⟩, -⟩ := h.loadEventLocations hs compress
  refine ⟨hread.tiled, hread.readable, fun i b hb hne => hread.cleared hcleared i b hb ?_⟩
  intro l hl heq
  -- the event is in the same file now
  obtain ⟨m, hm, hlm, -⟩ := exists_of_mem_left hsame (hperm.mem_iff.2 hl)
  exact hne m hm (by rw [hlm]; exact heq)

end Journal

end Prinbee
