import Prinbee.Journal.Legible

/-!
# Closing a journal and opening it again

The destructor cuts off what is behind the events of each file; the constructor reads the files from
header to header.  It finds the live events that it reaches: it stops at an event without inline
attachments, whose header it takes for a broken one, and at one whose time is in the future.

## Main definitions

* `Journal.reopen` — the journal that is constructed over the directory of one that was closed.
* `Journal.Leaves` — a directory that a journal leaves.
* `Journal.Persists` — closing and reopening keeps the live events.

## Main results

* `Journal.Durable.events_reopen` — the events of the reopened journal.
* `Journal.persists_run` — they are those of the journal exactly when a reader comes to each of them.
* `Journal.not_persists` — an event without attachments is lost.
-/

namespace Prinbee

namespace Journal

/-- The journal is destroyed and another one is constructed in the same directory. -/
def reopen (s : Journal) (now : ℤ) : Journal :=
  construct s.options s.close.disk s.close.external now

/-- The live events are the same after the journal was closed and opened again. -/
def Persists (s : Journal) (now : ℤ) : Prop := (s.reopen now).events = s.events

variable {s t u v : Journal} {now : ℤ} {l m : Location} {k p : ℕ} {D : ℕ → Option Bytes}

/-! ### Closing -/

/-- The journal `s` while its files are closed: those of the events `done` are. -/
structure Closing (s : Journal) (done : List Location) (t : Journal) : Prop where
  eventLocations : t.eventLocations = []
  timebasedReplay : t.timebasedReplay = []
  external : t.external = s.external
  file : ∀ l ∈ s.eventLocations, t.file l.file = s.file l.file
  other : ∀ i, (∀ l ∈ s.eventLocations, l.fileIndex ≠ i) → t.disk i = s.disk i
  kept : ∀ l ∈ s.eventLocations, ∀ b, s.disk l.fileIndex = some b →
    ∃ b', t.disk l.fileIndex = some b' ∧
      b'.take (s.file l.file).nextAppend = b.take (s.file l.file).nextAppend ∧
      (s.file l.file).nextAppend ≤ b'.length
  closed : ∀ l ∈ done, ∀ b', t.disk l.fileIndex = some b' →
    ∀ now, ¬ EventFile.Valid now b' (s.file l.file).nextAppend

/-- The object of an event goes away. -/
theorem Closing.drop (h : s.Durable) {done : List Location} (hc : Closing s done t)
    (hdone : ∀ m ∈ done, m ∈ s.eventLocations) (hl : l ∈ s.eventLocations) :
    Closing s (l :: done) (t.drop l.file) := by
  have hopen : t.isOpen l.file = false := by
    rw [isOpen, hc.eventLocations, hc.timebasedReplay]
    rfl
  have hindex : (t.file l.file).index = l.fileIndex := by rw [hc.file l hl, h.index l hl]
  obtain ⟨b, hb, -, hle, -⟩ := h.stored l hl
  obtain ⟨b₁, hb₁, htake, hle₁⟩ := hc.kept l hl b hb
  have hlt := h.lt_nextAppend hl
  rw [← hc.file l hl] at htake hle₁ hlt
  obtain ⟨d, hdisk, hends, hfiles⟩ := truncate_closes (s := t) (p := l.file) (b := b₁)
    (by rw [hindex]; exact hb₁) (by omega) hle₁
  obtain ⟨hsome, hkeptFiles⟩ := hfiles (by omega)
  obtain ⟨b₂, rfl⟩ := Option.isSome_iff_exists.1 hsome
  have hends := hends b₂ rfl
  rw [hindex] at hdisk
  have hfile : ∀ q, (t.truncate l.file).file q = t.file q := fun q => by
    rw [Journal.file, hkeptFiles, Journal.file]
  obtain ⟨files, disk, -, hframe⟩ := t.truncate_frame l.file
  rw [Journal.drop, if_neg (by rw [hopen]; decide)]
  -- an event of the same file, and its place for the next one
  have hsame : ∀ m ∈ s.eventLocations, m.fileIndex = l.fileIndex →
      (s.file m.file).nextAppend = (t.file l.file).nextAppend := fun m hm heq => by
    rw [hc.file l hl, (h.file_eq_iff hm hl).2 heq]
  refine { eventLocations := by rw [hframe]; exact hc.eventLocations
           timebasedReplay := by rw [hframe]; exact hc.timebasedReplay
           external := by rw [hframe]; exact hc.external
           file := fun m hm => (hfile m.file).trans (hc.file m hm)
           other := fun i hne => ?_, kept := fun m hm b' hb' => ?_, closed := fun m hm b' hb' => ?_ }
  · rw [hdisk, Function.update_of_ne (hne l hl).symm]
    exact hc.other i hne
  · rw [hdisk]
    by_cases heq : m.fileIndex = l.fileIndex
    · rw [heq, hb] at hb'
      cases hb'
      rw [heq, Function.update_self, hsame m hm heq]
      exact ⟨b₂, rfl, hends.take.trans htake, hends.length⟩
    · rw [Function.update_of_ne heq]
      exact hc.kept m hm b' hb'
  · rw [hdisk] at hb'
    have hm' : m ∈ s.eventLocations := by
      rcases List.mem_cons.1 hm with rfl | hm
      · exact hl
      · exact hdone m hm
    by_cases heq : m.fileIndex = l.fileIndex
    · rw [heq, Function.update_self] at hb'
      cases hb'
      rw [hsame m hm' heq]
      exact hends.stop
    · rw [Function.update_of_ne heq] at hb'
      refine hc.closed m ((List.mem_cons.1 hm).resolve_left fun hml => heq (by rw [hml])) b' hb'

theorem Closing.dropAll (h : s.Durable) {done : List Location} (hc : Closing s done t)
    (hdone : ∀ m ∈ done, m ∈ s.eventLocations) {ls : List Location}
    (hls : ∀ l ∈ ls, l ∈ s.eventLocations) : ∃ done', (∀ l ∈ ls, l ∈ done') ∧
      (∀ l ∈ done, l ∈ done') ∧ Closing s done' (t.dropAll ls) := by
  induction ls generalizing t done with
  | nil => exact ⟨done, fun l hl => (by cases hl), fun _ hl => hl, hc⟩
  | cons l ls ih =>
    have hl := hls l List.mem_cons_self
    have hdone' : ∀ m ∈ l :: done, m ∈ s.eventLocations := fun m hm => by
      rcases List.mem_cons.1 hm with rfl | hm
      · exact hl
      · exact hdone m hm
    obtain ⟨done', hin, hkeep, hclosed⟩ := ih (hc.drop h hdone hl) hdone'
      fun l' hl' => hls l' (List.mem_cons_of_mem _ hl')
    refine ⟨done', fun m hm => ?_, fun m hm => hkeep m (List.mem_cons_of_mem _ hm), hclosed⟩
    rcases List.mem_cons.1 hm with rfl | hm
    · exact hkeep m List.mem_cons_self
    · exact hin m hm

/-- The directory `D` has the files of the journal `s`, and they end where their events do. -/
structure Leaves (s : Journal) (D : ℕ → Option Bytes) : Prop where
  other : ∀ i b, D i = some b → (∀ l ∈ s.eventLocations, l.fileIndex ≠ i) →
    ∀ now, EventFile.liveOffsets now b = []
  file : ∀ l ∈ s.eventLocations, ∃ b b', s.disk l.fileIndex = some b ∧ D l.fileIndex = some b' ∧
    EndsAt b b' (s.file l.file).nextAppend

/-- **What the destructor leaves.** -/
theorem Durable.close (h : s.Durable) : Leaves s s.close.disk ∧ s.close.external = s.external := by
  have hstart : Closing s [] { s with eventLocations := [], timebasedReplay := [] } :=
    { eventLocations := rfl
      timebasedReplay := rfl
      external := rfl
      file := fun _ _ => rfl
      other := fun _ _ => rfl
      kept := fun l hl b hb => by
        obtain ⟨b', hb', -, hle, -⟩ := h.stored l hl
        rw [hb] at hb'
        cases hb'
        exact ⟨b, hb, rfl, hle⟩
      closed := fun l hl => by cases hl }
  have hall : ∀ l ∈ s.eventLocations ++ s.timebasedReplay, l ∈ s.eventLocations := fun l hl => by
    rcases List.mem_append.1 hl with hl | hl
    · exact hl
    · exact (h.locations l).2 hl
  obtain ⟨done, hdone, -, hclosed⟩ := hstart.dropAll h (fun m hm => by cases hm) hall
  refine ⟨⟨fun i b hb hne now => ?_, fun l hl => ?_⟩, hclosed.external⟩
  · refine h.cleared i b ?_ hne now
    rw [← hclosed.other i hne]
    exact hb
  · obtain ⟨b, hb, -⟩ := h.stored l hl
    obtain ⟨b', hb', htake, hle⟩ := hclosed.kept l hl b hb
    exact ⟨b, b', hb, hb', htake, hle, hclosed.closed l (hdone l (List.mem_append_left _ hl)) b' hb'⟩

/-! ### What a reader finds in the directory -/

section Leaves

variable {b b' : Bytes}

/-- A live event is in the bytes that are left of its file. -/
theorem Leaves.slice (h : s.Durable) (hD : Leaves s D) (hl : l ∈ s.eventLocations)
    (hb : s.disk l.fileIndex = some b) (hb' : D l.fileIndex = some b') :
    b'.take (l.offset + l.size) = b.take (l.offset + l.size) ∧
      l.offset + l.size ≤ b'.length ∧ EventFile.HasHeader b' := by
  obtain ⟨b₁, b₁', hb₁, hb₁', hends⟩ := hD.file l hl
  obtain ⟨b₂, hb₂, hheader, -, -, hoffset⟩ := h.stored l hl
  rw [hb] at hb₁ hb₂
  rw [hb'] at hb₁'
  cases hb₁
  cases hb₂
  cases hb₁'
  have hbelow := h.below l hl
  have hlt := h.lt_nextAppend hl
  have htake : ∀ n ≤ (s.file l.file).nextAppend, b'.take n = b.take n := fun n hn => by
    have heq := congrArg (List.take n) hends.take
    rwa [List.take_take, List.take_take, Nat.min_eq_left hn] at heq
  refine ⟨htake _ hbelow, hbelow.trans hends.length, ?_, ?_⟩
  · have := hends.length
    omega
  · rw [htake 6 (by omega), hheader.2]

/-- The live event that the reader comes to in the file that was closed is the one that it comes to in
the file of the journal. -/
theorem Leaves.mem_liveOffsets (h : s.Durable) (hD : Leaves s D) (hl : l ∈ s.eventLocations)
    (hb : s.disk l.fileIndex = some b) (hb' : D l.fileIndex = some b') :
    l.offset ∈ EventFile.liveOffsets now b' ↔
      EventFile.Reaches now b 8 l.offset ∧ EventFile.Valid now b l.offset := by
  obtain ⟨htake, hlen, hheader⟩ := hD.slice h hl hb hb'
  obtain ⟨b₁, lives, hb₁, htiling, hmem⟩ := h.tiled l hl
  obtain ⟨b₂, hb₂, -, -, hholds, -⟩ := h.stored l hl
  rw [hb] at hb₁ hb₂
  cases hb₁
  cases hb₂
  obtain ⟨-, -, -, hlive⟩ := htiling.mem_le ((hmem l.offset).2 ⟨l, hl, rfl, rfl⟩)
  have hprefix := hholds.prefixed
  have hwithin := hholds.within
  have hsizeEq := hholds.size
  have hshort : b'.take l.offset = b.take l.offset := by
    have heq := congrArg (List.take l.offset) htake
    rwa [List.take_take, List.take_take, Nat.min_eq_left (by omega)] at heq
  have hsame := EventFile.sameHeader
    (EventFile.slice_eq_of_take (i := l.offset) (m := 32) htake (by omega)) le_rfl
  rw [EventFile.mem_liveOffsets hheader]
  constructor
  · rintro ⟨hr, hvalid, -⟩
    exact ⟨hr.of_take hshort.symm (by omega), hsame.valid hvalid (by omega)⟩
  · rintro ⟨hr, hvalid⟩
    refine ⟨hr.of_take hshort (by omega), hsame.symm.valid hvalid ?_, hsame.live_iff.2 hlive⟩
    rw [hsame.size]
    omega

/-- The reader finds live events of the journal only. -/
theorem Leaves.exists_of_mem (h : s.Durable) (hD : Leaves s D) (hl : l ∈ s.eventLocations)
    (hb' : D l.fileIndex = some b') {o : ℕ} (ho : o ∈ EventFile.liveOffsets now b') :
    ∃ m ∈ s.eventLocations, m.fileIndex = l.fileIndex ∧ m.offset = o := by
  obtain ⟨b, lives, hb, htiling, hmem⟩ := h.tiled l hl
  obtain ⟨b₁, b₁', hb₁, hb₁', hends⟩ := hD.file l hl
  obtain ⟨-, -, hheader⟩ := hD.slice h hl hb hb'
  rw [hb] at hb₁
  rw [hb'] at hb₁'
  cases hb₁
  cases hb₁'
  obtain ⟨hr, hvalid, hlive⟩ := (EventFile.mem_liveOffsets hheader).1 ho
  exact (hmem o).1 ((htiling.of_take hends.take).mem_of_reaches (hends.stop now) hr hvalid hlive)

end Leaves

/-! ### Reading the directory -/

/-- The journal `u` has read the files before `k` of the directory `D`, which the journal `s` left: it
has the events of `s` that can be read. -/
structure Restoring (now : ℤ) (s : Journal) (D : ℕ → Option Bytes) (k : ℕ) (u : Journal) : Prop where
  options : u.options = s.options
  external : u.external = s.external
  unopened : ∀ i, k ≤ i → u.eventFiles.getD i none = none
  disk : ∀ i, k ≤ i → u.disk i = D i
  made : ∀ m ∈ u.eventLocations, m.file < u.files.length ∧ (u.file m.file).index = m.fileIndex ∧
    m.fileIndex < k
  replay : ∀ r ∈ u.timebasedReplay, r ∈ u.eventLocations
  same : ∃ olds, List.Forall₂ (SameEvent s u) olds u.eventLocations ∧
    ∀ l, l ∈ olds ↔ l ∈ s.eventLocations ∧ l.fileIndex < k ∧ Readable now s l

/-- The file `k` was read: the events `ms` were found in it, which are the events `olds` of `s`. -/
theorem Restoring.next (h : Restoring now s D k u) (ms olds : List Location)
    (hlocations : v.eventLocations = u.eventLocations ++ ms)
    (hreplay : ∀ r ∈ v.timebasedReplay, r ∈ u.timebasedReplay ∨ r ∈ ms)
    (hoptions : v.options = u.options) (hexternal : v.external = u.external)
    (hunopened : ∀ i, k + 1 ≤ i → v.eventFiles.getD i none = none)
    (hlen : u.files.length ≤ v.files.length)
    (hfile : ∀ q < u.files.length, v.file q = u.file q)
    (hdisk : ∀ i, i ≠ k → v.disk i = u.disk i)
    (hms : ∀ m ∈ ms, m.file < v.files.length ∧ (v.file m.file).index = k ∧ m.fileIndex = k)
    (hsame : List.Forall₂ (SameEvent s v) olds ms)
    (holds : ∀ l, l ∈ olds ↔ l ∈ s.eventLocations ∧ l.fileIndex = k ∧ Readable now s l) :
    Restoring now s D (k + 1) v := by
  obtain ⟨olds', hsame', holds'⟩ := h.same
  refine { options := hoptions.trans h.options, external := hexternal.trans h.external
           unopened := hunopened, disk := fun i hi => ?_, made := ?_, replay := ?_
           same := ⟨olds' ++ olds, ?_, fun l => ?_⟩ }
  · rw [hdisk i (by omega), h.disk i (by omega)]
  · rw [hlocations]
    intro m hm
    rcases List.mem_append.1 hm with hm | hm
    · obtain ⟨hlt, hindex, hk⟩ := h.made m hm
      rw [hfile _ hlt]
      exact ⟨by omega, hindex, by omega⟩
    · obtain ⟨hlt, hindex, hk⟩ := hms m hm
      exact ⟨hlt, hindex.trans hk.symm, by omega⟩
  · rw [hlocations]
    intro r hr
    rcases hreplay r hr with hr | hr
    · exact List.mem_append_left _ (h.replay r hr)
    · exact List.mem_append_right _ hr
  · rw [hlocations]
    refine List.rel_append ?_ hsame
    have hlt : ∀ l ∈ olds', l.fileIndex < k := fun l hl => ((holds' l).1 hl).2.1
    refine ((List.forall₂_and_left _ _).2 ⟨hlt, hsame'⟩).imp fun l m => ?_
    rintro ⟨hl, heq, b, b', hb, hb', hslice⟩
    exact ⟨heq, b, b', hb, (hdisk _ hl.ne).trans hb', hslice⟩
  · rw [List.mem_append, holds', holds]
    constructor
    · rintro (⟨hl, hk, hr⟩ | ⟨hl, hk, hr⟩)
      · exact ⟨hl, by omega, hr⟩
      · exact ⟨hl, by omega, hr⟩
    · rintro ⟨hl, hk, hr⟩
      rcases Nat.lt_succ_iff_lt_or_eq.1 hk with hk | hk
      · exact .inl ⟨hl, hk, hr⟩
      · exact .inr ⟨hl, hk, hr⟩

/-- The events that were found are events of the journal, in files that were read before. -/
theorem Restoring.exists_old (h : Restoring now s D k u) (hm : m ∈ u.eventLocations) :
    ∃ l ∈ s.eventLocations, l.fileIndex < k ∧ m.requestId = l.requestId ∧
      m.eventTime = l.eventTime := by
  obtain ⟨olds, hsame, holds⟩ := h.same
  obtain ⟨l, hl, heq, -⟩ := exists_of_mem_right hsame hm
  obtain ⟨hl, hk, -⟩ := (holds l).1 hl
  exact ⟨l, hl, hk, by rw [heq], by rw [heq]⟩

/-- The events of the next file. -/
theorem Restoring.loadable (h : s.Durable) (hD : Leaves s D) (hr : Restoring now s D k u) {b' : Bytes}
    (hb' : D k = some b') : Loadable (u.opened k b') u.files.length k b'
      (s.eventLocations.filter (·.fileIndex = k)) := by
  have hmem : ∀ l, l ∈ s.eventLocations.filter (·.fileIndex = k) ↔
      l ∈ s.eventLocations ∧ l.fileIndex = k := fun l => by
    rw [List.mem_filter, decide_eq_true_iff]
  refine { made := ?_, holds := fun l hl => ?_, ids := fun l hl e he heq => ?_
           idInj := fun l hl l' hl' heq => ?_, timeInj := fun l hl l' hl' heq => ?_
           replay := fun l hl r hr' heq => ?_ }
  · rw [Journal.opened, List.length_append, List.length_singleton]
    omega
  · obtain ⟨hl', rfl⟩ := (hmem l).1 hl
    obtain ⟨b, hb, -, -, hholds, -⟩ := h.stored l hl'
    obtain ⟨htake, hlen, -⟩ := hD.slice h hl' hb hb'
    exact ⟨hholds.of_slice (EventFile.slice_eq_of_take htake le_rfl) hlen l.file, rfl⟩
  · obtain ⟨hl', hk⟩ := (hmem l).1 hl
    obtain ⟨old, hold, hlt, hid, -⟩ := hr.exists_old he
    have hsame := h.eq_of_requestId hold hl' (hid.symm.trans heq)
    rw [hsame] at hlt
    omega
  · exact h.eq_of_requestId ((hmem l).1 hl).1 ((hmem l').1 hl').1 heq
  · exact h.eq_of_eventTime ((h.locations l).1 ((hmem l).1 hl).1)
      ((h.locations l').1 ((hmem l').1 hl').1) heq
  · obtain ⟨hl', hk⟩ := (hmem l).1 hl
    obtain ⟨old, hold, hlt, -, htime⟩ := hr.exists_old (hr.replay r hr')
    have hsame := h.eq_of_eventTime ((h.locations old).1 hold) ((h.locations l).1 hl')
      (htime.symm.trans heq)
    rw [hsame] at hlt
    omega

/-- A new object that goes away changes its file only. -/
theorem drop_opened (u : Journal) (k : ℕ) (b : Bytes) (c : Bool) : ∃ f d,
    drop { u.opened k b with canBeCompressed := c } u.files.length =
      { u with
        canBeCompressed := c
        files := u.files ++ [f]
        eventFiles := u.eventFiles.set k (some u.files.length)
        disk := Function.update u.disk k d } := by
  unfold drop
  split
  · exact ⟨{ index := k }, some b, rfl⟩
  · obtain ⟨f, d, -, heq⟩ := truncate_eq { u.opened k b with canBeCompressed := c } u.files.length
    have hself : file { u.opened k b with canBeCompressed := c } u.files.length = { index := k } :=
      file_opened_self u k b
    rw [heq, hself]
    refine ⟨f, d, ?_⟩
    simp [Journal.opened, Function.update_idem]

/-- No event is found in the next file. -/
theorem Restoring.closed (hr : Restoring now s D k u)
    (hnone : ∀ l ∈ s.eventLocations, l.fileIndex = k → ¬ Readable now s l) (c : Bool) (b : Bytes) :
    Restoring now s D (k + 1) (drop { u.opened k b with canBeCompressed := c } u.files.length) := by
  obtain ⟨f, d, heq⟩ := drop_opened u k b c
  rw [heq]
  refine hr.next [] [] (List.append_nil _).symm (fun r hr => .inl hr) rfl rfl
    (fun i hi => ?_) ?_ (fun q hq => ?_) (fun i hi => Function.update_of_ne hi _ _)
    (fun m hm => by cases hm) .nil fun l => ?_
  · exact (List.getD_set_ne (by omega) _ _ _).trans (hr.unopened i (by omega))
  · change u.files.length ≤ (u.files ++ [f]).length
    rw [List.length_append]
    omega
  · rw [file, file, List.getD_eq_getElem?_getD, List.getD_eq_getElem?_getD,
      List.getElem?_append_left hq]
  · refine iff_of_false List.not_mem_nil ?_
    rintro ⟨hl, hk, hread⟩
    exact hnone l hl hk hread

/-- The events of the next file are read. -/
theorem Restoring.loaded (h : s.Durable) (hD : Leaves s D) (hr : Restoring now s D k u) {b' : Bytes}
    (hb' : D k = some b') (hl : l ∈ s.eventLocations) (hk : l.fileIndex = k) :
    Restoring now s D (k + 1) ((loadEvents now false k u.files.length b'.length
      (loading (u.opened k b') u.files.length k u.canBeCompressed [] 0 b') 8 none).drop
        u.files.length) := by
  subst hk
  obtain ⟨b, hb, -⟩ := h.stored l hl
  have hheader := (hD.slice h hl hb hb').2.2
  have hloadable := hr.loadable h hD hb'
  have hmem : ∀ m, m ∈ s.eventLocations.filter (·.fileIndex = l.fileIndex) ↔
      m ∈ s.eventLocations ∧ m.fileIndex = l.fileIndex := fun m => by
    rw [List.mem_filter, decide_eq_true_iff]
  have hlive : EventFile.liveFrom now b' b'.length 8 = EventFile.liveOffsets now b' := by
    rw [EventFile.liveOffsets, if_pos hheader]
  obtain ⟨c, offset, tellp, olds, ms, nextAppend, b₁, heq, hp, -, hmap, hnil⟩ :=
    loadEvents_eq hloadable b'.length u.canBeCompressed (progress_nil false _ b' _ 0)
      (chained_nil now false 0 b') fun o ho => by
        obtain ⟨m, hm, hindex, hoffset⟩ := hD.exists_of_mem h hl hb' (hlive ▸ ho)
        exact ⟨m, (hmem m).2 ⟨hm, hindex⟩, hoffset⟩
  rw [List.map_nil, List.nil_append, hlive] at hmap
  -- what was found are the events that the reader reaches
  have holds : ∀ m, m ∈ olds ↔
      m ∈ s.eventLocations ∧ m.fileIndex = l.fileIndex ∧ Readable now s m := by
    intro m
    constructor
    · intro hm
      obtain ⟨hm', hindex⟩ := (hmem m).1 (hp.known m hm).1
      refine ⟨hm', hindex, fun b₂ hb₂ => ?_⟩
      rw [← hD.mem_liveOffsets h hm' hb₂ (hindex ▸ hb'), ← hmap]
      exact List.mem_map.2 ⟨m, hm, rfl⟩
    · rintro ⟨hm, hindex, hread⟩
      have hbm : s.disk m.fileIndex = some b := hindex ▸ hb
      have hoffset := (hD.mem_liveOffsets h hm hbm (hindex ▸ hb')).2 (hread b hbm)
      rw [← hmap] at hoffset
      obtain ⟨m', hm', hoffset⟩ := List.mem_map.1 hoffset
      obtain ⟨hmem', hindex'⟩ := (hmem m').1 (hp.known m' hm').1
      rwa [← h.eq_of_offset hmem' hm (hindex'.trans hindex.symm) hoffset]
  rw [heq]
  rcases ms.eq_nil_or_concat with rfl | ⟨ms', m', hms⟩
  · obtain ⟨rfl, rfl⟩ := hnil rfl
    have holdsNil := List.forall₂_nil_right_iff.1 hp.moved
    have hself : (u.opened l.fileIndex b₁).setFile u.files.length { index := l.fileIndex } =
        u.opened l.fileIndex b₁ := by
      rw [setFile, ← file_opened_self u l.fileIndex b₁, set_file_self]
    have hnone := loading_nil (s := u.opened l.fileIndex b₁) (p := u.files.length) (c := c)
      (f := { index := l.fileIndex }) rfl (Function.update_self ..)
    rw [hself] at hnone
    rw [hnone]
    refine hr.closed (fun m hm hindex hread => ?_) c b₁
    have := (holds m).2 ⟨hm, hindex, hread⟩
    rw [holdsNil] at this
    cases this
  · have hfileIndex : ∀ m ∈ ms, m.fileIndex = l.fileIndex ∧ m.file = u.files.length := by
      intro m hm
      obtain ⟨old, hold, hmo, -⟩ := exists_of_mem_right hp.moved hm
      rw [hmo]
      exact ⟨((holds old).1 hold).2.1, rfl⟩
    have hm' : m' ∈ ms := by rw [hms]; simp
    have hopen : (loading (u.opened l.fileIndex b') u.files.length l.fileIndex c ms nextAppend
        b₁).isOpen u.files.length = true := by
      rw [← (hfileIndex m' hm').2]
      exact isOpen_of_mem (List.mem_append_right _ hm')
    rw [drop_of_isOpen hopen]
    refine hr.next ms olds rfl (fun r hr => ?_) rfl rfl (fun i hi => ?_) ?_
      (fun q hq => ?_) (fun i hi => ?_) (fun m hm => ?_) ?_ holds
    · exact (List.mem_append.1 hr).imp_left List.mem_of_mem_filter
    · exact (List.getD_set_ne (by omega) _ _ _).trans (hr.unopened i (by omega))
    · change u.files.length ≤ (List.set _ _ _).length
      rw [List.length_set, Journal.opened, List.length_append]
      omega
    · exact (List.getD_set_ne (by omega) _ _ _).trans (file_opened u hq _ _)
    · exact (Function.update_of_ne hi _ _).trans (Function.update_of_ne hi _ _)
    · obtain ⟨hindex, hfile⟩ := hfileIndex m hm
      rw [hfile]
      refine ⟨?_, congrArg JournalFile.index (file_loading hloadable.made), hindex⟩
      exact (List.length_set ..).symm ▸ hloadable.made
    · refine ((List.forall₂_and_left _ _).2
        ⟨fun m hm => (holds m).1 hm, hp.moved⟩).imp fun m n => ?_
      rintro ⟨⟨hm, hindex, -⟩, hmo, hslice⟩
      have hbm : s.disk m.fileIndex = some b := hindex ▸ hb
      obtain ⟨htake, -⟩ := hD.slice h hm hbm (hindex ▸ hb')
      refine ⟨by rw [hmo], b, b₁, hbm, ?_, ?_⟩
      · rw [hindex]
        exact Function.update_self ..
      · rw [hslice]
        exact EventFile.slice_eq_of_take htake le_rfl

/-- The next file is read. -/
theorem Restoring.step (h : s.Durable) (hD : Leaves s D) (hr : Restoring now s D k u) :
    Restoring now s D (k + 1) (loadFile now false u k) := by
  have hlock : u.lock k = none := by
    rw [lock, hr.unopened k le_rfl]
    rfl
  obtain ⟨q, hq, -⟩ | ⟨-, hdisk, -, heq⟩ | ⟨-, b', hb', heq⟩ := u.openFile_cases k false
  · rw [hlock] at hq
    cases hq
  · -- no such file
    rw [show loadFile now false u k = u by rw [loadFile, heq]]
    refine hr.next [] [] (List.append_nil _).symm (fun r hr => .inl hr) rfl rfl
      (fun i hi => hr.unopened i (by omega)) le_rfl (fun _ _ => rfl) (fun _ _ => rfl)
      (fun m hm => by cases hm) .nil fun l => iff_of_false List.not_mem_nil ?_
    rintro ⟨hl, rfl, -⟩
    obtain ⟨b, b', -, hb', -⟩ := hD.file l hl
    rw [← hr.disk _ le_rfl, hdisk] at hb'
    cases hb'
  · have hD' : D k = some b' := by
      rw [← hr.disk k le_rfl]
      rcases hb' with hb' | ⟨-, hcreate, -⟩
      · exact hb'
      · cases hcreate
    by_cases hsome : ∃ l ∈ s.eventLocations, l.fileIndex = k
    · obtain ⟨l, hl, hk⟩ := hsome
      obtain ⟨b, hb, -⟩ := h.stored l hl
      rw [loadFile_new heq, if_pos (hD.slice h hl hb (hk ▸ hD')).2.2]
      exact hr.loaded h hD hD' hl hk
    · have hne : ∀ l ∈ s.eventLocations, l.fileIndex ≠ k := fun l hl hk => hsome ⟨l, hl, hk⟩
      obtain ⟨c, hload⟩ := loadFile_opened false heq (hD.other k b' hD' hne now)
      rw [hload]
      exact hr.closed (fun l hl hk => absurd hk (hne l hl)) c b'

/-- The files are read one after the other. -/
theorem Restoring.run (h : s.Durable) (hD : Leaves s D) (hr : Restoring now s D 0 u) (n : ℕ) :
    Restoring now s D n ((List.range n).foldl (loadFile now false) u) := by
  induction n with
  | zero => exact hr
  | succ n ih =>
    rw [List.range_succ, List.foldl_append]
    exact ih.step h hD

/-- **The events of a journal that was closed and opened again** are those that a reader comes to. -/
theorem Durable.events_reopen (h : s.Durable) (now : ℤ) : (s.reopen now).events =
    {e | ∃ l ∈ s.eventLocations, Readable now s l ∧ Replay.outEvent s l = e} := by
  obtain ⟨hD, hexternal⟩ := h.close
  have hstart : Restoring now s s.close.disk 0
      { options := s.options
        eventFiles := List.replicate s.options.maximumNumberOfFiles none
        disk := s.close.disk, external := s.close.external } :=
    { options := rfl
      external := hexternal
      unopened := fun i _ => by
        rw [List.getD_eq_getElem?_getD, List.getElem?_replicate]
        split <;> rfl
      disk := fun _ _ => rfl
      made := fun m hm => by cases hm
      replay := fun r hr => by cases hr
      same := ⟨[], .nil, fun l => by simp⟩ }
  have hread := hstart.run h hD s.options.maximumNumberOfFiles
  change Restoring now s s.close.disk s.options.maximumNumberOfFiles (s.reopen now) at hread
  obtain ⟨olds, hsame, holds⟩ := hread.same
  ext e
  constructor
  · rintro ⟨m, hm, rfl⟩
    obtain ⟨l, hl, hlm⟩ := exists_of_mem_right hsame hm
    obtain ⟨hl, -, hr⟩ := (holds l).1 hl
    exact ⟨l, hl, hr, (hlm.outEvent_eq h hl (hread.made m hm).2.1 hread.external).symm⟩
  · rintro ⟨l, hl, hr, rfl⟩
    obtain ⟨m, hm, hlm⟩ := exists_of_mem_left hsame ((holds l).2 ⟨hl, (h.linked l hl).1, hr⟩)
    exact ⟨m, hm, hlm.outEvent_eq h hl (hread.made m hm).2.1 hread.external⟩

/-- **Closing and reopening keeps the live events** when a reader comes to each of them. -/
theorem Durable.persists_iff (h : s.Durable) : Persists s now ↔ s.Legible now := by
  rw [h.legible_iff, Persists, h.events_reopen]
  constructor
  · intro heq l hl
    have hmem : Replay.outEvent s l ∈ s.events := ⟨l, hl, rfl⟩
    rw [← heq] at hmem
    obtain ⟨m, hm, hr, hml⟩ := hmem
    rwa [h.toSound.outEvent_inj hm hl hml] at hr
  · intro hr
    ext e
    constructor
    · rintro ⟨l, hl, -, he⟩
      exact ⟨l, hl, he⟩
    · rintro ⟨l, hl, he⟩
      exact ⟨l, hl, hr l hl, he⟩

/-- **The events of a journal are still there when it is opened again**, in every state of a run whose
calls are tidy, exactly when each event up to a live one has data and is not in the future. -/
theorem persists_run (options : JournalOptions) (external : ExternalFiles) (now : ℤ)
    (calls : List EventCall)
    (h : Run.Each EventCall.Tidy EventCall.step (construct options (fun _ => none) external now)
      calls) :
    Run.Always (fun s => ∀ now', Persists s now' ↔ s.Legible now') EventCall.step
      (construct options (fun _ => none) external now) calls :=
  always_of_tidy (fun _ hs _ => hs.toDurable.persists_iff) options external now calls h

theorem persists_run_few : Run.Always (fun s => ∀ now', Persists s now' ↔ s.Legible now')
    EventCall.step (construct twoFiles (fun _ => none) ⟨0, fun _ => none⟩ 100) fewCalls :=
  persists_run twoFiles ⟨0, fun _ => none⟩ 100 fewCalls tidy_fewCalls

/-- An event without attachments is not found when the journal is opened again. -/
theorem not_persists : ¬ ∀ options external now calls, Run.Always
    (fun s => ∀ now', (∀ l ∈ s.eventLocations, l.eventTime ≤ now') → Persists s now')
    EventCall.step (construct options (fun _ => none) external now) calls := by
  intro h
  have hlost := (h twoFiles ⟨0, fun _ => none⟩ 100 [.addEvent 100 ⟨[65], [], by decide⟩ 90]).foldl
    100 (by decide)
  exact events_ne (by decide) (by decide) hlost

end Journal

end Prinbee
