import Prinbee.Journal.Ledger
import Prinbee.Journal.Unchanged

/-!
# The journal refines the ledger

The files, the offsets and the compressions do not show: as long as no identifier of a large attachment
comes again, each call of the journal does on its events what a ledger says.  An event that is written
or changed leaves the bytes of the others, and those of its own attachments, where they are, because
no attachment begins in a header.

## Main definitions

* `Journal.ledger` — the live events by their identifiers.
* `Journal.Settled` — the offsets of the attachments lead behind the headers, or to files that were made.
* `Journal.Kept` — the bytes of an event but for its status are the same.
* `EventCall.Numbered` — the identifiers of the large attachments do not come again.

## Main results

* `Journal.Kept.outEvent` — what a client reads of an event that was kept.
* `Journal.Settled.event` — every call keeps the offsets in order.
* `Journal.ledger_run` — **a run of the journal is a run on a ledger**.
* `Journal.added_run` — **an event that was added stays until it is completed or failed**.
-/

namespace Prinbee

open UInt512 (ofBytes toBytes)

/-- What a client reads of an event, besides its identifier. -/
def OutEvent.entry (e : OutEvent) : Ledger.Entry where
  status := e.status
  eventTime := e.eventTime
  attachments := e.attachments

namespace Journal

/-- The live events, by their identifiers. -/
def ledger (s : Journal) : Ledger := fun id =>
  (s.eventLocations.find? (·.requestId = id)).map fun l => (Replay.outEvent s l).entry

/-- An offset leads behind the header of its event, or to a file that was made. -/
def Leads (counter o : ℕ) : Prop := if 2 ^ 31 ≤ o then o - 2 ^ 31 ≤ counter else 32 ≤ o

/-- The offsets of the attachments lead behind the headers, or to files that were made. -/
structure Settled (s : Journal) : Prop extends Durable s where
  leads : ∀ l ∈ s.eventLocations, ∀ b, s.disk l.fileIndex = some b →
    ∀ o ∈ EventFile.attachmentOffsets b l.offset l.attachmentCount, Leads s.external.counter o

/-- The bytes of an event but for its status are the same, wherever they are, and so are the files of
the large attachments. -/
structure Kept (s s' : Journal) (l m : Location) : Prop where
  same : m = { l with file := m.file, offset := m.offset, status := m.status }
  counter : s.external.counter ≤ s'.external.counter
  external : ∀ i ≤ s.external.counter, s'.external.content i = s.external.content i
  bytes : ∃ b b', s.disk l.fileIndex = some b ∧ s'.disk l.fileIndex = some b' ∧
    ∀ i n, 3 ≤ i → i + n ≤ l.size → b'.slice (m.offset + i) n = b.slice (l.offset + i) n

variable {s s' : Journal} {l m : Location} {p : ℕ}

/-! ### The ledger -/

theorem ledger_eq_some (h : s.Sound) {id : Bytes} {e : Ledger.Entry} : s.ledger id = some e ↔
    ∃ l ∈ s.eventLocations, l.requestId = id ∧ (Replay.outEvent s l).entry = e := by
  rw [ledger, Option.map_eq_some_iff]
  refine exists_congr fun l => ?_
  rw [← and_assoc]
  refine and_congr_left fun _ => ⟨fun hfind => ?_, ?_⟩
  · exact ⟨List.mem_of_find?_eq_some hfind, by simpa using List.find?_some hfind⟩
  · rintro ⟨hl, rfl⟩
    cases hfind : s.eventLocations.find? fun m => m.requestId = l.requestId with
    | none => exact absurd (decide_eq_true rfl) (List.find?_eq_none.1 hfind l hl)
    | some m =>
      have hm : m.requestId = l.requestId := by simpa using List.find?_some hfind
      rw [h.eq_of_requestId (List.mem_of_find?_eq_some hfind) hl hm]

theorem ledger_eq_none (h : s.Sound) {id : Bytes} :
    s.ledger id = none ↔ ∀ l ∈ s.eventLocations, l.requestId ≠ id := by
  rw [Option.eq_none_iff_forall_ne_some]
  constructor
  · intro hnone l hl hid
    exact hnone _ ((ledger_eq_some h).2 ⟨l, hl, hid, rfl⟩)
  · intro hnone e he
    obtain ⟨l, hl, hid, -⟩ := (ledger_eq_some h).1 he
    exact hnone l hl hid

/-- The same live events are the same ledger. -/
theorem ledger_eq_of_events (h : s.Sound) (h' : s'.Sound) (heq : s'.events = s.events) :
    s'.ledger = s.ledger := by
  have hmem : ∀ {t : Journal}, t.Sound → ∀ id e, t.ledger id = some e ↔
      ∃ o ∈ t.events, o.requestId = id ∧ o.entry = e := by
    intro t ht id e
    rw [ledger_eq_some ht]
    constructor
    · rintro ⟨l, hl, hid, he⟩
      exact ⟨_, ⟨l, hl, rfl⟩, hid, he⟩
    · rintro ⟨o, ⟨l, hl, rfl⟩, hid, he⟩
      exact ⟨l, hl, hid, he⟩
  funext id
  apply Option.ext
  intro e
  rw [hmem h', hmem h, heq]

/-- A time that no event of the ledger has. -/
theorem free_ledger (h : s.Sound) {t : ℤ} :
    s.ledger.Free t ↔ ∀ r ∈ s.timebasedReplay, r.eventTime ≠ t := by
  constructor
  · intro hfree r hr
    have hl := (h.locations r).2 hr
    exact hfree r.requestId _ ((ledger_eq_some h).2 ⟨r, hl, rfl, rfl⟩)
  · intro hne id e he
    obtain ⟨l, hl, -, rfl⟩ := (ledger_eq_some h).1 he
    exact hne l ((h.locations l).1 hl)

/-! ### Events that are kept -/

theorem Leads.mono {c c' o : ℕ} (h : Leads c o) (hle : c ≤ c') : Leads c' o := by
  unfold Leads at h ⊢
  split
  · next ho =>
    rw [if_pos ho] at h
    exact h.trans hle
  · next ho =>
    rw [if_neg ho] at h
    exact h

theorem Kept.trans {s'' : Journal} {m' : Location} (h : Kept s s' l m) (h' : Kept s' s'' m m') :
    Kept s s'' l m' := by
  obtain ⟨b, b₁, hb, hb₁, hslice⟩ := h.bytes
  obtain ⟨b₁', b₂, hb₁', hb₂, hslice'⟩ := h'.bytes
  have hsize : m.size = l.size := by rw [h.same]
  have hindex : m.fileIndex = l.fileIndex := by rw [h.same]
  rw [hindex, hb₁] at hb₁'
  cases hb₁'
  rw [hindex] at hb₂
  refine ⟨?_, h.counter.trans h'.counter, fun i hi => ?_, b, b₂, hb, hb₂, fun i n hi hn => ?_⟩
  · rw [h'.same, h.same]
  · rw [h'.external i (hi.trans h.counter), h.external i hi]
  · rw [hslice' i n hi (by rw [hsize]; exact hn), hslice i n hi hn]

/-- An event that was moved. -/
theorem SameEvent.kept (h : SameEvent s s' l m) (hexternal : s'.external = s.external) :
    Kept s s' l m := by
  obtain ⟨hm, b, b', hb, hb', hslice⟩ := h
  refine ⟨?_, by rw [hexternal], fun _ _ => by rw [hexternal], b, b', hb, hb', fun i n _ hn => ?_⟩
  · have hstatus : m.status = l.status := by rw [hm]
    rw [hstatus]
    exact hm
  · exact EventFile.slice_eq_of_slice hslice hn

/-- The table of the offsets is the same. -/
theorem Kept.attachmentOffsets (hk : Kept s s' l m) {b b' : Bytes}
    (hb : s.disk l.fileIndex = some b) (hb' : s'.disk l.fileIndex = some b')
    (hheader : 32 + 4 * l.attachmentCount ≤ l.size) :
    EventFile.attachmentOffsets b' m.offset m.attachmentCount =
      EventFile.attachmentOffsets b l.offset l.attachmentCount := by
  obtain ⟨b₁, b₁', hb₁, hb₁', hslice⟩ := hk.bytes
  rw [hb] at hb₁
  rw [hb'] at hb₁'
  cases hb₁
  cases hb₁'
  have hcount : m.attachmentCount = l.attachmentCount := by rw [hk.same]
  rw [EventFile.attachmentOffsets, EventFile.attachmentOffsets, hcount]
  refine List.map_congr_left fun i hi => congrArg ofBytes ?_
  have hlt := List.mem_range.1 hi
  rw [Nat.add_assoc, Nat.add_assoc]
  exact hslice (32 + 4 * i) 4 (by omega) (by omega)

/-- The attachments at offsets that lead behind the header are the same. -/
theorem Kept.readAttachments (hk : Kept s s' l m) {b b' : Bytes} (hb : s.content l.file = b)
    (hb' : s'.content m.file = b')
    (hslice : ∀ i n, 3 ≤ i → i + n ≤ l.size → b'.slice (m.offset + i) n = b.slice (l.offset + i) n)
    {os : List ℕ} (hwithin : AttachmentsWithin l.size os)
    (hleads : ∀ o ∈ os, Leads s.external.counter o) :
    s'.readAttachments m os = s.readAttachments l os := by
  have hsize : m.size = l.size := by rw [hk.same]
  induction os with
  | nil => rfl
  | cons o os ih =>
    obtain ⟨hfirst, hrest⟩ := hwithin
    have hlead : Leads s.external.counter o := hleads o List.mem_cons_self
    rw [Journal.readAttachments, Journal.readAttachments,
      ih hrest fun o' ho' => hleads o' (List.mem_cons_of_mem _ ho'), hsize, hb, hb']
    refine congrArg (· :: s.readAttachments l os) ?_
    by_cases ho : 2 ^ 31 ≤ o
    · rw [Leads, if_pos ho] at hlead
      rw [if_pos ho, if_pos ho, hk.external _ hlead]
    · rw [Leads, if_neg ho] at hlead
      rw [if_neg ho, if_neg ho]
      exact congrArg some (hslice o (inlineSize l.size o os) (by omega) (hfirst (by omega)))

/-- **What a client reads of an event that was kept** is the same, but for its status. -/
theorem Kept.outEvent (hk : Kept s s' l m) (h : s.Settled) (h' : s'.Sound)
    (hl : l ∈ s.eventLocations) (hm : m ∈ s'.eventLocations) :
    Replay.outEvent s' m = { Replay.outEvent s l with status := m.status } := by
  obtain ⟨b, b', hb, hb', hslice⟩ := hk.bytes
  have hindex : m.fileIndex = l.fileIndex := by rw [hk.same]
  obtain ⟨b₁, -, -, -, hholds, -⟩ := h.stored l hl
  have hprefix := hholds.prefixed
  have hcontent := h.toSound.content_eq hl hb
  have hcontent' := h'.content_eq hm (by rw [hindex]; exact hb')
  have hoffsets : s'.attachmentOffsets m = s.attachmentOffsets l := by
    have htable := hk.attachmentOffsets hb hb' (by omega)
    rw [← hcontent, ← hcontent'] at htable
    exact htable
  have hread : s'.readData m = s.readData l := by
    rw [readData, readData, hoffsets]
    have htable : s.attachmentOffsets l = EventFile.attachmentOffsets b l.offset l.attachmentCount := by
      rw [← hcontent]
      rfl
    rw [htable]
    exact hk.readAttachments hcontent hcontent' hslice (h.intact l hl b hb) (h.leads l hl b hb)
  have hid : m.requestId = l.requestId := by rw [hk.same]
  have htime : m.eventTime = l.eventTime := by rw [hk.same]
  rw [Replay.outEvent, Replay.outEvent, hread, hid, htime]

/-- The offsets of events that were kept are in order. -/
theorem Kept.leads (hk : Kept s s' l m) (h : s.Settled) (hl : l ∈ s.eventLocations) {b' : Bytes}
    (hb' : s'.disk m.fileIndex = some b') :
    ∀ o ∈ EventFile.attachmentOffsets b' m.offset m.attachmentCount,
      Leads s'.external.counter o := by
  obtain ⟨b, -, hb, -⟩ := hk.bytes
  obtain ⟨b₁, -, -, -, hholds, -⟩ := h.stored l hl
  have hprefix := hholds.prefixed
  have hindex : m.fileIndex = l.fileIndex := by rw [hk.same]
  rw [hk.attachmentOffsets hb (by rw [← hindex]; exact hb') (by omega)]
  exact fun o ho => (h.leads l hl b hb o ho).mono hk.counter

/-- When the events but for one identifier are kept, the ledger changes there only. -/
theorem Settled.ledger_update (h : s.Settled) (h' : s'.Sound) {id : Bytes} {v : Option Ledger.Entry}
    (hkept : ∀ m ∈ s.eventLocations, m.requestId ≠ id → m ∈ s'.eventLocations ∧ Kept s s' m m)
    (hback : ∀ m ∈ s'.eventLocations, m.requestId ≠ id → m ∈ s.eventLocations)
    (hv : s'.ledger id = v) : s'.ledger = Function.update s.ledger id v := by
  funext i
  by_cases hi : i = id
  · rw [hi, Function.update_self, hv]
  have hsame : ∀ m ∈ s.eventLocations, m.requestId = i → m ∈ s'.eventLocations ∧
      Replay.outEvent s' m = Replay.outEvent s m := by
    intro m hm hid
    obtain ⟨hm', hk⟩ := hkept m hm (by rw [hid]; exact hi)
    exact ⟨hm', hk.outEvent h h' hm hm'⟩
  rw [Function.update_of_ne hi]
  apply Option.ext
  intro e
  rw [ledger_eq_some h', ledger_eq_some h.toSound]
  constructor
  · rintro ⟨m, hm', hid, rfl⟩
    have hm := hback m hm' (by rw [hid]; exact hi)
    exact ⟨m, hm, hid, congrArg OutEvent.entry (hsame m hm hid).2.symm⟩
  · rintro ⟨m, hm, hid, rfl⟩
    obtain ⟨hm', hout⟩ := hsame m hm hid
    exact ⟨m, hm', hid, congrArg OutEvent.entry hout⟩

/-- Looking for room keeps the events. -/
theorem Tried.kept (ht : Tried s s') (h : s.Durable) (hl : l ∈ s.eventLocations) : Kept s s' l l := by
  obtain ⟨b, hb, -⟩ := h.stored l hl
  have hdisk := (ht.outEvent_eq h hl).1
  exact SameEvent.kept ⟨rfl, b, b, hb, hdisk.trans hb, rfl⟩ ht.external

theorem Settled.tried (h : s.Settled) (ht : Tried s s') : s'.Settled := by
  refine { toDurable := h.toDurable.tried ht, leads := fun l hl b hb => ?_ }
  rw [ht.eventLocations] at hl
  exact (ht.kept h.toDurable hl).leads h hl hb

/-- Reading the files again keeps the events. -/
theorem Settled.loadEventLocations {now : ℤ} (h : s.Settled) (hs : s.Scannable now)
    (compress : Bool) : (s.loadEventLocations now compress).Settled := by
  obtain ⟨-, ⟨olds, hperm, hsame⟩, -, hexternal, -⟩ := h.toSound.loadEventLocations hs compress
  refine { toDurable := (h.toDurable.loadEventLocations hs compress).1, leads := fun m hm b hb => ?_ }
  obtain ⟨l, hl, hlm⟩ := exists_of_mem_right hsame hm
  exact (SameEvent.kept hlm hexternal).leads h (hperm.mem_iff.1 hl) hb

theorem Compressed.settled {now : ℤ} {s₀ : Journal} (hc : Compressed now s s₀) (h : s.Settled) :
    s₀.Settled := by
  cases hc with
  | no => exact h
  | once ht hs _ => exact (h.tried ht).loadEventLocations hs true

/-! ### A new event -/

section Placed

variable (threshold : ℕ)

/-- A large attachment makes a file. -/
theorem files_large {a : Bytes} (h : threshold ≤ a.length) (as : List Bytes) (size : ℕ)
    (x : ExternalFiles) : (placeAttachments threshold (a :: as) size x).2 =
      (placeAttachments threshold as size
        { counter := x.counter + 1
          content := Function.update x.content ((x.counter + 1) % 2 ^ 31) (some a) }).2 := by
  rw [placeAttachments, if_pos h]

theorem files_small {a : Bytes} (h : a.length < threshold) (as : List Bytes) (size : ℕ)
    (x : ExternalFiles) : (placeAttachments threshold (a :: as) size x).2 =
      (placeAttachments threshold as (size + a.length) x).2 := by
  rw [placeAttachments, if_neg (by omega)]

/-- Each large attachment takes the next identifier. -/
theorem counter_placeAttachments (as : List Bytes) (size : ℕ) (x : ExternalFiles) :
    x.counter ≤ (placeAttachments threshold as size x).2.counter ∧
      (placeAttachments threshold as size x).2.counter ≤ x.counter + as.length := by
  induction as generalizing size x with
  | nil => exact ⟨le_rfl, le_rfl⟩
  | cons a as ih =>
    rw [List.length_cons]
    rcases Nat.lt_or_ge a.length threshold with hsmall | hlarge
    · rw [files_small threshold hsmall]
      obtain ⟨hle, hle'⟩ := ih (size + a.length) x
      exact ⟨hle, by omega⟩
    · rw [files_large threshold hlarge]
      obtain ⟨hle, hle'⟩ := ih size
        { counter := x.counter + 1
          content := Function.update x.content ((x.counter + 1) % 2 ^ 31) (some a) }
      dsimp only at hle hle'
      exact ⟨by omega, by omega⟩

/-- As long as no identifier comes again, the files that were made stay. -/
theorem content_placeAttachments (as : List Bytes) (size : ℕ) (x : ExternalFiles)
    (hcounter : x.counter + as.length < 2 ^ 31) {i : ℕ} (hi : i ≤ x.counter) :
    (placeAttachments threshold as size x).2.content i = x.content i := by
  induction as generalizing size x with
  | nil => rfl
  | cons a as ih =>
    rw [List.length_cons] at hcounter
    rcases Nat.lt_or_ge a.length threshold with hsmall | hlarge
    · rw [files_small threshold hsmall]
      exact ih (size + a.length) x (by omega) hi
    · rw [files_large threshold hlarge]
      have hne : i ≠ (x.counter + 1) % 2 ^ 31 := by omega
      refine (ih size _ ?_ ?_).trans (Function.update_of_ne hne _ _)
      · change x.counter + 1 + as.length < 2 ^ 31
        omega
      · change i ≤ x.counter + 1
        omega

/-- The offsets of a new event lead behind its header, or to the files of its large attachments. -/
theorem leads_placed (as : List Bytes) (size : ℕ) (x : ExternalFiles) (hsize : 32 ≤ size)
    (hlt : size + (inlined threshold as).length < 2 ^ 31) :
    ∀ o ∈ (placeAttachments threshold as size x).1,
      Leads (placeAttachments threshold as size x).2.counter o := by
  induction as generalizing size x with
  | nil => exact fun o ho => by cases ho
  | cons a as ih =>
    intro o ho
    rcases Nat.lt_or_ge a.length threshold with hsmall | hlarge
    · rw [inlined_small hsmall, List.length_append] at hlt
      rw [placeAttachments_small hsmall] at ho
      rw [files_small threshold hsmall]
      rcases List.mem_cons.1 ho with rfl | ho
      · rw [Leads, if_neg (by omega)]
        exact hsize
      · exact ih (size + a.length) x (by omega) (by omega) o ho
    · rw [inlined_large hlarge] at hlt
      rw [placeAttachments_large hlarge] at ho
      rw [files_large threshold hlarge]
      rcases List.mem_cons.1 ho with rfl | ho
      · have hle := (counter_placeAttachments threshold as size
          { counter := x.counter + 1
            content := Function.update x.content ((x.counter + 1) % 2 ^ 31) (some a) }).1
        dsimp only at hle
        have hmod := Nat.mod_le (x.counter + 1) (2 ^ 31)
        generalize (placeAttachments threshold as size _).2.counter = counter at hle ⊢
        generalize (x.counter + 1) % 2 ^ 31 = identifier at hmod ⊢
        rw [Leads, if_pos (Nat.le_add_left _ _), Nat.add_sub_cancel]
        exact hmod.trans hle
      · exact ih size _ hsize hlt o ho

end Placed

/-- What a new event changes: its bytes stand behind those of the other events of its file. -/
structure Appends (s s' : Journal) (event : InEvent) (time : ℤ) (l : Location) : Prop where
  eventLocations : s'.eventLocations = s.eventLocations ++ [l]
  requestId : l.requestId = event.requestId
  eventTime : l.eventTime = time
  status : l.status = .ready
  attachmentCount : l.attachmentCount = event.attachments.length
  external : s'.external = (s.placed event).2
  bytes : ∃ b, s'.disk = Function.update s.disk l.fileIndex
      (some (b.overwrite l.offset (s.newBytes event time))) ∧ l.offset ≤ b.length ∧
    ∀ m ∈ s.eventLocations, m.fileIndex = l.fileIndex → s.disk m.fileIndex = some b ∧
      m.offset + m.size ≤ l.offset

/-- The object of a file is found or made: the options and the external files stay. -/
theorem openFile_external (s : Journal) {index : ℕ} {s₁ : Journal}
    (ho : s.openFile index true = (some p, s₁)) : s₁.external = s.external ∧
      s₁.options = s.options := by
  obtain ⟨q, -, heq⟩ | ⟨-, -, hcreate, -⟩ | ⟨-, b, -, heq⟩ := s.openFile_cases index true
  · rw [heq] at ho
    cases ho
    exact ⟨rfl, rfl⟩
  · cases hcreate
  · rw [heq] at ho
    cases ho
    exact ⟨rfl, rfl⟩

theorem Durable.appends (h : s.Durable)
    (hcurrent : s.currentFileIndex < s.options.maximumNumberOfFiles) {s₁ : Journal}
    (ho : s.openFile s.currentFileIndex true = (some p, s₁)) {event : InEvent} {time : ℤ}
    (hid : ∀ m ∈ s.eventLocations, m.requestId ≠ event.requestId)
    (htime : ∀ m ∈ s.timebasedReplay, m.eventTime ≠ time) :
    Appends s (s₁.writeNewEvent p event time) event time
      ((s₁.writeJournalHeader p).newLocation p event time) := by
  obtain ⟨b₀, -, hready, hindex, hlocations, hreplay, -, hcur, -⟩ :=
    h.toSound.ready hcurrent ho
  obtain ⟨b, lives, hb, -, -, hother, hsame⟩ := h.ready ho
  obtain ⟨hexternal, hoptions⟩ := s.openFile_external ho
  have hplaced : s₁.placed event = s.placed event := by rw [placed, placed, hexternal, hoptions]
  have hbytes : s₁.newBytes event time = s.newBytes event time := by
    rw [newBytes, newBytes, hplaced, eventSize, eventSize, hoptions]
  have hb₀ : b₀ = b := by
    have hdisk := hready.disk
    rw [hindex, hb] at hdisk
    exact (Option.some.inj hdisk).symm
  subst hb₀
  set l := (s₁.writeJournalHeader p).newLocation p event time with hl
  have hle : l.offset ≤ b₀.length := hready.append.2
  have hfileIndex : l.fileIndex = s.currentFileIndex := hcur
  have hdisk : (s₁.appended p event time).disk = Function.update s.disk l.fileIndex
      (some (b₀.overwrite l.offset (s₁.newBytes event time))) := by
    have hwritten : (s₁.appended p event time).disk =
        Function.update (s₁.writeJournalHeader p).disk s.currentFileIndex
          (some (b₀.overwrite l.offset (s₁.newBytes event time))) := by
      change Function.update (s₁.writeJournalHeader p).disk
        ((s₁.writeJournalHeader p).file p).index
        (((s₁.writeJournalHeader p).disk ((s₁.writeJournalHeader p).file p).index).map fun b =>
          writeAt b l.offset (s₁.newBytes event time)) = _
      rw [hindex, hb, Option.map_some, writeAt_of_le _ hle]
    rw [hwritten, hfileIndex]
    funext i
    by_cases hi : i = s.currentFileIndex
    · rw [hi, Function.update_self, Function.update_self]
    · rw [Function.update_of_ne hi, Function.update_of_ne hi, hother i hi]
  have hinsert := insertLocation_eq (s := s₁.appended p event time) (l := l)
    (by rw [show (s₁.appended p event time).eventLocations = s.eventLocations from hlocations]
        exact hid)
    (by rw [show (s₁.appended p event time).timebasedReplay = s.timebasedReplay from hreplay]
        exact fun r hr heq => absurd heq (htime r hr))
  rw [s₁.writeNewEvent_eq, ← hl, hinsert]
  refine { eventLocations := ?_, requestId := rfl, eventTime := rfl, status := rfl,
           attachmentCount := rfl, external := ?_, bytes := ⟨b₀, ?_, hle, ?_⟩ }
  · exact congrArg (· ++ [l]) hlocations
  · exact congrArg Prod.snd hplaced
  · rw [← hbytes]
    exact hdisk
  · intro m hm hm'
    rw [hfileIndex] at hm'
    obtain ⟨b', hb', -⟩ := h.stored m hm
    obtain ⟨hfile, hsame'⟩ := hsame m hm
    have hbelow := h.below m hm
    have hmp : m.file = p := (hready.only m (by rw [hlocations]; exact hm)).2 (by rw [hindex, hm'])
    rw [← hfile, hmp] at hbelow
    rw [hb', hsame' b' hb' hm']
    exact ⟨rfl, hbelow⟩

/-- The other events are kept. -/
theorem Appends.kept {event : InEvent} {time : ℤ} (ha : Appends s s' event time l) (h : s.Durable)
    (hcounter : s.external.counter + event.attachments.length < 2 ^ 31) (hm : m ∈ s.eventLocations) :
    Kept s s' m m := by
  obtain ⟨b, hdisk, hle, hold⟩ := ha.bytes
  have hexternal : s'.external = (placeAttachments s.options.inlineAttachmentSizeThreshold
    event.attachments (baseSize event) s.external).2 := ha.external
  refine { same := rfl, counter := ?_, external := fun i hi => ?_, bytes := ?_ }
  · rw [hexternal]
    exact (counter_placeAttachments ..).1
  · rw [hexternal]
    exact content_placeAttachments _ _ _ _ hcounter hi
  · by_cases hindex : m.fileIndex = l.fileIndex
    · obtain ⟨hb, hbelow⟩ := hold m hm hindex
      refine ⟨b, b.overwrite l.offset (s.newBytes event time), hb, ?_, fun i n _ hn => ?_⟩
      · rw [hdisk, hindex, Function.update_self]
      · exact List.slice_overwrite_of_le hle (by omega)
    · obtain ⟨b', hb', -⟩ := h.stored m hm
      refine ⟨b', b', hb', ?_, fun _ _ _ _ => rfl⟩
      rw [hdisk, Function.update_of_ne hindex]
      exact hb'

/-- The offsets of the new event are in order. -/
theorem Appends.leads {event : InEvent} {time : ℤ} (ha : Appends s s' event time l)
    (hlt : s.eventSize event < 2 ^ 31) {b' : Bytes} (hb' : s'.disk l.fileIndex = some b') :
    ∀ o ∈ EventFile.attachmentOffsets b' l.offset l.attachmentCount,
      Leads s'.external.counter o := by
  obtain ⟨b, hdisk, hle, -⟩ := ha.bytes
  rw [hdisk, Function.update_self] at hb'
  cases hb'
  have hprefix := prefix_drop_writeAt b l.offset (s.newBytes event time)
  rw [writeAt_of_le _ hle] at hprefix
  have hcount : (s.placed event).1.length = event.attachments.length := length_placeAttachments ..
  have htotal : s.eventSize event = baseSize event +
    (inlined s.options.inlineAttachmentSizeThreshold event.attachments).length := rfl
  have hread := attachmentOffsets_new hprefix
    (placed_lt event.attachments (baseSize event) s.external (by omega))
  have htable : EventFile.attachmentOffsets (b.overwrite l.offset (s.newBytes event time)) l.offset
      l.attachmentCount = (s.placed event).1 := by
    rw [ha.attachmentCount, ← hcount]
    exact hread
  rw [htable, ha.external]
  exact leads_placed _ _ _ _ (by rw [baseSize]; omega) (by rw [← htotal]; exact hlt)

theorem Appends.settled {event : InEvent} {time : ℤ} (ha : Appends s s' event time l)
    (h : s.Settled) (h' : s'.Durable)
    (hcounter : s.external.counter + event.attachments.length < 2 ^ 31)
    (hlt : s.eventSize event < 2 ^ 31) : s'.Settled := by
  refine { toDurable := h', leads := fun m hm b hb => ?_ }
  rw [ha.eventLocations] at hm
  rcases List.mem_append.1 hm with hm | hm
  · exact (ha.kept h.toDurable hcounter hm).leads h hm hb
  · cases List.mem_singleton.1 hm
    exact ha.leads hlt hb

/-- The ledger with the new event. -/
theorem Appends.ledger {event : InEvent} {time : ℤ} (ha : Appends s s' event time l)
    (h : s.Settled) (h' : s'.Sound)
    (hcounter : s.external.counter + event.attachments.length < 2 ^ 31)
    (hdata : s'.readData l = event.attachments.map some) :
    s'.ledger = Function.update s.ledger event.requestId
      (some ⟨.ready, time, event.attachments.map some⟩) := by
  have hlast : l ∈ s'.eventLocations := by
    rw [ha.eventLocations]
    exact List.mem_append_right _ (List.mem_singleton_self l)
  have hnew : (Replay.outEvent s' l).entry = ⟨.ready, time, event.attachments.map some⟩ := by
    rw [OutEvent.entry, Replay.outEvent, hdata, ha.status, ha.eventTime]
  refine h.ledger_update h' (fun m hm _ => ⟨?_, ha.kept h.toDurable hcounter hm⟩) (fun m hm hne => ?_)
    ((ledger_eq_some h').2 ⟨l, hlast, ha.requestId, hnew⟩)
  · rw [ha.eventLocations]
    exact List.mem_append_left _ hm
  · rw [ha.eventLocations] at hm
    rcases List.mem_append.1 hm with hm | hm
    · exact hm
    · cases List.mem_singleton.1 hm
      exact absurd ha.requestId hne

/-- What `read_data()` returns of a new event. -/
theorem Bounded.readData_addEvent {o : JournalOptions} {x : ExternalFiles} (h : s.Bounded o x none)
    {now : ℤ} {event : InEvent} {eventTime : ℤ}
    (hadd : (s.addEvent now event eventTime).1 = .ok true)
    (hl : l ∈ (s.addEvent now event eventTime).2.eventLocations)
    (hid : l.requestId = event.requestId) :
    (s.addEvent now event eventTime).2.readData l = event.attachments.map some := by
  set attached : AttachedEvent :=
    ⟨event.requestId, event.attachments.map .data, by simpa using event.count_le⟩ with hattached
  have hsame : attached.toInEvent = event := by
    obtain ⟨requestId, attachments, count_le⟩ := event
    simp [hattached, AttachedEvent.toInEvent, Function.comp_def, Attachment.bytes]
  have hdata : ∀ a ∈ attached.attachments, ∃ bytes, a = .data bytes := by
    intro a ha
    obtain ⟨bytes, -, rfl⟩ := List.mem_map.1 ha
    exact ⟨bytes, rfl⟩
  have heq : s.addAttachments .softlink now attached eventTime = s.addEvent now event eventTime := by
    rw [h.addAttachments_eq ?_ now eventTime, hsame]
    intro a ha
    obtain ⟨bytes, rfl⟩ := hdata a ha
    rfl
  have hback : ReadsBack (s.addAttachments .softlink now attached eventTime).2 attached :=
    h.readsBack_data hdata (by rw [heq]; exact hadd)
  rw [heq] at hback
  rw [hback.2 l hl hid, hattached, List.map_map]
  rfl

/-! ### A new status -/

/-- Writing a status leaves the bytes behind it in each event. -/
theorem Durable.bytes_status (h : s.Durable) (hl : l ∈ s.eventLocations) (status : Status)
    (hm : m ∈ s.eventLocations) : ∃ b b', s.disk m.fileIndex = some b ∧
      (s.write l.file (l.offset + 2) [status.code]).disk m.fileIndex = some b' ∧
      ∀ i n, 3 ≤ i → i + n ≤ m.size → b'.slice (m.offset + i) n = b.slice (m.offset + i) n := by
  obtain ⟨b, -, hb, hdisk, -⟩ := h.disk_status status hl
  by_cases hindex : m.fileIndex = l.fileIndex
  · obtain ⟨b₁, hb₁, -, -, hholds, -⟩ := h.stored l hl
    rw [hb] at hb₁
    cases hb₁
    have hwithin := hholds.within
    have hprefix := hholds.prefixed
    refine ⟨b, b.overwrite (l.offset + 2) [status.code], by rw [hindex, hb], ?_, fun i n hi hn => ?_⟩
    · rw [hdisk, hindex, Function.update_self]
    · refine List.slice_overwrite_of_disjoint (by rw [List.length_singleton]; omega) ?_
      rw [List.length_singleton]
      by_cases heq : m = l
      · subst heq
        omega
      · have := h.disjoint m hm l hl heq ((h.file_eq_iff hm hl).2 hindex)
        omega
  · obtain ⟨b', hb', -⟩ := h.stored m hm
    refine ⟨b', b', hb', ?_, fun _ _ _ _ => rfl⟩
    rw [hdisk, Function.update_of_ne hindex]
    exact hb'

/-- An event that gets a live status: all the events are kept. -/
theorem Durable.kept_setStatus (h : s.Durable) (hl : l ∈ s.eventLocations) (status : Status)
    (hm : m ∈ s.eventLocations) :
    Kept s ((s.write l.file (l.offset + 2) [status.code]).setStatus l status) m
      (if m = l then { l with status } else m) := by
  have hbytes := h.bytes_status hl status hm
  split
  · next heq =>
    subst heq
    exact ⟨rfl, le_rfl, fun _ _ => rfl, hbytes⟩
  · exact ⟨rfl, le_rfl, fun _ _ => rfl, hbytes⟩

/-- The journal behind an event that is completed or failed. -/
def ended (s : Journal) (l : Location) (status : Status) : Journal :=
  ((((s.write l.file (l.offset + 2) [status.code]).eraseReplay l).eraseLocation
    l.requestId).uncountEvent l.file).drop l.file

theorem mem_ended (h : s.Durable) (hl : l ∈ s.eventLocations) (status : Status) :
    m ∈ (s.ended l status).eventLocations ↔ m ∈ s.eventLocations ∧ m.requestId ≠ l.requestId := by
  rw [ended, eventLocations_drop, h.toSound.eraseReplay_eq hl status]
  exact List.mem_filter.trans (and_congr_right fun _ => decide_eq_true_iff)

/-- An event that is completed or failed: the other events are kept, whether its file is closed or
not. -/
theorem Durable.kept_ended (h : s.Durable) (hl : l ∈ s.eventLocations) (status : Status)
    (hm : m ∈ s.eventLocations) (hne : m.requestId ≠ l.requestId) :
    Kept s (s.ended l status) m m := by
  obtain ⟨b, b', hb, hb', hslice⟩ := h.bytes_status hl status hm
  obtain ⟨hsound₁, hindex, -⟩ := h.toSound.erase hl status
  rw [ended]
  rw [h.toSound.eraseReplay_eq hl status] at hsound₁ hindex ⊢
  set s₁ := (eraseLocation { s.write l.file (l.offset + 2) [status.code] with
      canBeCompressed := true
      timebasedReplay := s.timebasedReplay.filter fun m => m.eventTime ≠ l.eventTime }
    l.requestId).uncountEvent l.file with hs₁
  have hmem : m ∈ s₁.eventLocations := List.mem_filter.2 ⟨hm, decide_eq_true hne⟩
  cases hopen : s₁.isOpen l.file with
  | true =>
    rw [drop_of_isOpen hopen]
    exact ⟨rfl, le_rfl, fun _ _ => rfl, b, b', hb, hb', hslice⟩
  | false =>
    -- the file of the event has no other
    have hml : m.fileIndex ≠ l.fileIndex := by
      intro heq
      have hfile : m.file = l.file := (h.file_eq_iff hm hl).2 heq
      rw [← hfile, isOpen_of_mem hmem] at hopen
      cases hopen
    obtain ⟨f, d, -, heq⟩ := s₁.truncate_eq l.file
    rw [drop, if_neg (by rw [hopen]; decide), heq]
    refine ⟨rfl, le_rfl, fun _ _ => rfl, b, b', hb, ?_, hslice⟩
    change Function.update s₁.disk (s₁.file l.file).index d m.fileIndex = some b'
    rw [hindex, Function.update_of_ne hml]
    exact hb'

/-- What a change of a status returns, and what the journal is then. -/
theorem updateEventStatus_eq (s : Journal) (requestId : Bytes) (status : Status) :
    (s.updateEventStatus requestId status = (.ok false, s) ∧
      ∀ l ∈ s.eventLocations.find? (·.requestId = requestId), l.status.mayBecome status = false) ∨
    ∃ l ∈ s.eventLocations, l.requestId = requestId ∧ l.status.mayBecome status = true ∧
      s.updateEventStatus requestId status = (.ok true, if status.isLive then
        (s.write l.file (l.offset + 2) [status.code]).setStatus l status else s.ended l status) := by
  unfold updateEventStatus
  cases hfind : s.eventLocations.find? fun l => l.requestId = requestId with
  | none => exact .inl ⟨rfl, fun l heq => by cases heq⟩
  | some l =>
    have hl : l ∈ s.eventLocations := List.mem_of_find?_eq_some hfind
    have hid : l.requestId = requestId := by simpa using List.find?_some hfind
    dsimp only
    cases hmay : l.status.mayBecome status with
    | false =>
      refine .inl ⟨by rw [if_neg Bool.false_ne_true], fun m heq => ?_⟩
      cases heq
      exact hmay
    | true =>
      refine .inr ⟨l, hl, hid, hmay, ?_⟩
      subst hid
      rw [if_pos rfl]
      split <;> rfl

/-- The event has a live status. -/
theorem Settled.setStatus (h : s.Settled) (hl : l ∈ s.eventLocations) {status : Status}
    (h' : ((s.write l.file (l.offset + 2) [status.code]).setStatus l status).Durable) :
    ((s.write l.file (l.offset + 2) [status.code]).setStatus l status).Settled ∧
      ((s.write l.file (l.offset + 2) [status.code]).setStatus l status).ledger =
        Function.update s.ledger l.requestId
          (some { (Replay.outEvent s l).entry with status }) := by
  set s' := (s.write l.file (l.offset + 2) [status.code]).setStatus l status with hs'
  have hlocations : ∀ m, m ∈ s'.eventLocations ↔
      ∃ m' ∈ s.eventLocations, (if m' = l then { l with status } else m') = m :=
    fun m => List.mem_map
  have hself : { l with status } ∈ s'.eventLocations :=
    (hlocations _).2 ⟨l, hl, if_pos rfl⟩
  refine ⟨{ toDurable := h', leads := fun m hm b hb => ?_ }, h.ledger_update h'.toSound ?_ ?_ ?_⟩
  · obtain ⟨m', hm', rfl⟩ := (hlocations m).1 hm
    exact (h.toDurable.kept_setStatus hl status hm').leads h hm' hb
  · intro m hm hne
    have hk := h.toDurable.kept_setStatus hl status hm
    have hml : m ≠ l := fun heq => hne (by rw [heq])
    rw [if_neg hml] at hk
    exact ⟨(hlocations m).2 ⟨m, hm, if_neg hml⟩, hk⟩
  · intro m hm hne
    obtain ⟨m', hm', rfl⟩ := (hlocations m).1 hm
    by_cases heq : m' = l
    · rw [if_pos heq] at hne
      exact absurd rfl hne
    · rw [if_neg heq]
      exact hm'
  · have hk := h.toDurable.kept_setStatus hl status hl
    rw [if_pos rfl] at hk
    refine (ledger_eq_some h'.toSound).2 ⟨{ l with status }, hself, rfl, ?_⟩
    rw [hk.outEvent h h'.toSound hl hself]
    rfl

/-- The event is completed or failed. -/
theorem Settled.ended (h : s.Settled) (hl : l ∈ s.eventLocations) {status : Status}
    (h' : (s.ended l status).Durable) : (s.ended l status).Settled ∧
      (s.ended l status).ledger = Function.update s.ledger l.requestId none := by
  have hmem : ∀ m, m ∈ (s.ended l status).eventLocations ↔
      m ∈ s.eventLocations ∧ m.requestId ≠ l.requestId := fun m => mem_ended h.toDurable hl status
  refine ⟨{ toDurable := h', leads := fun m hm b hb => ?_ }, h.ledger_update h'.toSound ?_ ?_ ?_⟩
  · obtain ⟨hm', hne⟩ := (hmem m).1 hm
    exact (h.toDurable.kept_ended hl status hm' hne).leads h hm' hb
  · exact fun m hm hne => ⟨(hmem m).2 ⟨hm, hne⟩, h.toDurable.kept_ended hl status hm hne⟩
  · exact fun m hm _ => ((hmem m).1 hm).1
  · exact (ledger_eq_none h'.toSound).2 fun m hm => ((hmem m).1 hm).2

/-- **A change of a status is one of the ledger.** -/
theorem Settled.serves_status (h : s.Settled) {c : EventCall} {requestId : Bytes} {status : Status}
    (hc : c.change = some (requestId, status)) :
    (s.updateEventStatus requestId status).2.Settled ∧
      Ledger.Serves s.ledger c (s.updateEventStatus requestId status).1
        (s.updateEventStatus requestId status).2.ledger := by
  have hdurable := h.toDurable.updateEventStatus requestId status
  obtain ⟨heq, hno⟩ | ⟨l, hl, rfl, hmay, heq⟩ := s.updateEventStatus_eq requestId status
  · rw [heq]
    refine ⟨h, .unchanged hc fun e he => ?_⟩
    obtain ⟨l, hfind, rfl⟩ := Option.map_eq_some_iff.1 he
    exact hno l hfind
  · have he : s.ledger l.requestId = some (Replay.outEvent s l).entry :=
      (ledger_eq_some h.toSound).2 ⟨l, hl, rfl, rfl⟩
    have hserves := Ledger.Serves.changed hc he hmay
    rw [heq] at hdurable ⊢
    cases hlive : status.isLive with
    | true =>
      rw [hlive, if_pos rfl] at hserves
      rw [hlive, if_pos rfl] at hdurable
      rw [if_pos rfl]
      obtain ⟨hsettled, hledger⟩ := h.setStatus hl hdurable
      rw [hledger]
      exact ⟨hsettled, hserves⟩
    | false =>
      rw [hlive, if_neg Bool.false_ne_true] at hserves
      rw [hlive, if_neg Bool.false_ne_true] at hdurable
      rw [if_neg Bool.false_ne_true]
      obtain ⟨hsettled, hledger⟩ := h.ended hl hdurable
      rw [hledger]
      exact ⟨hsettled, hserves⟩

/-! ### Adding an event -/

/-- The times from the one that was asked for on are all taken. -/
theorem le_uniqueTime {replay : List Location} {fuel : ℕ} {t u : ℤ} (htu : t ≤ u)
    (hfree : ∀ r ∈ replay, r.eventTime ≠ u) : uniqueTime replay fuel t ≤ u := by
  induction fuel generalizing t with
  | zero => exact htu
  | succ fuel ih =>
    rw [uniqueTime]
    split
    · next hany =>
      obtain ⟨r, hr, heq⟩ := List.any_eq_true.1 hany
      have hne := hfree r hr
      have heq' : r.eventTime = t := of_decide_eq_true heq
      exact ih (by omega)
    · exact htu

/-- **An event is saved under the first time that no other event has.** -/
theorem Sound.isLeast_savedTime (h : s.Sound) (eventTime : ℤ) :
    IsLeast {t | eventTime ≤ t ∧ s.ledger.Free t} (s.savedTime eventTime) := by
  obtain ⟨hfree, hle, -⟩ := s.savedTime_spec eventTime
  refine ⟨⟨hle, (free_ledger h).2 hfree⟩, ?_⟩
  rintro u ⟨htu, hu⟩
  exact le_uniqueTime htu ((free_ledger h).1 hu)

/-- The files of the large attachments are those of before. -/
theorem Compressed.external {now : ℤ} {s₀ : Journal} (hc : Compressed now s s₀) :
    s₀.external = s.external := by
  cases hc with
  | no => rfl
  | once ht hs _ =>
    obtain ⟨-, -, -, hexternal, -⟩ := ht.sound.loadEventLocations hs true
    exact hexternal.trans ht.external

theorem isInTheFuture_of_refuses {now : ℤ} {event : InEvent} {eventTime : ℤ}
    (h : s.refuses now event eventTime = false) : Timespec.isInTheFuture now eventTime = false := by
  simp only [refuses, Bool.or_eq_false_iff] at h
  exact h.1.1.2

/-- **Adding an event is a call on the ledger.** -/
theorem Settled.serves_addEvent (h : s.Settled)
    (hcurrent : s.currentFileIndex < s.options.maximumNumberOfFiles) {o : JournalOptions}
    {x : ExternalFiles} (hb : s.Bounded o x none) {now : ℤ} {event : InEvent} {eventTime : ℤ}
    (hsafe : EventCall.Safe s (.addEvent now event eventTime))
    (hcounter : s.external.counter + event.attachments.length < 2 ^ 31) :
    (s.addEvent now event eventTime).2.Settled ∧
      Ledger.Serves s.ledger (.addEvent now event eventTime) (s.addEvent now event eventTime).1
        (s.addEvent now event eventTime).2.ledger := by
  have hdurable := h.toDurable.addEvent hcurrent hsafe
  rcases h.toSound.addEvent_cases hcurrent hsafe with
    heq | ⟨hrefuses, s₀, hc, ⟨s', ht, heq⟩ | ⟨s', p, s₁, ht, hcurrent', ho, hroom, heq⟩⟩
  · rw [heq]
    exact ⟨h, .refused⟩
  · -- the files may have been compressed
    obtain ⟨h₀, hevents⟩ := hc.durable h.toDurable
    have hledger : s'.ledger = s.ledger :=
      ledger_eq_of_events h.toSound ht.sound ((ht.events h₀).trans hevents)
    rw [heq, hledger]
    exact ⟨(hc.settled h).tried ht, .refused⟩
  · obtain ⟨hid, hnil, hlen⟩ := refuses_eq_false hrefuses
    obtain ⟨hid', htime'⟩ := hc.new h.toSound ht hid (s.savedTime_spec eventTime).1
    obtain ⟨h₀, hevents⟩ := hc.durable h.toDurable
    have hsettled : s'.Settled := (hc.settled h).tried ht
    have hledger : s'.ledger = s.ledger :=
      ledger_eq_of_events h.toSound ht.sound ((ht.events h₀).trans hevents)
    have hexternal : s'.external = s.external := ht.external.trans hc.external
    have hcounter' : s'.external.counter + event.attachments.length < 2 ^ 31 := by
      rw [hexternal]
      exact hcounter
    have hlt : s'.eventSize event < 2 ^ 31 := by
      have hsize : s₁.eventSize event = s'.eventSize event := by
        rw [eventSize, eventSize, (s'.openFile_external ho).2]
      have hmax := s₁.options.fileSize_mem.2
      obtain ⟨hfits, -⟩ := of_decide_eq_true hroom
      omega
    have ha := hsettled.toDurable.appends hcurrent' ho hid' htime'
    set l := (s₁.writeJournalHeader p).newLocation p event (s.savedTime eventTime) with hl
    have hdata := hb.readData_addEvent (l := l) (congrArg Prod.fst heq)
      (by rw [heq, ha.eventLocations]; exact List.mem_append_right _ (List.mem_singleton_self l))
      ha.requestId
    rw [heq] at hdurable hdata ⊢
    rw [ha.ledger hsettled hdurable.toSound hcounter' hdata, hledger]
    refine ⟨ha.settled hsettled hdurable hcounter' hlt, .added ?_ hnil hlen
      (isInTheFuture_of_refuses hrefuses) (h.toSound.isLeast_savedTime eventTime)⟩
    exact (ledger_eq_none h.toSound).2 hid

end Journal

/-- The identifiers of the large attachments do not come again. -/
def EventCall.Numbered (s : Journal) : EventCall → Prop
  | addEvent _ event _ => s.external.counter + event.attachments.length < 2 ^ 31
  | _ => True

instance (s : Journal) (c : EventCall) : Decidable (c.Numbered s) :=
  match c with
  | .addEvent _ event _ =>
    inferInstanceAs (Decidable (s.external.counter + event.attachments.length < 2 ^ 31))
  | .eventForwarded _ | .eventAcknowledged _ | .eventCompleted _ | .eventFailed _ =>
    inferInstanceAs (Decidable True)

/-- A call that neither completes nor fails an event, whatever it does to the others. -/
def EventCall.Spares (id : Bytes) (c : EventCall) : Prop :=
  ∀ status, c.change = some (id, status) → status.isLive = true

namespace Journal

/-! ### Runs -/

/-- What a journal is between two calls. -/
structure Running (options : JournalOptions) (s : Journal) : Prop extends Settled s where
  current : s.currentFileIndex < s.options.maximumNumberOfFiles
  bounded : ∃ x, s.Bounded options x none

/-- A call of a journal, on its ledger. -/
def Served (s : Journal) (c : EventCall) : Prop :=
  Ledger.Serves s.ledger c (c.run s).1 (c.step s).ledger

variable {options : JournalOptions} {c : EventCall}

/-- **One call is a call on the ledger**, and keeps the offsets in order. -/
theorem Running.event (h : s.Running options) (hsafe : c.Safe s) (hnumbered : c.Numbered s) :
    (c.step s).Running options ∧ s.Served c := by
  have hsteady : s.Steady := ⟨h.toDurable, h.current⟩
  obtain ⟨x, hb⟩ := h.bounded
  have hserves : (c.step s).Settled ∧ s.Served c := by
    cases c with
    | addEvent now event eventTime => exact h.toSettled.serves_addEvent h.current hb hsafe hnumbered
    | eventForwarded requestId => exact h.toSettled.serves_status rfl
    | eventAcknowledged requestId => exact h.toSettled.serves_status rfl
    | eventCompleted requestId => exact h.toSettled.serves_status rfl
    | eventFailed requestId => exact h.toSettled.serves_status rfl
  exact ⟨{ toSettled := hserves.1, current := (hsteady.event hsafe).current, bounded := hb.run [c] },
    hserves.2⟩

theorem running_construct (options : JournalOptions) (external : ExternalFiles) (now : ℤ) :
    (construct options (fun _ => none) external now).Running options := by
  have hsettled : Settled
      { options, eventFiles := List.replicate options.maximumNumberOfFiles none
        disk := fun _ => none, external } :=
    { toSound := sound_empty options external
      tiled := fun l hl => by cases hl
      cleared := fun i b hb => by cases hb
      intact := fun l hl => by cases hl
      leads := fun l hl => by cases hl }
  exact
    { toSettled := hsettled.loadEventLocations (fun _ _ b hb => by cases hb) false
      current := (steady_construct options external now).current
      bounded := ⟨external, bounded_construct options external now (within_none _)
        fun i b hb => by cases hb⟩ }

/-- A journal in an empty directory has no events. -/
theorem ledger_construct (options : JournalOptions) (external : ExternalFiles) (now : ℤ) :
    (construct options (fun _ => none) external now).ledger = fun _ => none := by
  have hs : Scannable
      { options, eventFiles := List.replicate options.maximumNumberOfFiles none
        disk := fun _ => none, external } now := fun _ _ b hb => by cases hb
  obtain ⟨hsound, ⟨olds, hperm, hsame⟩, -⟩ :=
    (sound_empty options external).loadEventLocations hs false
  funext id
  refine (ledger_eq_none hsound).2 fun m hm => ?_
  obtain ⟨l, hl, -⟩ := exists_of_mem_right hsame hm
  cases hperm.mem_iff.1 hl

theorem numbered_fewCalls : Run.Each EventCall.Numbered EventCall.step
    (construct twoFiles (fun _ => none) ⟨0, fun _ => none⟩ 100) fewCalls :=
  ⟨by decide, by decide, trivial, by decide, trivial⟩

/-- **A run of the journal is a run on a ledger** that is empty at first, whatever files the events
are in and however often these are compressed. -/
theorem ledger_run (options : JournalOptions) (external : ExternalFiles) (now : ℤ)
    (calls : List EventCall)
    (h : Run.Each (fun s c => c.Tidy s ∧ c.Numbered s) EventCall.step
      (construct options (fun _ => none) external now) calls) :
    (construct options (fun _ => none) external now).ledger = (fun _ => none) ∧
      Run.Each Served EventCall.step (construct options (fun _ => none) external now) calls :=
  ⟨ledger_construct options external now,
    h.imp (Running options) (fun _ _ hs hc => (hs.event (hs.toDurable.safe hc.1) hc.2).1)
      (fun _ _ hs hc => (hs.event (hs.toDurable.safe hc.1) hc.2).2)
      (running_construct options external now)⟩

theorem ledger_run_few :
    (construct twoFiles (fun _ => none) ⟨0, fun _ => none⟩ 100).ledger = (fun _ => none) ∧
      Run.Each Served EventCall.step (construct twoFiles (fun _ => none) ⟨0, fun _ => none⟩ 100)
        fewCalls :=
  ledger_run twoFiles ⟨0, fun _ => none⟩ 100 fewCalls (tidy_fewCalls.and numbered_fewCalls)

/-- An event stays as long as no call completes or fails it. -/
theorem follows_of_served {id : Bytes} {calls : List EventCall} (hspares : ∀ c ∈ calls, c.Spares id)
    {e : Ledger.Entry} (h : Run.Each Served EventCall.step s calls) (he : s.ledger id = some e) :
    ∃ e', (calls.foldl EventCall.step s).ledger id = some e' ∧ e.Follows e' := by
  induction calls generalizing s e with
  | nil => exact ⟨e, he, .refl e⟩
  | cons c calls ih =>
    obtain ⟨hc, hcalls⟩ := List.forall_mem_cons.1 hspares
    obtain ⟨e₁, he₁, hfollows₁⟩ := h.1.forward hc he
    obtain ⟨e₂, he₂, hfollows₂⟩ := ih hcalls h.2 he₁
    exact ⟨e₂, he₂, hfollows₁.trans hfollows₂⟩

end Journal

end Prinbee
