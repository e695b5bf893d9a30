import Prinbee.Journal.Durable

/-!
# What a reader of the files finds

The events of a file that has live ones were all written by the journal, so there are two reasons only
why a reader does not come to one of them: an event before it, or the event itself, has no data behind
its request identifier, or its time is in the future.  What is behind the events is another matter:
after a compression it holds copies of the events that were moved down.

## Main definitions

* `Journal.Legible` — a reader comes to every live event.
* `Journal.Unspoiled` — it finds no live header behind the events of a file.
* `EventCall.Tidy` — what a run needs of each of its calls.

## Main results

* `Journal.Durable.readable_iff` — when a reader comes to a live event.
* `Journal.Durable.scannable_iff` — when it finds the live events of the journal and no other.
-/

namespace Prinbee

namespace Journal

/-- In each file, every event up to a live one has data behind its request identifier and a time that
is not in the future. -/
def Legible (s : Journal) (now : ℤ) : Prop :=
  ∀ l ∈ s.eventLocations, ∀ b, s.disk l.fileIndex = some b →
    ∀ o ≤ l.offset, EventFile.Follows b 8 o → EventFile.Passed now b o

/-- A reader comes to no live header behind the place of the next event. -/
def Unspoiled (s : Journal) (now : ℤ) : Prop :=
  ∀ l ∈ s.eventLocations, ∀ b, s.disk l.fileIndex = some b → ∀ x, (s.file l.file).nextAppend ≤ x →
    EventFile.Reaches now b 8 x → EventFile.Valid now b x → ¬ EventFile.Live b x

end Journal

/-- The time of an event that is added has room for one step for each event, and when the files have
to be compressed, a reader comes to the live events in them and finds no other behind them. -/
def EventCall.Tidy (s : Journal) : EventCall → Prop
  | addEvent now event eventTime => s.refuses now event eventTime = false →
    Timespec.Fits eventTime ∧ Timespec.Fits (eventTime + s.timebasedReplay.length) ∧
      (s.options.compressWhenFull = true → s.canBeCompressed = true →
        s.Full (s.eventSize event) → s.Legible now ∧ s.Unspoiled now)
  | _ => True

namespace Journal

variable {s : Journal} {now : ℤ} {l : Location}

/-- The file of a live event. -/
theorem Durable.tiling (h : s.Durable) (hl : l ∈ s.eventLocations) : ∃ b lives,
    s.disk l.fileIndex = some b ∧ EventFile.HasHeader b ∧
      EventFile.Tiling b 8 (s.file l.file).nextAppend lives ∧
      (∀ o, o ∈ lives ↔ ∃ m ∈ s.eventLocations, m.fileIndex = l.fileIndex ∧ m.offset = o) ∧
      (s.file l.file).nextAppend ≤ b.length := by
  obtain ⟨b, lives, hb, htiling, hmem⟩ := h.tiled l hl
  obtain ⟨b', hb', hheader, hle, -⟩ := h.stored l hl
  rw [hb] at hb'
  cases hb'
  exact ⟨b, lives, hb, hheader, htiling, hmem, hle⟩

/-- **A reader comes to a live event** unless an event up to it stops it. -/
theorem Durable.readable_iff (h : s.Durable) (hl : l ∈ s.eventLocations) :
    Readable now s l ↔ ∀ b, s.disk l.fileIndex = some b →
      ∀ o ≤ l.offset, EventFile.Follows b 8 o → EventFile.Passed now b o := by
  obtain ⟨b, lives, hb, -, htiling, hmem, hle⟩ := h.tiling hl
  have hiff : EventFile.Reaches now b 8 l.offset ∧ EventFile.Valid now b l.offset ↔ _ :=
    htiling.reaches_iff hle ((hmem _).2 ⟨l, hl, rfl, rfl⟩)
  constructor
  · intro hr b' hb'
    rw [hb] at hb'
    cases hb'
    exact hiff.1 (hr b hb)
  · intro hpassed b' hb'
    rw [hb] at hb'
    cases hb'
    exact hiff.2 (hpassed b hb)

theorem Durable.legible_iff (h : s.Durable) :
    s.Legible now ↔ ∀ l ∈ s.eventLocations, Readable now s l :=
  forall₂_congr fun _ hl => (h.readable_iff hl).symm

theorem Readable.mono {now' : ℤ} (h : Readable now s l) (hnow : now ≤ now') : Readable now' s l :=
  fun b hb => ⟨(h b hb).1.mono hnow, (h b hb).2.mono hnow⟩

/-- **The reader finds the live events of the journal and no other** when it comes to each of them
and finds none behind them. -/
theorem Durable.scannable_iff (h : s.Durable) :
    s.Scannable now ↔ s.Legible now ∧ s.Unspoiled now := by
  rw [h.legible_iff]
  constructor
  · intro hs
    have hfound : ∀ l ∈ s.eventLocations, ∀ b, s.disk l.fileIndex = some b → ∀ o,
        (EventFile.Reaches now b 8 o ∧ EventFile.Valid now b o ∧ EventFile.Live b o) ↔
          ∃ m ∈ s.eventLocations, m.fileIndex = l.fileIndex ∧ m.offset = o := by
      intro l hl b hb o
      obtain ⟨b', -, hb', hheader, -⟩ := h.tiling hl
      rw [hb] at hb'
      cases hb'
      rw [← EventFile.mem_liveOffsets hheader]
      exact hs _ (h.linked l hl).1 b hb o
    refine ⟨fun l hl b hb => ?_, fun l hl b hb x hx hr hvalid hlive => ?_⟩
    · obtain ⟨hr, hvalid, -⟩ := (hfound l hl b hb l.offset).2 ⟨l, hl, rfl, rfl⟩
      exact ⟨hr, hvalid⟩
    · -- a live header there would be one of an event, and those end before it
      obtain ⟨m, hm, hindex, rfl⟩ := (hfound l hl b hb x).1 ⟨hr, hvalid, hlive⟩
      obtain ⟨_, -, -, -, hholds, -⟩ := h.stored m hm
      have hprefix := hholds.prefixed
      have hbelow := h.below m hm
      rw [(h.file_eq_iff hm hl).2 hindex] at hbelow
      omega
  · rintro ⟨hread, hbehind⟩ i hi b hb o
    by_cases hsome : ∃ l ∈ s.eventLocations, l.fileIndex = i
    · obtain ⟨l, hl, rfl⟩ := hsome
      obtain ⟨b', lives, hb', hheader, htiling, hmem, -⟩ := h.tiling hl
      rw [hb] at hb'
      cases hb'
      rw [EventFile.mem_liveOffsets hheader]
      constructor
      · rintro ⟨hr, hvalid, hlive⟩
        refine (hmem o).1 ((htiling.mem_or_reaches hr hlive).resolve_right fun hr' => ?_)
        exact hbehind l hl b hb o hr'.le hr hvalid hlive
      · rintro ⟨m, hm, hindex, rfl⟩
        obtain ⟨hr, hvalid⟩ := hread m hm b (by rw [hindex]; exact hb)
        exact ⟨hr, hvalid, (htiling.mem_le ((hmem _).2 ⟨m, hm, hindex, rfl⟩)).2.2.2⟩
    · rw [h.cleared i b hb (fun l hl heq => hsome ⟨l, hl, heq⟩) now]
      exact iff_of_false List.not_mem_nil fun ⟨l, hl, hindex, _⟩ => hsome ⟨l, hl, hindex⟩

/-! ### Runs -/

theorem Durable.safe (h : s.Durable) {c : EventCall} (hc : c.Tidy s) : c.Safe s := by
  cases c with
  | addEvent now event eventTime =>
    intro hrefuses
    obtain ⟨hfits, hfits', hfiles⟩ := hc hrefuses
    exact ⟨hfits, hfits', fun hwhenFull hcan hfull => h.scannable_iff.2 (hfiles hwhenFull hcan hfull)⟩
  | eventForwarded _ => exact trivial
  | eventAcknowledged _ => exact trivial
  | eventCompleted _ => exact trivial
  | eventFailed _ => exact trivial

theorem Steady.tidy_event (h : s.Steady) {c : EventCall} (hc : c.Tidy s) : (c.step s).Steady :=
  h.event (h.toDurable.safe hc)

/-- What holds of each steady journal holds in every state of a run whose calls are tidy. -/
theorem always_of_tidy {P : Journal → Prop} (hP : ∀ s : Journal, s.Steady → P s)
    (options : JournalOptions) (external : ExternalFiles) (now : ℤ) (calls : List EventCall)
    (h : Run.Each EventCall.Tidy EventCall.step (construct options (fun _ => none) external now)
      calls) :
    Run.Always P EventCall.step (construct options (fun _ => none) external now) calls :=
  Run.always hP (fun _ _ hs hc => hs.tidy_event hc) calls _ (steady_construct options external now) h

/-- What holds of each tidy call of a steady journal holds of the calls of a run. -/
theorem each_of_tidy {ok : Journal → EventCall → Prop}
    (hok : ∀ s c, s.Steady → c.Tidy s → ok s c) (options : JournalOptions)
    (external : ExternalFiles) (now : ℤ) (calls : List EventCall)
    (h : Run.Each EventCall.Tidy EventCall.step (construct options (fun _ => none) external now)
      calls) :
    Run.Each ok EventCall.step (construct options (fun _ => none) external now) calls :=
  h.imp Steady (fun _ _ hs hc => hs.tidy_event hc) hok (steady_construct options external now)

/-- The live headers of each file are those of its events, in their order. -/
theorem scannable_of_eq (h : ∀ index < s.options.maximumNumberOfFiles, ∀ b ∈ s.disk index,
    EventFile.liveOffsets now b =
      (s.eventLocations.filter (·.fileIndex = index)).map (·.offset)) : s.Scannable now := by
  intro index hi b hb o
  rw [h index hi b hb, List.mem_map]
  refine exists_congr fun l => ?_
  rw [List.mem_filter, decide_eq_true_iff, and_assoc]

/-- Two events with an attachment are added, the first one is completed, and another one is larger than
a file. -/
def fewCalls : List EventCall :=
  [.addEvent 100 ⟨[65], [[1, 2]], by decide⟩ 90, .addEvent 100 ⟨[66], [[3]], by decide⟩ 91,
    .eventCompleted [65], .addEvent 100 largeEvent 92]

theorem tidy_fewCalls : Run.Each EventCall.Tidy EventCall.step
    (construct twoFiles (fun _ => none) ⟨0, fun _ => none⟩ 100) fewCalls := by
  have hstart := steady_construct twoFiles ⟨0, fun _ => none⟩ 100
  have hfits : ∀ t : ℤ, 90 ≤ t → t ≤ 100 → Timespec.Fits t := fun t ht ht' => by
    unfold Timespec.Fits
    omega
  have hfirst : EventCall.Tidy (construct twoFiles (fun _ => none) ⟨0, fun _ => none⟩ 100)
      (.addEvent 100 ⟨[65], [[1, 2]], by decide⟩ 90) := fun _ =>
    ⟨hfits _ (by decide) (by decide), hfits _ (by decide) (by decide),
      fun _ hcan => absurd hcan (by decide)⟩
  have hsecond : EventCall.Tidy ((EventCall.addEvent 100 ⟨[65], [[1, 2]], by decide⟩ 90).step
      (construct twoFiles (fun _ => none) ⟨0, fun _ => none⟩ 100))
      (.addEvent 100 ⟨[66], [[3]], by decide⟩ 91) := fun _ =>
    ⟨hfits _ (by decide) (by decide), hfits _ (by decide) (by decide),
      fun _ hcan => absurd hcan (by decide)⟩
  have hbefore := ((hstart.tidy_event hfirst).tidy_event hsecond).tidy_event
    (c := .eventCompleted [65]) trivial
  refine ⟨hfirst, hsecond, trivial, fun _ => ⟨hfits _ (by decide) (by decide),
    hfits _ (by decide) (by decide), fun _ _ _ => ?_⟩, trivial⟩
  -- the files are compressed now
  exact hbefore.toDurable.scannable_iff.1 (scannable_of_eq (by decide +kernel))

end Journal

end Prinbee
