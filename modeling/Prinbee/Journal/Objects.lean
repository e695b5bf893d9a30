import Prinbee.Journal.Sound

/-!
# The objects of the files of a journal

What holds in every state of a journal, whatever the files of its directory had in them: the
locations are those of file objects that the weak pointers lead to, so a file is not truncated under
a location, and its bytes are there.  The files are read again, moved down and truncated on the way;
none of that lets a file grow.

## Main definitions

* `Journal.Registered` — the objects that locations refer to are those of the weak pointers.
* `Journal.Bounded` — and their files are there; when there is a cap, the offsets and the bytes of the
  files are within it.
* `Journal.Written` — an event was written in a file that had room.

## Main results

* `Journal.Bounded.addEvent` — adding an event: it was written, or nothing but the maps has changed.
* `Journal.Registered.writeNewEvent` — where the next event goes after one was written.
-/

namespace Prinbee

namespace Journal

variable {s s' : Journal} {p q i : ℕ}

/-- An object that a location of one of the maps refers to is open. -/
theorem isOpen_of_mem_append {l : Location} (h : l ∈ s.eventLocations ++ s.timebasedReplay) :
    s.isOpen l.file = true := by
  rw [Journal.isOpen, ← List.any_append, List.any_eq_true]
  exact ⟨l, h, decide_eq_true rfl⟩

/-! ### Registered objects -/

/-- The weak pointers lead to the object of their index, and every object that a location refers to
has its weak pointer. -/
structure Registered (s : Journal) : Prop where
  length : s.eventFiles.length = s.options.maximumNumberOfFiles
  entry : ∀ i p, s.eventFiles.getD i none = some p → p < s.files.length ∧ (s.file p).index = i
  held : ∀ l ∈ s.eventLocations ++ s.timebasedReplay, ∃ i, s.eventFiles.getD i none = some l.file

/-- `s'` has the objects of `s`, in any state, and its limits. -/
structure SameObjects (s s' : Journal) : Prop where
  options : s'.options = s.options
  eventFiles : s'.eventFiles = s.eventFiles
  length : s'.files.length = s.files.length
  index : ∀ q, (s'.file q).index = (s.file q).index

theorem SameObjects.refl (s : Journal) : SameObjects s s := ⟨rfl, rfl, rfl, fun _ => rfl⟩

theorem SameObjects.trans {s'' : Journal} (h : SameObjects s s') (h' : SameObjects s' s'') :
    SameObjects s s'' where
  options := h'.options.trans h.options
  eventFiles := h'.eventFiles.trans h.eventFiles
  length := h'.length.trans h.length
  index q := (h'.index q).trans (h.index q)

theorem Registered.congr (h : s.Registered) (hs : SameObjects s s')
    (hheld : ∀ l ∈ s'.eventLocations ++ s'.timebasedReplay,
      ∃ i, s.eventFiles.getD i none = some l.file) : s'.Registered where
  length := by rw [hs.eventFiles, hs.options, h.length]
  entry i p hp := by
    rw [hs.eventFiles] at hp
    rw [hs.length, hs.index]
    exact h.entry i p hp
  held l hl := by
    rw [hs.eventFiles]
    exact hheld l hl

theorem sameObjects_set {f : JournalFile} {d : ℕ → Option Bytes} (hf : f.index = (s.file p).index) :
    SameObjects s { s with files := s.files.set p f, disk := d } := by
  refine ⟨rfl, rfl, List.length_set .., fun q => ?_⟩
  change ((s.files.set p f).getD q default).index = _
  by_cases hq : q = p
  · subst hq
    exact index_setFile hf
  · rw [List.getD_set_ne hq]
    rfl

theorem sameObjects_setFile {f : JournalFile} (hf : f.index = (s.file p).index) :
    SameObjects s (s.setFile p f) := sameObjects_set hf

theorem sameObjects_modify (s : Journal) (p : ℕ) (g : Bytes → Bytes) :
    SameObjects s (s.modify p g) := ⟨rfl, rfl, rfl, fun _ => rfl⟩

theorem sameObjects_drop (s : Journal) (p : ℕ) : SameObjects s (s.drop p) := by
  unfold drop
  split
  · exact .refl s
  · obtain ⟨f, d, hf, heq⟩ := s.truncate_eq p
    rw [heq]
    exact sameObjects_set hf

theorem sameObjects_dropAll (s : Journal) (ls : List Location) : SameObjects s (s.dropAll ls) := by
  induction ls generalizing s with
  | nil => exact .refl s
  | cons l ls ih => exact (sameObjects_drop s l.file).trans (ih (s.drop l.file))

theorem Registered.dropAll (h : s.Registered) (ls : List Location) : (s.dropAll ls).Registered := by
  refine h.congr (sameObjects_dropAll s ls) ?_
  obtain ⟨files, disk, -, heq⟩ := s.dropAll_frame ls
  rw [heq]
  exact h.held

/-- The object of another file, or one that is still referred to, goes away: nothing changes. -/
theorem Registered.drop_other (h : s.Registered) {j : ℕ} (hp : s.eventFiles.getD i none = some p)
    (hq : s.eventFiles.getD j none = some q) (hopen : s.isOpen p = true) :
    (s.drop q).content p = s.content p ∧ (s.drop q).file p = s.file p := by
  rw [Journal.drop]
  split
  · exact ⟨rfl, rfl⟩
  · rename_i hclosed
    have hpq : p ≠ q := by
      rintro rfl
      exact hclosed hopen
    have hindex : (s.file p).index ≠ (s.file q).index := by
      rw [(h.entry i p hp).2, (h.entry j q hq).2]
      rintro rfl
      exact hpq (Option.some.inj (hp.symm.trans hq))
    obtain ⟨f, d, -, heq⟩ := s.truncate_eq q
    have hfile : (s.truncate q).file p = s.file p := by
      rw [heq]
      exact List.getD_set_ne hpq _ _ _
    refine ⟨?_, hfile⟩
    rw [Journal.content, hfile, heq]
    change (Function.update s.disk (s.file q).index d (s.file p).index).getD [] = _
    rw [Function.update_of_ne hindex, Journal.content]

theorem Registered.dropAll_other (h : s.Registered) (hp : s.eventFiles.getD i none = some p)
    (hopen : s.isOpen p = true) {ls : List Location}
    (hls : ∀ l ∈ ls, ∃ j, s.eventFiles.getD j none = some l.file) :
    (s.dropAll ls).content p = s.content p ∧ (s.dropAll ls).file p = s.file p := by
  induction ls generalizing s with
  | nil => exact ⟨rfl, rfl⟩
  | cons l ls ih =>
    obtain ⟨j, hj⟩ := hls l List.mem_cons_self
    obtain ⟨hcontent, hfile⟩ := h.drop_other hp hj hopen
    have hsame := sameObjects_drop s l.file
    obtain ⟨files, disk, -, heq⟩ := s.drop_frame l.file
    have hopen' : (s.drop l.file).isOpen p = true := by
      rw [heq, isOpen_with]
      exact hopen
    have hregistered : (s.drop l.file).Registered := h.dropAll [l]
    obtain ⟨hcontent', hfile'⟩ := ih hregistered (by rw [hsame.eventFiles]; exact hp) hopen'
      fun m hm => by rw [hsame.eventFiles]; exact hls m (List.mem_cons_of_mem _ hm)
    exact ⟨hcontent'.trans hcontent, hfile'.trans hfile⟩

/-- A location of a file that has its weak pointer is entered: the file stays as it is. -/
theorem Registered.insertLocation (h : s.Registered) {l : Location}
    (hl : s.eventFiles.getD i none = some l.file) :
    (s.insertLocation l).Registered ∧ (s.insertLocation l).content l.file = s.content l.file ∧
      (s.insertLocation l).file l.file = s.file l.file := by
  unfold Journal.insertLocation
  dsimp only
  set s₁ : Journal := { s with
    eventLocations := (s.eventLocations.filter fun m => m.requestId ≠ l.requestId) ++ [l] } with hs₁
  have h₁ : s₁.Registered := by
    refine h.congr ⟨rfl, rfl, rfl, fun _ => rfl⟩ fun m hm => ?_
    simp only [hs₁, List.mem_append, List.mem_singleton] at hm
    rcases hm with (hm | rfl) | hm
    · exact h.held m (List.mem_append_left _ (List.mem_of_mem_filter hm))
    · exact ⟨i, hl⟩
    · exact h.held m (List.mem_append_right _ hm)
  have hopen₁ : s₁.isOpen l.file = true :=
    isOpen_of_mem (List.mem_append_right _ (List.mem_singleton_self l))
  have hreplaced : ∀ m ∈ s.eventLocations.filter fun m => m.requestId = l.requestId,
      ∃ j, s₁.eventFiles.getD j none = some m.file := fun m hm =>
    h.held m (List.mem_append_left _ (List.mem_of_mem_filter hm))
  obtain ⟨hcontent₁, hfile₁⟩ := h₁.dropAll_other hl hopen₁ hreplaced
  set s₂ := s₁.dropAll (s.eventLocations.filter fun m => m.requestId = l.requestId) with hs₂
  have h₂ : s₂.Registered := h₁.dropAll _
  have hmaps : s₂.eventLocations = s₁.eventLocations ∧ s₂.timebasedReplay = s.timebasedReplay ∧
      s₂.eventFiles = s.eventFiles := by
    obtain ⟨files, disk, -, heq⟩ := s₁.dropAll_frame
      (s.eventLocations.filter fun m => m.requestId = l.requestId)
    rw [hs₂, heq]
    exact ⟨rfl, rfl, rfl⟩
  set s₃ : Journal := { s₂ with
    timebasedReplay := (s₂.timebasedReplay.filter fun m => m.eventTime ≠ l.eventTime) ++ [l] }
    with hs₃
  have hl₂ : s₂.eventFiles.getD i none = some l.file := by rw [hmaps.2.2]; exact hl
  have h₃ : s₃.Registered := by
    refine h₂.congr ⟨rfl, rfl, rfl, fun _ => rfl⟩ fun m hm => ?_
    simp only [hs₃, List.mem_append, List.mem_singleton] at hm
    rcases hm with hm | hm | rfl
    · exact h₂.held m (List.mem_append_left _ hm)
    · exact h₂.held m (List.mem_append_right _ (List.mem_of_mem_filter hm))
    · exact ⟨i, hl₂⟩
  have hopen₃ : s₃.isOpen l.file = true := by
    refine isOpen_of_mem (l := l) ?_
    change l ∈ s₂.eventLocations
    rw [hmaps.1]
    exact List.mem_append_right _ (List.mem_singleton_self l)
  have hreplaced' : ∀ m ∈ s₂.timebasedReplay.filter fun m => m.eventTime = l.eventTime,
      ∃ j, s₃.eventFiles.getD j none = some m.file := fun m hm =>
    h₂.held m (List.mem_append_right _ (List.mem_of_mem_filter hm))
  obtain ⟨hcontent₃, hfile₃⟩ := h₃.dropAll_other hl₂ hopen₃ hreplaced'
  exact ⟨h₃.dropAll _, hcontent₃.trans hcontent₁, hfile₃.trans hfile₁⟩

/-! ### The invariant -/

/-- A length or an offset that is not more than the cap. -/
def Within (cap : Option ℕ) (n : ℕ) : Prop := ∀ m ∈ cap, n ≤ m

theorem Within.mono {cap : Option ℕ} {n m : ℕ} (h : Within cap m) (hle : n ≤ m) : Within cap n :=
  fun c hc => hle.trans (h c hc)

theorem Within.max {cap : Option ℕ} {n m : ℕ} (hn : Within cap n) (hm : Within cap m) :
    Within cap (max n m) := fun c hc => max_le (hn c hc) (hm c hc)

theorem within_none (n : ℕ) : Within none n := fun _ hm => by cases hm

/-- An offset that the events of a file can be appended at: there is no header yet, or it comes
after the header. -/
def AppendsWithin (cap : Option ℕ) (f : JournalFile) : Prop :=
  Within cap f.nextAppend ∧ (f.nextAppend = 0 ∨ 8 ≤ f.nextAppend)

/-- The object of a location is registered, its file is there and the status in it too. -/
structure Held (cap : Option ℕ) (s : Journal) (l : Location) : Prop where
  registered : ∃ i, s.eventFiles.getD i none = some l.file
  there : (s.disk (s.file l.file).index).isSome
  status : Within cap (l.offset + 3)

/-- A journal with these options and external files, and the cap of the offsets and the bytes of its
files. -/
structure Bounded (o : JournalOptions) (x : ExternalFiles) (cap : Option ℕ) (s : Journal) : Prop
    extends Registered s where
  options : s.options = o
  external : s.external = x
  header : Within cap (64 * 1024)
  files : ∀ f ∈ s.files, AppendsWithin cap f
  disk : ∀ i b, s.disk i = some b → Within cap b.length
  there : ∀ l ∈ s.eventLocations ++ s.timebasedReplay, (s.disk (s.file l.file).index).isSome
  statuses : ∀ l ∈ s.eventLocations ++ s.timebasedReplay, Within cap (l.offset + 3)

variable {o : JournalOptions} {x : ExternalFiles} {cap : Option ℕ}

theorem appendsWithin_zero (cap : Option ℕ) {f : JournalFile} (h : f.nextAppend = 0) :
    AppendsWithin cap f := ⟨fun m _ => by omega, .inl h⟩

theorem Bounded.file (h : s.Bounded o x cap) (p : ℕ) : AppendsWithin cap (s.file p) := by
  rw [Journal.file, List.getD_eq_getElem?_getD]
  cases hp : s.files[p]? with
  | none => exact appendsWithin_zero cap rfl
  | some f => exact h.files f (List.mem_of_getElem? hp)

theorem Bounded.content (h : s.Bounded o x cap) (p : ℕ) : Within cap (s.content p).length := by
  rw [Journal.content]
  cases hb : s.disk (s.file p).index with
  | none => exact fun _ _ => Nat.zero_le _
  | some b => exact h.disk _ b hb

/-- What holds of a location in one of the maps. -/
theorem Bounded.kept (h : s.Bounded o x cap) {l : Location}
    (hl : l ∈ s.eventLocations ++ s.timebasedReplay) : s.Held cap l :=
  ⟨h.held l hl, h.there l hl, h.statuses l hl⟩

/-- The maps have changed: their files are those of the journal still. -/
theorem Bounded.with_locations (h : s.Bounded o x cap) {c : Bool} {E T : List Location}
    (hheld : ∀ l ∈ E ++ T, s.Held cap l) :
    Bounded o x cap { s with canBeCompressed := c, eventLocations := E, timebasedReplay := T } where
  length := h.length
  entry := h.entry
  held l hl := (hheld l hl).registered
  options := h.options
  external := h.external
  header := h.header
  files := h.files
  disk := h.disk
  there l hl := (hheld l hl).there
  statuses l hl := (hheld l hl).status

/-- There are other external files. -/
theorem Bounded.with_external (h : s.Bounded o x cap) (x' : ExternalFiles) :
    Bounded o x' cap { s with external := x' } where
  length := h.length
  entry := h.entry
  held := h.held
  options := h.options
  external := rfl
  header := h.header
  files := h.files
  disk := h.disk
  there := h.there
  statuses := h.statuses

/-- An object and its file have changed; the file is still there when a location refers to it. -/
theorem Bounded.set (h : s.Bounded o x cap) {f : JournalFile} {d : Option Bytes}
    (hindex : f.index = (s.file p).index) (hf : AppendsWithin cap f)
    (hd : ∀ b, d = some b → Within cap b.length)
    (hthere : ∀ l ∈ s.eventLocations ++ s.timebasedReplay, (s.file l.file).index = (s.file p).index →
      d.isSome) :
    Bounded o x cap { s with
      files := s.files.set p f
      disk := Function.update s.disk (s.file p).index d } where
  toRegistered := h.toRegistered.congr (sameObjects_set hindex) h.held
  options := h.options
  external := h.external
  header := h.header
  files g hg := by
    rcases List.mem_or_eq_of_mem_set hg with hg | rfl
    · exact h.files g hg
    · exact hf
  disk i b hb := by
    change Function.update s.disk (s.file p).index d i = some b at hb
    by_cases hi : i = (s.file p).index
    · subst hi
      rw [Function.update_self] at hb
      exact hd b hb
    · rw [Function.update_of_ne hi] at hb
      exact h.disk i b hb
  there l hl := by
    rw [(sameObjects_set hindex).index l.file]
    change (Function.update s.disk (s.file p).index d (s.file l.file).index).isSome
    by_cases hi : (s.file l.file).index = (s.file p).index
    · rw [hi, Function.update_self]
      exact hthere l hl hi
    · rw [Function.update_of_ne hi]
      exact h.there l hl
  statuses := h.statuses

theorem Bounded.setFile (h : s.Bounded o x cap) {f : JournalFile}
    (hindex : f.index = (s.file p).index) (hf : AppendsWithin cap f) :
    (s.setFile p f).Bounded o x cap := by
  have hset := h.set hindex hf (h.disk (s.file p).index) fun l hl hi => hi ▸ h.there l hl
  rwa [Function.update_eq_self] at hset

theorem Bounded.modify (h : s.Bounded o x cap) {g : Bytes → Bytes}
    (hg : Within cap (g (s.content p)).length) : (s.modify p g).Bounded o x cap := by
  have hd : ∀ b, (s.disk (s.file p).index).map g = some b → Within cap b.length := by
    intro b hb
    obtain ⟨b₀, hb₀, rfl⟩ := Option.map_eq_some_iff.1 hb
    rw [Journal.content, hb₀, Option.getD_some] at hg
    exact hg
  have hset := h.set rfl (h.file p) hd fun l hl hi => by
    rw [Option.isSome_map, ← hi]
    exact h.there l hl
  rwa [set_file_self] at hset

/-- The file that is changed is still there. -/
theorem there_modify (hthere : (s.disk (s.file p).index).isSome) {g : Bytes → Bytes} :
    ((s.modify p g).disk (s.file p).index).isSome := by
  change (Function.update s.disk (s.file p).index _ (s.file p).index).isSome
  rw [Function.update_self, Option.isSome_map]
  exact hthere

theorem content_modify (hthere : (s.disk (s.file p).index).isSome) (g : Bytes → Bytes) :
    (s.modify p g).content p = g (s.content p) := by
  obtain ⟨b, hb⟩ := Option.isSome_iff_exists.1 hthere
  change (Function.update s.disk (s.file p).index _ (s.file p).index).getD [] =
    g ((s.disk (s.file p).index).getD [])
  rw [Function.update_self, hb]
  rfl

/-- A counted event changes neither the file of the object nor its bytes. -/
theorem disk_countEvent (s : Journal) (p offset : ℕ) :
    (s.countEvent p offset).disk ((s.countEvent p offset).file p).index =
      s.disk (s.file p).index := by
  have hindex : ((s.countEvent p offset).file p).index = (s.file p).index := index_setFile rfl
  rw [hindex]
  rfl

theorem length_writeAt (b : Bytes) (offset : ℕ) (data : Bytes) :
    (writeAt b offset data).length = max b.length (offset + data.length) := by
  have hlen : (b ++ List.replicate (offset - b.length) (0 : UInt8)).length = max b.length offset := by
    rw [List.length_append, List.length_replicate]
    omega
  rw [writeAt, List.length_overwrite (by omega), hlen]
  omega

theorem length_resizeFile (b : Bytes) (size : ℕ) : (resizeFile b size).length = size := by
  rw [resizeFile, List.length_append, List.length_take, List.length_replicate]
  omega

theorem Bounded.write (h : s.Bounded o x cap) {offset : ℕ} {data : Bytes}
    (hdata : Within cap (offset + data.length)) : (s.write p offset data).Bounded o x cap := by
  refine h.modify ?_
  rw [length_writeAt]
  exact (h.content p).max hdata

/-- A file that is closed gets the size of its events, with its header, or goes away. -/
theorem Bounded.truncate (h : s.Bounded o x cap) (hclosed : s.isOpen p = false)
    (hp : s.eventFiles.getD i none = some p) : (s.truncate p).Bounded o x cap := by
  have hoffset := (h.file p).1
  have hsize : Within cap (max 8 (s.file p).nextAppend) :=
    (h.header.mono (by decide)).max hoffset
  unfold Journal.truncate
  dsimp only
  split
  · split
    · refine h.write ((h.content p).mono ?_)
      rw [List.length_replicate]
      omega
    · exact h
  · refine h.modify ?_
    rw [length_resizeFile]
    exact hsize
  · split
    · refine h.set rfl (appendsWithin_zero cap rfl) (fun b hb => by cases hb) fun l hl hi => ?_
      -- a location of this file would keep its object
      obtain ⟨j, hj⟩ := h.held l hl
      rw [(h.entry i p hp).2, (h.entry j l.file hj).2] at hi
      have hfile : l.file = p := Option.some.inj (hj.symm.trans (hi ▸ hp))
      have hopen := isOpen_of_mem_append hl
      rw [hfile, hclosed] at hopen
      cases hopen
    · refine h.modify ?_
      rw [length_resizeFile]
      exact hsize

theorem Bounded.drop (h : s.Bounded o x cap) (hp : s.eventFiles.getD i none = some p) :
    (s.drop p).Bounded o x cap := by
  rw [Journal.drop]
  split
  · exact h
  · next hopen => exact h.truncate (Bool.eq_false_iff.2 hopen) hp

theorem Bounded.dropAll (h : s.Bounded o x cap) {ls : List Location}
    (hls : ∀ l ∈ ls, ∃ j, s.eventFiles.getD j none = some l.file) :
    (s.dropAll ls).Bounded o x cap := by
  induction ls generalizing s with
  | nil => exact h
  | cons l ls ih =>
    obtain ⟨j, hj⟩ := hls l List.mem_cons_self
    refine ih (h.drop hj) fun m hm => ?_
    rw [(sameObjects_drop s l.file).eventFiles]
    exact hls m (List.mem_cons_of_mem _ hm)

/-- A location of a file of the journal is entered. -/
theorem Bounded.insertLocation (h : s.Bounded o x cap) {l : Location} (hl : s.Held cap l) :
    (s.insertLocation l).Bounded o x cap := by
  unfold Journal.insertLocation
  dsimp only
  have hfirst : Bounded o x cap { s with
      eventLocations := (s.eventLocations.filter fun m => m.requestId ≠ l.requestId) ++ [l] } := by
    refine h.with_locations fun m hm => ?_
    simp only [List.mem_append, List.mem_singleton] at hm
    rcases hm with (hm | rfl) | hm
    · exact h.kept (List.mem_append_left _ (List.mem_of_mem_filter hm))
    · exact hl
    · exact h.kept (List.mem_append_right _ hm)
  have hreplaced : ∀ m ∈ s.eventLocations.filter fun m => m.requestId = l.requestId,
      ∃ j, s.eventFiles.getD j none = some m.file := fun m hm =>
    h.held m (List.mem_append_left _ (List.mem_of_mem_filter hm))
  have hdropped := hfirst.dropAll hreplaced
  obtain ⟨files, disk, -, hframe⟩ := dropAll_frame { s with
    eventLocations := (s.eventLocations.filter fun m => m.requestId ≠ l.requestId) ++ [l] }
    (s.eventLocations.filter fun m => m.requestId = l.requestId)
  rw [hframe] at hdropped ⊢
  have hkept := hdropped.kept (List.mem_append_left _
    (List.mem_append_right _ (List.mem_singleton_self l)))
  refine Bounded.dropAll ?_ fun m hm => ?_
  · refine hdropped.with_locations fun m hm => ?_
    simp only [List.mem_append, List.mem_singleton] at hm
    rcases hm with hm | hm | rfl
    · exact hdropped.kept (List.mem_append_left _ (by simpa using hm))
    · exact hdropped.kept (List.mem_append_right _ (List.mem_of_mem_filter hm))
    · exact hkept
  · exact hdropped.held m (List.mem_append_right _ (List.mem_of_mem_filter hm))

theorem Bounded.countEvent (h : s.Bounded o x cap) {offset : ℕ} (hoffset : 8 ≤ offset)
    (hcap : Within cap offset) : (s.countEvent p offset).Bounded o x cap :=
  h.setFile rfl ⟨hcap, .inr hoffset⟩

/-- A file object that was just made has no event. -/
theorem Bounded.opened (h : s.Bounded o x cap) {b : Bytes} {index : ℕ}
    (hlock : s.lock index = none) (hb : Within cap b.length) :
    (s.opened index b).Bounded o x cap where
  length := (List.length_set ..).trans h.length
  entry i p hp := by
    change (s.eventFiles.set index (some s.files.length)).getD i none = some p at hp
    change p < (s.files ++ [({ index } : JournalFile)]).length ∧
      ((s.files ++ [({ index } : JournalFile)]).getD p default).index = i
    rw [List.length_append, List.length_singleton, List.getD_eq_getElem?_getD]
    rw [List.getD_eq_getElem?_getD, List.getElem?_set] at hp
    split at hp
    · next hi =>
      subst hi
      split at hp
      · cases Option.some.inj hp
        rw [List.getElem?_concat_length]
        exact ⟨by omega, rfl⟩
      · cases hp
    · rw [← List.getD_eq_getElem?_getD] at hp
      obtain ⟨hlt, hindex⟩ := h.entry i p hp
      rw [List.getElem?_append_left hlt, ← List.getD_eq_getElem?_getD]
      exact ⟨by omega, hindex⟩
  held l hl := by
    obtain ⟨i, hi⟩ := h.held l hl
    -- the object is referred to, that of this index is not
    have hopen : s.isOpen l.file = true := isOpen_of_mem_append hl
    have hne : index ≠ i := by
      rintro rfl
      rw [Journal.lock, hi, Option.filter_some, if_pos hopen] at hlock
      cases hlock
    refine ⟨i, ?_⟩
    change (s.eventFiles.set index (some s.files.length)).getD i none = some l.file
    rw [List.getD_set_ne hne.symm, hi]
  options := h.options
  external := h.external
  header := h.header
  files f hf := by
    rcases List.mem_append.1 hf with hf | hf
    · exact h.files f hf
    · cases List.mem_singleton.1 hf
      exact appendsWithin_zero cap rfl
  disk i b' hb' := by
    change Function.update s.disk index (some b) i = some b' at hb'
    by_cases hi : i = index
    · subst hi
      rw [Function.update_self] at hb'
      exact Option.some.inj hb' ▸ hb
    · rw [Function.update_of_ne hi] at hb'
      exact h.disk i b' hb'
  there l hl := by
    obtain ⟨i, hi⟩ := h.held l hl
    rw [file_opened s (h.entry i l.file hi).1]
    change (Function.update s.disk index (some b) (s.file l.file).index).isSome
    by_cases hindex : (s.file l.file).index = index
    · rw [hindex, Function.update_self]
      rfl
    · rw [Function.update_of_ne hindex]
      exact h.there l hl
  statuses := h.statuses

/-- The object that `get_event_file()` returns is that of a weak pointer, and its file is there. -/
theorem Bounded.openFile (h : s.Bounded o x cap) (index : ℕ) (create : Bool)
    (hi : index < s.options.maximumNumberOfFiles) : (s.openFile index create).2.Bounded o x cap ∧
      ∀ p, (s.openFile index create).1 = some p →
        (s.openFile index create).2.eventFiles.getD index none = some p ∧
        ((s.openFile index create).2.disk ((s.openFile index create).2.file p).index).isSome := by
  obtain ⟨p, hlock, ho⟩ | ⟨-, -, -, ho⟩ | ⟨hlock, b, hb, ho⟩ := s.openFile_cases index create
  · rw [ho]
    refine ⟨h, fun q hq => ?_⟩
    cases Option.some.inj hq
    obtain ⟨hentry, hopen⟩ := Option.filter_eq_some_iff.1 hlock
    rw [Journal.isOpen, ← List.any_append, List.any_eq_true] at hopen
    obtain ⟨l, hl, hfile⟩ := hopen
    refine ⟨hentry, ?_⟩
    rw [← of_decide_eq_true hfile]
    exact h.there l hl
  · rw [ho]
    exact ⟨h, fun q hq => by cases hq⟩
  · rw [ho]
    have hlen : Within cap b.length := by
      rcases hb with hb | ⟨-, -, rfl⟩
      · exact h.disk index b hb
      · exact fun _ _ => Nat.zero_le _
    refine ⟨h.opened hlock hlen, fun q hq => ?_⟩
    cases Option.some.inj hq
    refine ⟨?_, ?_⟩
    · change (s.eventFiles.set index (some s.files.length)).getD index none = _
      rw [List.getD_eq_getElem?_getD, List.getElem?_set_self (by rw [h.length]; exact hi),
        Option.getD_some]
    · rw [file_opened_self]
      change (Function.update s.disk index (some b) index).isSome
      rw [Function.update_self]
      rfl

/-! ### Reading the files -/

/-- The events that the loop finds are all there, and an event is only moved down. -/
theorem Bounded.loadEvents (now : ℤ) (compress : Bool) (index fuel : ℕ) {s : Journal}
    (offset : ℕ) (tellp : Option ℕ) (h : s.Bounded o x cap)
    (hp : s.eventFiles.getD i none = some p) (hoffset : 8 ≤ offset)
    (htellp : ∀ t ∈ tellp, 8 ≤ t ∧ t ≤ offset) :
    (loadEvents now compress index p fuel s offset tellp).Bounded o x cap ∧
      (loadEvents now compress index p fuel s offset tellp).eventFiles.getD i none = some p := by
  induction fuel generalizing s offset tellp with
  | zero => exact ⟨h, hp⟩
  | succ fuel ih =>
    have hcontent := h.content p
    rw [Journal.loadEvents]
    split
    · next hvalid =>
      have hsize : EventFile.size (s.content p) offset + offset ≤ (s.content p).length :=
        hvalid.2.2.2.2.2.1
      have hheader : offset + 32 ≤ (s.content p).length := hvalid.1
      have hinside : EventFile.prefixSize (s.content p) offset <
        EventFile.size (s.content p) offset := hvalid.2.2.2.2.2.2.1
      have hthere : (s.disk (s.file p).index).isSome := by
        rw [Journal.content] at hheader
        cases hb : s.disk (s.file p).index with
        | none => rw [hb] at hheader; exact absurd hheader (by simp)
        | some b => rfl
      -- an event that is entered at `target`, in the file that was read
      have hentered : ∀ target ≤ offset,
          (s.insertLocation (locationAt (s.content p) p index offset target)).Bounded o x cap ∧
          (s.insertLocation (locationAt (s.content p) p index offset target)).eventFiles.getD i none =
            some p := by
        intro target htarget
        obtain ⟨files, disk, -, heq⟩ :=
          s.insertLocation_frame (locationAt (s.content p) p index offset target)
        refine ⟨h.insertLocation ⟨⟨i, hp⟩, hthere, hcontent.mono ?_⟩, by rw [heq]; exact hp⟩
        change target + 3 ≤ _
        omega
      split
      · split
        · next target htarget =>
          have hfrom : 8 ≤ target ∧ target ≤ offset := by
            split at htarget
            · exact htellp target htarget
            · cases htarget
          obtain ⟨hinserted, hentry⟩ := hentered target hfrom.2
          set l := locationAt (s.content p) p index offset target
          obtain ⟨-, hsame, -⟩ := h.toRegistered.insertLocation (l := l) hp
          have hmoved : ((s.insertLocation l).modify p
              fun b => moveEvent b offset target).Bounded o x cap := by
            refine hinserted.modify ?_
            rw [show (s.insertLocation l).content p = s.content p from hsame,
              moveEvent_eq hfrom.2 (by omega) hinside.le, List.length_overwrite_of_le]
            · exact hcontent
            · rw [List.length_slice_of_le (by omega)]
              omega
          refine ih _ _ (hmoved.countEvent (by omega) (hcontent.mono (by omega))) hentry (by omega) ?_
          rintro _ ⟨⟩
          omega
        · obtain ⟨hinserted, hentry⟩ := hentered offset le_rfl
          refine ih _ _ (hinserted.countEvent (by omega) (hcontent.mono (by omega))) hentry (by omega)
            fun t ht => ?_
          have := htellp t ht
          omega
      · refine ih _ _ ?_ hp (by omega) ?_
        · exact h.with_locations fun l hl => h.kept hl
        · rintro _ ⟨⟩
          cases tellp with
          | none => exact ⟨hoffset, by simp⟩
          | some t =>
            have := htellp t rfl
            rw [Option.getD_some]
            omega
    · exact ⟨h, hp⟩

theorem Bounded.loadFile (h : s.Bounded o x cap) (now : ℤ) (compress : Bool) {index : ℕ}
    (hi : index < o.maximumNumberOfFiles) : (loadFile now compress s index).Bounded o x cap := by
  obtain ⟨hopen, hfile⟩ := h.openFile index false (by rw [h.options]; exact hi)
  unfold Journal.loadFile
  split
  · next s' ho =>
    rw [ho] at hopen
    exact hopen
  · next p s' ho =>
    rw [ho] at hopen hfile
    have hentry : s'.eventFiles.getD index none = some p := (hfile p rfl).1
    have hcleared : (s'.setFile p { s'.file p with eventCount := 0 }).Bounded o x cap :=
      hopen.setFile rfl (hopen.file p)
    dsimp only
    split
    · obtain ⟨hload, hentry'⟩ := hcleared.loadEvents now compress index
        ((s'.setFile p { s'.file p with eventCount := 0 }).content p).length 8 none hentry le_rfl
        fun t ht => by cases ht
      exact hload.drop hentry'
    · exact hcleared.drop hentry

theorem Bounded.loadFiles (h : s.Bounded o x cap) (now : ℤ) (compress : Bool) {indexes : List ℕ}
    (hi : ∀ index ∈ indexes, index < o.maximumNumberOfFiles) :
    (indexes.foldl (Journal.loadFile now compress) s).Bounded o x cap := by
  induction indexes generalizing s with
  | nil => exact h
  | cons index indexes ih =>
    exact ih (h.loadFile now compress (hi index List.mem_cons_self)) fun i hmem =>
      hi i (List.mem_cons_of_mem _ hmem)

theorem Bounded.loadEventLocations (h : s.Bounded o x cap) (now : ℤ) (compress : Bool) :
    (s.loadEventLocations now compress).Bounded o x cap := by
  have hcleared : Bounded o x cap { s with canBeCompressed := false, eventLocations := [] } := by
    exact h.with_locations fun l hl => h.kept (List.mem_append_right _ hl)
  have hreplaced : ∀ l ∈ s.eventLocations, ∃ j, s.eventFiles.getD j none = some l.file :=
    fun l hl => h.held l (List.mem_append_left _ hl)
  have hdropped := hcleared.dropAll hreplaced
  refine hdropped.loadFiles now compress fun index hmem => ?_
  rw [← h.options]
  exact List.mem_range.1 hmem

/-! ### Adding an event -/

/-- Where the next event goes once the file has a header. -/
theorem nextAppend_writeJournalHeader (hp : p < s.files.length) :
    ((s.writeJournalHeader p).file p).nextAppend =
      if (s.file p).nextAppend = 0 then 8 else (s.file p).nextAppend := by
  unfold writeJournalHeader
  split
  · rw [Journal.file, setFile, List.getD_eq_getElem?_getD]
    exact congrArg (fun f => (Option.getD f default).nextAppend) (List.getElem?_set_self hp)
  · rfl

theorem there_writeJournalHeader (hthere : (s.disk (s.file p).index).isSome) :
    ((s.writeJournalHeader p).disk ((s.writeJournalHeader p).file p).index).isSome := by
  unfold writeJournalHeader
  split
  · rw [index_setFile (s := s.write p 0 journalHeader) (p := p)
      (f := { s.file p with nextAppend := 8 }) rfl]
    exact there_modify hthere
  · exact hthere

theorem writeJournalHeader_frame (s : Journal) (p : ℕ) :
    (s.writeJournalHeader p).options = s.options ∧ (s.writeJournalHeader p).external = s.external ∧
      (s.writeJournalHeader p).eventFiles = s.eventFiles := by
  unfold writeJournalHeader
  split <;> exact ⟨rfl, rfl, rfl⟩

/-- The offsets of the attachments of an event and the files of the large ones. -/
def placed (s : Journal) (event : InEvent) : List ℕ × ExternalFiles :=
  placeAttachments s.options.inlineAttachmentSizeThreshold event.attachments (baseSize event)
    s.external

/-- The bytes that are written for an event. -/
def newBytes (s : Journal) (event : InEvent) (time : ℤ) : Bytes :=
  eventBytes event (s.eventSize event) time (s.placed event).1
    (inlineData s.options.inlineAttachmentSizeThreshold event)

theorem length_newBytes (s : Journal) (event : InEvent) (time : ℤ) :
    (s.newBytes event time).length = s.eventSize event := by
  rw [newBytes, length_eventBytes, eventSize]
  exact length_placeAttachments ..

/-- Before the event is entered in the maps: its bytes are written and it is counted. -/
def appended (s : Journal) (p : ℕ) (event : InEvent) (time : ℤ) : Journal :=
  let s₁ := s.writeJournalHeader p
  (({ s₁ with external := (s.placed event).2 } : Journal).write p (s₁.file p).nextAppend
    (s.newBytes event time)).countEvent p ((s₁.file p).nextAppend + s.eventSize event)

theorem writeNewEvent_eq (s : Journal) (p : ℕ) (event : InEvent) (time : ℤ) :
    s.writeNewEvent p event time = (s.appended p event time).insertLocation
      ((s.writeJournalHeader p).newLocation p event time) := by
  obtain ⟨hoptions, hexternal, -⟩ := s.writeJournalHeader_frame p
  have hsize : ((s.writeJournalHeader p).newLocation p event time).size = s.eventSize event := by
    change (s.writeJournalHeader p).eventSize event = _
    rw [eventSize, eventSize, hoptions]
  unfold Journal.writeNewEvent
  dsimp only
  rw [hexternal, hsize]
  rfl

/-- The event was written after the header and the events of the file, and its bytes are there. -/
theorem Registered.writeNewEvent (h : s.Registered) (hp : s.eventFiles.getD i none = some p)
    (event : InEvent) (time : ℤ) : (s.writeNewEvent p event time).lock i = some p ∧
      (s.writeNewEvent p event time).options = s.options ∧
      ((s.writeNewEvent p event time).file p).nextAppend =
        (if (s.file p).nextAppend = 0 then 8 else (s.file p).nextAppend) + s.eventSize event ∧
      (s.writeNewEvent p event time).content p = (s.appended p event time).content p := by
  have hmade := (h.entry i p hp).1
  set s₁ : Journal := { s.writeJournalHeader p with external := (s.placed event).2 } with hs₁
  set offset := ((s.writeJournalHeader p).file p).nextAppend with hoffset
  set s₂ := s.appended p event time with hs₂
  have hheader : SameObjects s s₁ ∧ s₁.eventLocations = s.eventLocations ∧
      s₁.timebasedReplay = s.timebasedReplay := by
    rw [hs₁]
    unfold writeJournalHeader
    split
    · have hwritten := sameObjects_modify s p fun b => writeAt b 0 journalHeader
      have hset := hwritten.trans (sameObjects_setFile (s := s.write p 0 journalHeader) (p := p)
        (f := { s.file p with nextAppend := 8 }) rfl)
      exact ⟨⟨hset.options, hset.eventFiles, hset.length, hset.index⟩, rfl, rfl⟩
    · exact ⟨⟨rfl, rfl, rfl, fun _ => rfl⟩, rfl, rfl⟩
  obtain ⟨hsame, hlocations, hreplay⟩ := hheader
  have hsame₂ : SameObjects s s₂ :=
    (hsame.trans (sameObjects_modify s₁ p fun b => writeAt b offset (s.newBytes event time))).trans
      (sameObjects_setFile rfl)
  have hregistered : s₂.Registered := by
    refine h.congr hsame₂ fun l hl => h.held l ?_
    change l ∈ s₁.eventLocations ++ s₁.timebasedReplay at hl
    rwa [hlocations, hreplay] at hl
  have hp₂ : s₂.eventFiles.getD i none = some p := by
    rw [hsame₂.eventFiles]
    exact hp
  have hfile : (s₂.file p).nextAppend = offset + s.eventSize event := by
    rw [hs₂, appended, countEvent, Journal.file, setFile, List.getD_eq_getElem?_getD,
      List.getElem?_set_self (by rw [← hsame.length] at hmade; exact hmade), Option.getD_some]
  obtain ⟨-, hcontent, hinserted⟩ := hregistered.insertLocation
    (l := (s.writeJournalHeader p).newLocation p event time) hp₂
  obtain ⟨files, disk, -, hframe⟩ := s₂.insertLocation_frame
    ((s.writeJournalHeader p).newLocation p event time)
  rw [s.writeNewEvent_eq]
  refine ⟨?_, ?_, ?_, hcontent⟩
  · have hopen : (s₂.insertLocation ((s.writeJournalHeader p).newLocation p event time)).isOpen p =
        true := by
      refine isOpen_of_mem (l := (s.writeJournalHeader p).newLocation p event time) ?_
      rw [hframe]
      exact List.mem_append_right _ (List.mem_singleton_self _)
    rw [Journal.lock]
    rw [show (s₂.insertLocation _).eventFiles = s₂.eventFiles by rw [hframe], hp₂,
      Option.filter_some, if_pos hopen]
  · rw [hframe]
    exact hsame₂.options
  · rw [← nextAppend_writeJournalHeader hmade, ← hoffset, ← hfile]
    exact congrArg JournalFile.nextAppend hinserted

/-- The event that is written is within the cap, with the header of its file. -/
theorem Bounded.writeNewEvent (h : s.Bounded o x cap) (hp : s.eventFiles.getD i none = some p)
    (hthere : (s.disk (s.file p).index).isSome) (event : InEvent) (time : ℤ)
    (hroom : Within cap ((if (s.file p).nextAppend = 0 then 8 else (s.file p).nextAppend) +
      s.eventSize event)) :
    (s.writeNewEvent p event time).Bounded o (s.placed event).2 cap := by
  have hmade := (h.entry i p hp).1
  have hoffset := nextAppend_writeJournalHeader hmade
  rw [← hoffset] at hroom
  have hbounded : (s.writeJournalHeader p).Bounded o x cap := by
    unfold writeJournalHeader
    split
    · have hwritten : (s.write p 0 journalHeader).Bounded o x cap :=
        h.write (h.header.mono (by decide))
      exact hwritten.setFile rfl ⟨h.header.mono (by decide : 8 ≤ 64 * 1024), .inr (le_refl 8)⟩
    · exact h
  have hexternal := hbounded.with_external (s.placed event).2
  have hwritten : (({ s.writeJournalHeader p with external := (s.placed event).2 } : Journal).write p
      ((s.writeJournalHeader p).file p).nextAppend (s.newBytes event time)).Bounded o
        (s.placed event).2 cap :=
    hexternal.write (by rw [length_newBytes]; exact hroom)
  rw [s.writeNewEvent_eq]
  refine Bounded.insertLocation (hwritten.countEvent ?_ hroom) ⟨⟨i, ?_⟩, ?_, ?_⟩
  · rw [hoffset]
    have := (h.file p).2
    split <;> omega
  · change (s.writeJournalHeader p).eventFiles.getD i none = some p
    rw [(s.writeJournalHeader_frame p).2.2]
    exact hp
  · refine (congrArg Option.isSome (disk_countEvent _ p _)).trans ?_
    exact there_modify (there_writeJournalHeader hthere)
  · refine hroom.mono ?_
    change ((s.writeJournalHeader p).file p).nextAppend + 3 ≤ _
    have hsize : 32 ≤ s.eventSize event := by
      rw [eventSize, baseSize]
      omega
    omega

/-- The file that an event was written in had room for it. -/
structure Written (o : JournalOptions) (x : ExternalFiles) (cap : Option ℕ) (event : InEvent)
    (s' : Journal) : Prop where
  exists_file : ∃ (s : Journal) (p i : ℕ) (time : ℤ), s.Bounded o x cap ∧
    s.eventFiles.getD i none = some p ∧ (s.disk (s.file p).index).isSome ∧
    s.hasRoom p (s.eventSize event) = true ∧ s' = s.writeNewEvent p event time

theorem Bounded.nextFile (h : s.Bounded o x cap) : s.nextFile.Bounded o x cap :=
  ⟨⟨h.length, h.entry, h.held⟩, h.options, h.external, h.header, h.files, h.disk, h.there, h.statuses⟩

/-- What the loop over the files can do. -/
theorem Bounded.tryFiles (h : s.Bounded o x cap) (event : InEvent) (time : ℤ) (count : ℕ) :
    (tryFiles event time count s).1 ≠ .ok (some true) ∧
        (tryFiles event time count s).2.Bounded o x cap ∨
      (tryFiles event time count s).1 = .ok (some true) ∧
        Written o x cap event (tryFiles event time count s).2 := by
  induction count generalizing s with
  | zero => exact .inl ⟨by simp [Journal.tryFiles], h⟩
  | succ count ih =>
    rw [Journal.tryFiles, getEventFile]
    by_cases hcurrent : s.options.maximumNumberOfFiles ≤ s.currentFileIndex
    · rw [if_pos hcurrent]
      exact .inl ⟨by simp, h⟩
    · rw [if_neg hcurrent]
      obtain ⟨hopen, hfile⟩ := h.openFile s.currentFileIndex true (by omega)
      generalize s.openFile s.currentFileIndex true = opened at hopen hfile
      obtain ⟨_ | p, s₁⟩ := opened
      · exact .inl ⟨by simp, hopen⟩
      · dsimp only at hopen hfile ⊢
        split
        · next hroom =>
          exact .inr ⟨rfl, ⟨s₁, p, s.currentFileIndex, time, hopen, (hfile p rfl).1, (hfile p rfl).2,
            hroom, rfl⟩⟩
        · exact ih (hopen.nextFile.drop (hfile p rfl).1)

/-- A call that does not add its event keeps the bound. -/
theorem Bounded.addEvent (h : s.Bounded o x cap) (now : ℤ) (event : InEvent) (eventTime : ℤ) :
    (s.addEvent now event eventTime).1 ≠ .ok true ∧
        (s.addEvent now event eventTime).2.Bounded o x cap ∨
      (s.addEvent now event eventTime).1 = .ok true ∧
        Written o x cap event (s.addEvent now event eventTime).2 := by
  unfold Journal.addEvent
  split
  · exact .inl ⟨by simp, h⟩
  · have htry := h.tryFiles event (s.savedTime eventTime) s.options.maximumNumberOfFiles
    dsimp only
    generalize Journal.tryFiles event (s.savedTime eventTime) s.options.maximumNumberOfFiles s =
      tried at htry
    obtain ⟨e | r, s₁⟩ := tried
    · exact .inl ⟨by simp, (htry.resolve_right (by simp)).2⟩
    · cases r with
      | some r =>
        cases r with
        | false => exact .inl ⟨by simp, (htry.resolve_right (by simp)).2⟩
        | true => exact .inr ⟨rfl, (htry.resolve_left (by simp)).2⟩
      | none =>
        have hfull : s₁.Bounded o x cap := (htry.resolve_right (by simp)).2
        dsimp only
        split
        · have hretry := (hfull.loadEventLocations now true).tryFiles event (s.savedTime eventTime)
            (s₁.loadEventLocations now true).options.maximumNumberOfFiles
          generalize Journal.tryFiles event (s.savedTime eventTime) _
            (s₁.loadEventLocations now true) = tried at hretry
          obtain ⟨e | r, s₂⟩ := tried
          · exact .inl ⟨by simp, (hretry.resolve_right (by simp)).2⟩
          · obtain _ | _ | _ := r
            · exact .inl ⟨by simp, (hretry.resolve_right (by simp)).2⟩
            · exact .inl ⟨by simp, (hretry.resolve_right (by simp)).2⟩
            · exact .inr ⟨rfl, (hretry.resolve_left (by simp)).2⟩
        · exact .inl ⟨by simp, hfull⟩

/-! ### Changing the status of an event -/

theorem Bounded.setStatus (h : s.Bounded o x cap) (l : Location) (status : Status) :
    (s.setStatus l status).Bounded o x cap := by
  refine h.with_locations fun m hm => ?_
  rw [← List.map_append] at hm
  obtain ⟨m, hmem, rfl⟩ := List.mem_map.1 hm
  by_cases heq : m = l
  · rw [if_pos heq]
    obtain ⟨hregistered, hthere, hstatus⟩ := h.kept (l := l) (heq ▸ hmem)
    exact ⟨hregistered, hthere, hstatus⟩
  · rw [if_neg heq]
    exact h.kept hmem

/-- An event that is done leaves the maps and its file. -/
theorem Bounded.erase (h : s.Bounded o x cap) (l : Location) (requestId : Bytes) :
    (((s.eraseReplay l).eraseLocation requestId).uncountEvent l.file).Bounded o x cap ∧
      (((s.eraseReplay l).eraseLocation requestId).uncountEvent l.file).eventFiles =
        s.eventFiles := by
  have hreplay : Bounded o x cap { s with
      canBeCompressed := true
      timebasedReplay := s.timebasedReplay.filter fun m => m.eventTime ≠ l.eventTime } := by
    refine h.with_locations fun m hm => h.kept ?_
    rcases List.mem_append.1 hm with hm | hm
    · exact List.mem_append_left _ hm
    · exact List.mem_append_right _ (List.mem_of_mem_filter hm)
  have hfiles : (s.eraseReplay l).eventFiles = s.eventFiles := by
    obtain ⟨files, disk, -, heq⟩ := dropAll_frame { s with
      canBeCompressed := true
      timebasedReplay := s.timebasedReplay.filter fun m => m.eventTime ≠ l.eventTime }
      (s.timebasedReplay.filter fun m => m.eventTime = l.eventTime)
    rw [Journal.eraseReplay, heq]
  have herased : (s.eraseReplay l).Bounded o x cap := hreplay.dropAll fun m hm =>
    h.held m (List.mem_append_right _ (List.mem_of_mem_filter hm))
  have hlocation : ((s.eraseReplay l).eraseLocation requestId).Bounded o x cap := by
    refine herased.with_locations fun m hm => herased.kept ?_
    rcases List.mem_append.1 hm with hm | hm
    · exact List.mem_append_left _ (List.mem_of_mem_filter hm)
    · exact List.mem_append_right _ hm
  have hfile := hlocation.file l.file
  refine ⟨hlocation.setFile rfl ⟨?_, ?_⟩, hfiles⟩
  · dsimp only
    split
    · exact h.header.mono (by decide)
    · exact hfile.1
  · dsimp only
    split
    · exact .inr le_rfl
    · exact hfile.2

theorem Bounded.updateEventStatus (h : s.Bounded o x cap) (requestId : Bytes) (status : Status) :
    (s.updateEventStatus requestId status).2.Bounded o x cap := by
  unfold Journal.updateEventStatus
  split
  · exact h
  · next l hfind =>
    have hl := List.mem_append_left s.timebasedReplay (List.mem_of_find?_eq_some hfind)
    obtain ⟨i, hi⟩ := h.held l hl
    split
    · have hwritten : (s.write l.file (l.offset + 2) [status.code]).Bounded o x cap :=
        h.write (h.statuses l hl)
      dsimp only
      split
      · exact hwritten.setStatus l status
      · obtain ⟨herased, hfiles⟩ := hwritten.erase l requestId
        exact herased.drop (i := i) (by rw [hfiles]; exact hi)
    · exact h

/-! ### Runs -/

/-- A journal that has no file object yet. -/
theorem bounded_construct (options : JournalOptions) {disk : ℕ → Option Bytes}
    (external : ExternalFiles) (now : ℤ) (hheader : Within cap (64 * 1024))
    (hdisk : ∀ i b, disk i = some b → Within cap b.length) :
    (construct options disk external now).Bounded options external cap := by
  refine Bounded.loadEventLocations ?_ now false
  exact
    { length := List.length_replicate
      entry := fun i p hp => by rw [getD_replicate_none] at hp; cases hp
      held := fun l hl => by cases hl
      options := rfl
      external := rfl
      header := hheader
      files := fun f hf => by cases hf
      disk := hdisk
      there := fun l hl => by cases hl
      statuses := fun l hl => by cases hl }

/-- Without a cap there is nothing to ask of the events. -/
theorem Bounded.run (h : s.Bounded o x none) (calls : List EventCall) :
    ∃ x', (calls.foldl EventCall.step s).Bounded o x' none := by
  induction calls generalizing s x with
  | nil => exact ⟨x, h⟩
  | cons c calls ih =>
    have hstep : ∃ x', (c.step s).Bounded o x' none := by
      cases c with
      | addEvent now event eventTime =>
        obtain ⟨-, hbounded⟩ | ⟨-, hwritten⟩ := h.addEvent now event eventTime
        · exact ⟨x, hbounded⟩
        · obtain ⟨s₁, p, i, time, hs, hp, hthere, -, heq⟩ := hwritten.exists_file
          rw [EventCall.step, EventCall.run, heq]
          exact ⟨_, hs.writeNewEvent hp hthere event time (within_none _)⟩
      | eventForwarded requestId => exact ⟨x, h.updateEventStatus requestId .forwarded⟩
      | eventAcknowledged requestId => exact ⟨x, h.updateEventStatus requestId .acknowledged⟩
      | eventCompleted requestId => exact ⟨x, h.updateEventStatus requestId .completed⟩
      | eventFailed requestId => exact ⟨x, h.updateEventStatus requestId .failed⟩
    obtain ⟨x', hstep⟩ := hstep
    exact ih hstep

end Journal

end Prinbee
