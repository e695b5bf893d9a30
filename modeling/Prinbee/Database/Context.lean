import Prinbee.Basic
import Prinbee.Lib.Run

/-!
# Contexts

`context.cpp`: a context has a name of up to four segments, a description and a version that goes
up with each change, so that of two changes made from the same version only one is applied.  It is
saved in the file `context.pb` of its directory; a file is kept here as the fields of its
structure.

## Main definitions

* `ContextSetup.setName` — the check of a name, and its canonical form.
* `ContextFile`, `Context`, `ContextState` — the fields of a context, saved and in memory.
* `ContextState.update` — `context_impl::update()`.
* `ContextState.Kept` — what an update keeps.
* `ContextState.Versioned` — an update of the same version changes nothing.

## Main results

* `ContextState.kept_run_iff` — in which runs of updates no update is lost.
-/

namespace Prinbee

/-! ### Names -/

namespace ContextSetup

/-- `MAX_CONTEXT_NAME_SEGMENTS` and `MAX_CONTEXT_NAME_SEGMENT_LENGTH`. -/
def maxSegments : ℕ := 4

@[inherit_doc maxSegments]
def maxSegmentLength : ℕ := 100

/-- The characters of a name; digits are not accepted at the start. -/
def isNameChar (first : Bool) (c : Char) : Bool :=
  ('a' ≤ c && c ≤ 'z') || ('A' ≤ c && c ≤ 'Z') || c == '_' || (!first && '0' ≤ c && c ≤ '9')

/-- `validate_name()`. -/
def validateName (name : List Char) (maxLength : ℕ) : Bool :=
  match name with
  | [] => false
  | c :: cs => decide (name.length ≤ maxLength) && isNameChar true c && cs.all (isNameChar false)

/-- `tokenize_string()` at the slashes, without empty strings. -/
def segments (name : List Char) : List (List Char) := (name.splitOn '/').filter (· ≠ [])

/-- The text of the exception. -/
def notAtEnds (name : List Char) : String :=
  "a context name cannot start or end with '/', \"" ++ String.ofList name ++ "\" is not valid."

@[inherit_doc notAtEnds]
def tooMany (name : List Char) : String :=
  "a context name cannot include that many '/', \"" ++ String.ofList name ++
    "\" is not valid (limit is " ++ toString maxSegments ++ ")."

@[inherit_doc notAtEnds]
def segmentNotValid (segment : List Char) : String :=
  "context name segment \"" ++ String.ofList segment ++ "\" is not considered valid."

/-- `context_setup::set_name()`: the canonical name.  A segment is checked up to its first null
character. -/
def setName (name : List Char) : Except Failure (List Char) :=
  if name = [] then
    .error (.thrown .invalidParameter "the context name cannot be an empty string.")
  else if name.head? = some '/' ∨ name.getLast? = some '/' then
    .error (.thrown .invalidParameter (notAtEnds name))
  else if maxSegments < (segments name).length then
    .error (.thrown .invalidParameter (tooMany name))
  else
    match (segments name).find? fun s =>
        !validateName (s.takeWhile (· ≠ Char.ofNat 0)) maxSegmentLength with
    | some s => .error (.thrown .invalidName (segmentNotValid s))
    | none => .ok (['/'].intercalate (segments name))

theorem not_mem_of_mem_splitOn {x : Char} {l s : List Char} (h : s ∈ l.splitOn x) : x ∉ s := by
  induction l generalizing s with
  | nil =>
    rw [List.splitOn_nil, List.mem_singleton] at h
    exact h ▸ List.not_mem_nil
  | cons a l ih =>
    rw [List.splitOn_cons_eq_if_modifyHead] at h
    split at h
    · rcases List.mem_cons.1 h with rfl | h
      · exact List.not_mem_nil
      · exact ih h
    · next hne =>
      cases hl : l.splitOn x with
      | nil => exact absurd hl (List.splitOn_ne_nil x l)
      | cons s' rest =>
        rw [hl, List.modifyHead_cons] at h
        rw [hl] at ih
        rcases List.mem_cons.1 h with rfl | h
        · refine List.not_mem_cons_of_ne_of_not_mem ?_ (ih List.mem_cons_self)
          rintro rfl
          exact hne (beq_self_eq_true x)
        · exact ih (List.mem_cons_of_mem _ h)

/-- A canonical name has the segments it was made of. -/
theorem splitOn_canonical {name : List Char} (h : segments name ≠ []) :
    (['/'].intercalate (segments name)).splitOn '/' = segments name :=
  List.splitOn_intercalate '/' (fun _ hs => not_mem_of_mem_splitOn (List.mem_filter.1 hs).1) h

/-- What does not start with a slash has a segment. -/
theorem segments_ne_nil {name : List Char} (hname : name ≠ []) (hhead : name.head? ≠ some '/') :
    segments name ≠ [] := by
  cases name with
  | nil => exact absurd rfl hname
  | cons c cs =>
    have hc : c ≠ '/' := fun hc => hhead (congrArg some hc)
    rw [segments, List.splitOn_cons_eq_if_modifyHead, if_neg (by simpa using hc)]
    cases hsplit : cs.splitOn '/' with
    | nil => exact absurd hsplit (List.splitOn_ne_nil _ _)
    | cons s rest =>
      rw [List.modifyHead_cons, List.filter_cons_of_pos (by simp)]
      exact List.cons_ne_nil _ _

/-- **A canonical name is accepted as it is.** -/
theorem setName_canonical {name canonical : List Char} (h : setName name = .ok canonical) :
    setName canonical = .ok canonical := by
  have hnonempty : ∀ s ∈ segments name, s ≠ [] := fun s hs =>
    of_decide_eq_true (List.mem_filter.1 hs).2
  unfold setName at h
  split at h
  · cases h
  · next hname =>
    split at h
    · cases h
    · next hends =>
      split at h
      · cases h
      · next hmany =>
        split at h
        · cases h
        · next hvalid =>
          cases h
          have hsegments := segments_ne_nil hname fun hhead => hends (.inl hhead)
          have hsplit := splitOn_canonical hsegments
          have hsame : segments (['/'].intercalate (segments name)) = segments name := by
            rw [segments, hsplit]
            exact List.filter_eq_self.2 fun s hs => decide_eq_true (hnonempty s hs)
          set canonical := ['/'].intercalate (segments name)
          -- a slash at an end, or nothing at all, would make an empty segment
          have hempty : canonical ≠ [] := by
            intro hnil
            rw [hnil, List.splitOn_nil] at hsplit
            exact hnonempty [] (hsplit ▸ List.mem_singleton_self _) rfl
          have hhead : canonical.head? ≠ some '/' := by
            intro hhead
            obtain ⟨rest, hrest⟩ := List.head?_eq_some_iff.1 hhead
            rw [hrest] at hsplit
            have happend := List.splitOn_append_cons_self (a := '/') [] rest
            rw [List.nil_append, hsplit] at happend
            exact hnonempty [] (happend ▸ List.mem_append_left _ (List.mem_singleton_self _)) rfl
          have hlast : canonical.getLast? ≠ some '/' := by
            intro hlast
            obtain ⟨rest, hrest⟩ := List.getLast?_eq_some_iff.1 hlast
            rw [hrest] at hsplit
            have happend := List.splitOn_append_cons_self (a := '/') rest []
            rw [hsplit] at happend
            exact hnonempty [] (happend ▸ List.mem_append_right _ (List.mem_singleton_self _)) rfl
          rw [setName, if_neg hempty, if_neg (not_or.2 ⟨hhead, hlast⟩), hsame, if_neg hmany, hvalid]

end ContextSetup

/-! ### Contexts -/

/-- The fields of `g_context_file_description`.  A time is in nanoseconds. -/
structure ContextFile where
  schemaVersion : ℕ
  name : List Char
  description : List Char
  createdOn : ℤ
  lastUpdatedOn : ℤ
  id : ℕ
  deriving DecidableEq, Repr

/-- `context_impl`: the fields of its file, and `f_context_path`, empty before it is needed. -/
structure Context extends ContextFile where
  contextPath : List Char := []
  deriving DecidableEq, Repr

/-- `context_update`. -/
structure ContextUpdate where
  schemaVersion : ℕ := 0
  name : List Char := []
  description : List Char := []
  deriving DecidableEq, Repr

/-- What the clocks say: `time(nullptr)` and `snapdev::now()`. -/
structure Clock where
  time : ℕ
  now : ℤ

/-- The files under the root of the contexts, by path. -/
abbrev ContextDisk := List (List Char × ContextFile)

namespace ContextDisk

/-- The file at a path. -/
def read (disk : ContextDisk) (path : List Char) : Option ContextFile :=
  (disk.find? (·.1 = path)).map Prod.snd

/-- `save_file()`. -/
def save (disk : ContextDisk) (path : List Char) (file : ContextFile) : ContextDisk :=
  disk.filter (·.1 ≠ path) ++ [(path, file)]

end ContextDisk

/-- A context and the files. -/
structure ContextState where
  context : Context
  disk : ContextDisk
  deriving DecidableEq

/-- `snapdev::pathinfo::canonicalize()` of a directory and a name in it. -/
def pathIn (directory name : List Char) : List Char := directory ++ '/' :: name

/-- `g_context_filename`. -/
def contextFilename : List Char := "context.pb".toList

namespace Context

/-- A context that was just made: `context_impl()`. -/
def new (name : List Char) : Context where
  schemaVersion := 0
  name := name
  description := []
  createdOn := 0
  lastUpdatedOn := 0
  id := 0

/-- `get_context_path()`, under the root path of the contexts. -/
def getContextPath (root : List Char) (c : Context) : List Char :=
  if c.contextPath = [] then pathIn root c.name else c.contextPath

/-- `load_context()`: the name is not changed. -/
def loadContext (c : Context) (file : ContextFile) : Context :=
  { c with toContextFile := { file with name := c.name } }

/-- An identifier is given to a context that has none. -/
def identify (clock : Clock) (c : Context) : Context :=
  if c.id = 0 then { c with id := clock.time } else c

/-- The update has another version. -/
def NewVersion (c : Context) (u : ContextUpdate) : Prop :=
  u.schemaVersion ≠ 0 ∧ u.schemaVersion ≠ c.schemaVersion

/-- The update has another name. -/
def Renames (c : Context) (u : ContextUpdate) : Prop := u.name ≠ [] ∧ u.name ≠ c.name

/-- The update has another description. -/
def Describes (c : Context) (u : ContextUpdate) : Prop :=
  u.description ≠ [] ∧ u.description ≠ c.description

instance (c : Context) (u : ContextUpdate) : Decidable (c.NewVersion u) :=
  inferInstanceAs (Decidable (_ ∧ _))

instance (c : Context) (u : ContextUpdate) : Decidable (c.Renames u) :=
  inferInstanceAs (Decidable (_ ∧ _))

instance (c : Context) (u : ContextUpdate) : Decidable (c.Describes u) :=
  inferInstanceAs (Decidable (_ ∧ _))

/-- The context with the version of an update. -/
def setVersion (c : Context) (u : ContextUpdate) : Context :=
  if c.NewVersion u then { c with schemaVersion := u.schemaVersion } else c

/-- The name after an update, or the exception of `set_name()`. -/
def newName (c : Context) (u : ContextUpdate) : Except Failure (List Char) :=
  if c.Renames u then ContextSetup.setName u.name else .ok c.name

/-- The description after an update. -/
def newDescription (c : Context) (u : ContextUpdate) : List Char :=
  if c.Describes u then u.description else c.description

/-- The dates of a context that is saved. -/
def date (clock : Clock) (c : Context) : Context :=
  { c with
    lastUpdatedOn := clock.now
    createdOn := if c.createdOn = 0 then clock.now else c.createdOn }

@[simp] theorem identify_schemaVersion (clock : Clock) (c : Context) :
    (c.identify clock).schemaVersion = c.schemaVersion := by rw [identify]; split <;> rfl

@[simp] theorem identify_name (clock : Clock) (c : Context) :
    (c.identify clock).name = c.name := by rw [identify]; split <;> rfl

@[simp] theorem identify_description (clock : Clock) (c : Context) :
    (c.identify clock).description = c.description := by rw [identify]; split <;> rfl

@[simp] theorem setVersion_name (c : Context) (u : ContextUpdate) :
    (c.setVersion u).name = c.name := by rw [setVersion]; split <;> rfl

@[simp] theorem setVersion_description (c : Context) (u : ContextUpdate) :
    (c.setVersion u).description = c.description := by rw [setVersion]; split <;> rfl

theorem setVersion_schemaVersion (c : Context) (u : ContextUpdate) :
    (c.setVersion u).schemaVersion =
      if u.schemaVersion = 0 then c.schemaVersion else u.schemaVersion := by
  rw [setVersion]
  by_cases h₀ : u.schemaVersion = 0
  · rw [if_neg fun h => h.1 h₀, if_pos h₀]
  · rw [if_neg h₀]
    by_cases h₁ : u.schemaVersion = c.schemaVersion
    · rw [if_neg fun h => h.2 h₁, h₁]
    · rw [if_pos ⟨h₀, h₁⟩]

theorem newName_congr {c c' : Context} (h : c.name = c'.name) (u : ContextUpdate) :
    c.newName u = c'.newName u := by
  have hiff : c.Renames u ↔ c'.Renames u := by rw [Renames, Renames, h]
  rw [newName, newName, h]
  exact if_congr hiff rfl rfl

theorem newDescription_congr {c c' : Context} (h : c.description = c'.description)
    (u : ContextUpdate) : c.newDescription u = c'.newDescription u := by
  have hiff : c.Describes u ↔ c'.Describes u := by rw [Describes, Describes, h]
  rw [newDescription, newDescription, h]
  exact if_congr hiff rfl rfl

end Context

namespace ContextState

variable (root : List Char)

/-- `save_context()`. -/
def saveContext (s : ContextState) : ContextState :=
  let path := s.context.getContextPath root
  { context := { s.context with contextPath := path }
    disk := s.disk.save (pathIn path contextFilename) s.context.toContextFile }

/-- `context_impl::update()`, and the state it leaves. -/
def update (clock : Clock) (s : ContextState) (u : ContextUpdate) :
    Except Failure Unit × ContextState :=
  let c := s.context.identify clock
  if c.NewVersion u ∧ u.schemaVersion < c.schemaVersion then (.ok (), { s with context := c })
  else
    match (c.setVersion u).newName u with
    | .error e => (.error e, { s with context := c.setVersion u })
    | .ok name =>
      let c' := { c.setVersion u with name, description := (c.setVersion u).newDescription u }
      if s.context.createdOn = 0 ∨ s.context.id = 0 ∨ c.NewVersion u ∨ c.Renames u ∨
          c.Describes u then
        (.ok (), saveContext root { s with context := c'.date clock })
      else (.ok (), { s with context := c' })

/-- The state after an update, whether it threw or not. -/
def step (s : ContextState) (call : Clock × ContextUpdate) : ContextState :=
  (update root call.1 s call.2).2

/-- The version does not decrease; an update with a version that changes the name or the description
of a saved context makes it greater; an update that is refused because of its version changes
nothing in memory and on disk. -/
def Kept (s : ContextState) (call : Clock × ContextUpdate) : Prop :=
  let s' := step root s call
  s.context.schemaVersion ≤ s'.context.schemaVersion ∧
    (s.context.createdOn ≠ 0 → call.2.schemaVersion ≠ 0 →
      s'.context.name ≠ s.context.name ∨ s'.context.description ≠ s.context.description →
      s.context.schemaVersion < s'.context.schemaVersion) ∧
    (call.2.schemaVersion ≠ 0 → call.2.schemaVersion < s.context.schemaVersion → s' = s)

/-- An update that has the version of a saved context changes neither its name nor its description,
and one that has a lower version finds a context that has an identifier. -/
def Versioned (s : ContextState) (call : Clock × ContextUpdate) : Prop :=
  (s.context.createdOn ≠ 0 → call.2.schemaVersion ≠ 0 →
    call.2.schemaVersion = s.context.schemaVersion →
    ∀ name, s.context.newName call.2 = .ok name →
      name = s.context.name ∧ s.context.newDescription call.2 = s.context.description) ∧
  (call.2.schemaVersion ≠ 0 → call.2.schemaVersion < s.context.schemaVersion →
    s.context.id = 0 → call.1.time = 0)

/-- What an update leaves: it is refused, or its name is, or it is applied. -/
theorem update_cases (s : ContextState) (call : Clock × ContextUpdate) :
    (call.2.schemaVersion ≠ 0 ∧ call.2.schemaVersion < s.context.schemaVersion ∧
      step root s call = { s with
        context := { s.context with
          id := if s.context.id = 0 then call.1.time else s.context.id } }) ∨
    ((call.2.schemaVersion = 0 ∨ s.context.schemaVersion ≤ call.2.schemaVersion) ∧
      (step root s call).context.schemaVersion =
        (if call.2.schemaVersion = 0 then s.context.schemaVersion else call.2.schemaVersion) ∧
      ((∃ e, s.context.newName call.2 = .error e ∧
          (step root s call).context.name = s.context.name ∧
          (step root s call).context.description = s.context.description) ∨
        ∃ name, s.context.newName call.2 = .ok name ∧ (step root s call).context.name = name ∧
          (step root s call).context.description = s.context.newDescription call.2)) := by
  obtain ⟨clock, u⟩ := call
  have hrefused : (s.context.identify clock).NewVersion u ∧
      u.schemaVersion < (s.context.identify clock).schemaVersion ↔
        u.schemaVersion ≠ 0 ∧ u.schemaVersion < s.context.schemaVersion := by
    rw [Context.NewVersion, Context.identify_schemaVersion]
    omega
  by_cases hlow : u.schemaVersion ≠ 0 ∧ u.schemaVersion < s.context.schemaVersion
  · refine .inl ⟨hlow.1, hlow.2, ?_⟩
    rw [step, update, if_pos (hrefused.2 hlow), Context.identify]
    dsimp only
    split <;> rfl
  · refine .inr ⟨by dsimp only; omega, ?_⟩
    rw [step, update, if_neg (mt hrefused.1 hlow)]
    -- the context with the version of the update
    set c := (s.context.identify clock).setVersion u with hc
    have hversion : c.schemaVersion =
        if u.schemaVersion = 0 then s.context.schemaVersion else u.schemaVersion := by
      rw [hc, Context.setVersion_schemaVersion, Context.identify_schemaVersion]
    have hname : c.name = s.context.name := by
      rw [hc, Context.setVersion_name, Context.identify_name]
    have hdescription : c.description = s.context.description := by
      rw [hc, Context.setVersion_description, Context.identify_description]
    rw [Context.newName_congr hname, Context.newDescription_congr hdescription]
    cases hnew : s.context.newName u with
    | error e => exact ⟨hversion, .inl ⟨e, rfl, hname, hdescription⟩⟩
    | ok name =>
      dsimp only
      split <;> exact ⟨hversion, .inr ⟨name, rfl, rfl, rfl⟩⟩

/-- One update is kept exactly when it is versioned. -/
theorem kept_iff (s : ContextState) (call : Clock × ContextUpdate) :
    Kept root s call ↔ Versioned s call := by
  obtain ⟨hne, hlow, hstep⟩ | ⟨hle, hversion, hfields⟩ := s.update_cases root call
  · -- the update is refused
    rw [Kept, Versioned, hstep]
    have hsame : (({ s with context := { s.context with
        id := if s.context.id = 0 then call.1.time else s.context.id } } : ContextState) = s) ↔
          (s.context.id = 0 → call.1.time = 0) := by
      constructor
      · intro heq hid
        have hideq := congrArg (·.context.id) heq
        dsimp only at hideq
        rwa [if_pos hid, hid] at hideq
      · intro h
        have hideq : (if s.context.id = 0 then call.1.time else s.context.id) = s.context.id := by
          split
          · next hid => rw [h hid, hid]
          · rfl
        rw [hideq]
    constructor
    · rintro ⟨-, -, hkeep⟩
      exact ⟨fun _ _ heq => absurd heq (by omega), fun _ _ => hsame.1 (hkeep hne hlow)⟩
    · rintro ⟨-, hid⟩
      exact ⟨le_rfl, fun _ _ hchanged => hchanged.elim (absurd rfl) (absurd rfl),
        fun _ _ => hsame.2 (hid hne hlow)⟩
  · -- the update is not refused
    have hnotLow : ∀ {P : Prop}, call.2.schemaVersion ≠ 0 →
        call.2.schemaVersion < s.context.schemaVersion → P := fun h₀ hlt => by omega
    have hmono : s.context.schemaVersion ≤ (step root s call).context.schemaVersion := by
      rw [hversion]
      split <;> omega
    -- when the fields of the context change
    have hchanged : ((step root s call).context.name ≠ s.context.name ∨
        (step root s call).context.description ≠ s.context.description) ↔
          ∃ name, s.context.newName call.2 = .ok name ∧
            ¬ (name = s.context.name ∧ s.context.newDescription call.2 = s.context.description) := by
      rcases hfields with ⟨e, hnew, hname, hdescription⟩ | ⟨name, hnew, hname, hdescription⟩
      · rw [hname, hdescription, hnew]
        simp
      · rw [hname, hdescription, hnew]
        simp only [Except.ok.injEq, exists_eq_left', not_and_or]
    rw [Kept, Versioned, hchanged]
    constructor
    · rintro ⟨-, hstrict, -⟩
      refine ⟨fun hsaved h₀ heq name hnew => ?_, hnotLow⟩
      by_contra hchange
      have hlt := hstrict hsaved h₀ ⟨name, hnew, hchange⟩
      rw [hversion, if_neg h₀] at hlt
      omega
    · rintro ⟨hkeep, -⟩
      refine ⟨hmono, ?_, hnotLow⟩
      rintro hsaved h₀ ⟨name, hnew, hchange⟩
      rw [hversion, if_neg h₀]
      have hne : call.2.schemaVersion ≠ s.context.schemaVersion := fun heq =>
        hchange (hkeep hsaved h₀ heq name hnew)
      omega

/-- **No update is lost** in a run of updates of a context exactly when none of them changes its
name or description under the version that it has. -/
theorem kept_run_iff (s : ContextState) (calls : List (Clock × ContextUpdate)) :
    Run.Each (Kept root) (step root) s calls ↔ Run.Each Versioned (step root) s calls :=
  Run.each_congr (kept_iff root) calls s

/-- Two updates to version 1, with different descriptions. -/
theorem not_kept_run : ¬ ∀ root s calls, Run.Each (Kept root) (step root) s calls := by
  intro h
  have hrun := h "/contexts".toList ⟨Context.new "test".toList, []⟩
    [(⟨1, 1⟩, { schemaVersion := 1, description := "first".toList }),
      (⟨2, 2⟩, { schemaVersion := 1, description := "second".toList })]
  exact absurd (hrun.2.1.2.1 (by decide) (by decide) (by decide)) (by decide)

end ContextState

end Prinbee
