import Prinbee.Database.Context
import Mathlib.Data.List.Perm.Basic

/-!
# The contexts after a restart

`context_manager.cpp`: the contexts that were created, by name.  A manager that starts looks for all
the files `context.pb` and calls `create_context()` with each path that it finds.  But
`create_context()` takes the name of a context, and no such path is a name.

## Main definitions

* `ContextManager` — the manager, and the files under its root path.
* `ContextManager.createContext`, `ContextManager.loadContexts`.
* `ManagerCall` — the calls of a run.
* `ContextManager.Restarts` — a new manager finds the same contexts.

## Main results

* `ContextManager.setName_path` — the path of a file is not the name of a context.
* `ContextManager.restarts_iff` — a restart finds the contexts again exactly when there is none.
* `ContextManager.getContext_updateContext`, `ContextManager.getContext_createContext` — which
  contexts a call changes.
-/

namespace Prinbee

/-- `context_manager`: `f_contexts`, and the files. -/
structure ContextManager where
  contexts : List (List Char × Context) := []
  disk : ContextDisk := []

/-- The recursive glob of the files `context.pb`: the full path of each one, in some order. -/
structure Glob where
  paths : ContextDisk → List (List Char)
  perm : ∀ disk, (paths disk).Perm (disk.map Prod.fst)

namespace ContextManager

variable (root : List Char)

/-- `get_context()`. -/
def getContext (m : ContextManager) (name : List Char) : Option Context :=
  (m.contexts.find? (·.1 = name)).map Prod.snd

/-- `get_context_list()`. -/
def getContextList (m : ContextManager) : List (List Char) := m.contexts.map Prod.fst

/-- `context_impl::initialize()`: the file is read when there is one. -/
def initializeContext (disk : ContextDisk) (c : Context) : Context :=
  let path := c.getContextPath root
  let c := { c with contextPath := path }
  match disk.read (pathIn path contextFilename) with
  | none => c
  | some file => c.loadContext file

/-- `create_context()`. -/
def createContext (clock : Clock) (m : ContextManager) (name description : List Char)
    (create : Bool) : Except Failure Unit × ContextManager :=
  match ContextSetup.setName name with
  | .error e => (.error e, m)
  | .ok name =>
    match m.getContext name with
    | some _ => (.ok (), m)
    | none =>
      let c := initializeContext root m.disk (Context.new name)
      if create then
        match ContextState.update root clock ⟨c, m.disk⟩ { schemaVersion := 1, description } with
        | (.error e, s) => (.error e, { m with disk := s.disk })
        | (.ok (), s) =>
          (.ok (), { contexts := m.contexts ++ [(s.context.name, s.context)], disk := s.disk })
      else (.ok (), { m with contexts := m.contexts ++ [(c.name, c)] })

/-- `load_contexts()`, on the paths that the glob found. -/
def loadContexts (clock : Clock) : List (List Char) → ContextManager →
    Except Failure Unit × ContextManager
  | [], m => (.ok (), m)
  | path :: paths, m =>
    match createContext root clock m path [] false with
    | (.error e, m) => (.error e, m)
    | (.ok (), m) => loadContexts clock paths m

/-- `update()` of the context of that name. -/
def updateContext (clock : Clock) (m : ContextManager) (name : List Char) (u : ContextUpdate) :
    Except Failure Unit × ContextManager :=
  match m.getContext name with
  | none => (.ok (), m)
  | some c =>
    let (r, s) := ContextState.update root clock ⟨c, m.disk⟩ u
    (r,
      { contexts := m.contexts.map fun (n, c) => if n = name then (n, s.context) else (n, c)
        disk := s.disk })

end ContextManager

/-- The calls of a run: `create_context(name, description, true)`, and an update. -/
inductive ManagerCall
  | createContext (clock : Clock) (name description : List Char)
  | update (clock : Clock) (name : List Char) (u : ContextUpdate)

namespace ManagerCall

/-- The manager that the call leaves. -/
def step (root : List Char) (m : ContextManager) : ManagerCall → ContextManager
  | createContext clock name description =>
    (ContextManager.createContext root clock m name description true).2
  | update clock name u => (ContextManager.updateContext root clock m name u).2

/-- A context is created under a valid name. -/
def Creates : ManagerCall → Prop
  | createContext _ name _ => ∃ canonical, ContextSetup.setName name = .ok canonical
  | update _ _ _ => False

end ManagerCall

namespace ContextManager

variable (root : List Char)

/-- A new manager over the same files lists the same contexts, with the same fields. -/
def Restarts (clock : Clock) (glob : Glob) (m : ContextManager) : Prop :=
  ∃ m', loadContexts root clock (glob.paths m.disk) { disk := m.disk } = (.ok (), m') ∧
    m'.getContextList.Perm m.getContextList ∧
    ∀ name, (m'.getContext name).map Context.toContextFile =
      (m.getContext name).map Context.toContextFile

/-- There are files exactly when there are contexts, and they are all named `context.pb`. -/
structure Filed (m : ContextManager) : Prop where
  disk : m.disk = [] ↔ m.contexts = []
  paths : ∀ path ∈ m.disk.map Prod.fst, ∃ directory, path = pathIn directory contextFilename

variable {root}

/-- **The path of a context file is not a name**: its last segment has a period. -/
theorem setName_path (directory : List Char) :
    ∃ e, ContextSetup.setName (pathIn directory contextFilename) = .error e := by
  have hsegment : contextFilename ∈ ContextSetup.segments (pathIn directory contextFilename) := by
    have hsplit : (pathIn directory contextFilename).splitOn '/' =
        directory.splitOn '/' ++ contextFilename.splitOn '/' :=
      List.splitOn_append_cons_self directory contextFilename
    have hlast : contextFilename.splitOn '/' = [contextFilename] :=
      List.splitOn_eq_singleton (by decide)
    rw [ContextSetup.segments, hsplit, hlast]
    exact List.mem_filter.2 ⟨List.mem_append_right _ (List.mem_singleton_self _), by decide⟩
  unfold ContextSetup.setName
  split
  · exact ⟨_, rfl⟩
  · split
    · exact ⟨_, rfl⟩
    · split
      · exact ⟨_, rfl⟩
      · have hfind : ((ContextSetup.segments (pathIn directory contextFilename)).find? fun s =>
            !ContextSetup.validateName (s.takeWhile (· ≠ Char.ofNat 0))
              ContextSetup.maxSegmentLength).isSome := by
          rw [List.find?_isSome]
          exact ⟨contextFilename, hsegment, by decide⟩
        obtain ⟨s, hs⟩ := Option.isSome_iff_exists.1 hfind
        rw [hs]
        exact ⟨_, rfl⟩

/-! ### The files of a run -/

theorem save_ne_nil (disk : ContextDisk) (path : List Char) (file : ContextFile) :
    disk.save path file ≠ [] := by
  rw [ContextDisk.save]
  exact List.append_ne_nil_of_right_ne_nil _ (List.cons_ne_nil _ _)

theorem paths_save {disk : ContextDisk} {path : List Char} {file : ContextFile} {p : List Char}
    (h : p ∈ (disk.save path file).map Prod.fst) : p ∈ disk.map Prod.fst ∨ p = path := by
  rw [ContextDisk.save, List.map_append, List.mem_append] at h
  refine h.imp (fun h => ?_) List.mem_singleton.1
  obtain ⟨x, hx, rfl⟩ := List.mem_map.1 h
  exact List.mem_map.2 ⟨x, (List.mem_filter.1 hx).1, rfl⟩

/-- The files after an update: they are the same, or one of them was saved. -/
theorem disk_update (clock : Clock) (s : ContextState) (u : ContextUpdate) :
    (ContextState.update root clock s u).2.disk = s.disk ∨
      ∃ path file, (ContextState.update root clock s u).2.disk =
        s.disk.save (pathIn path contextFilename) file := by
  unfold ContextState.update
  dsimp only
  split
  · exact .inl rfl
  · split
    · exact .inl rfl
    · split
      · exact .inr ⟨_, _, rfl⟩
      · exact .inl rfl

/-- A context that was just made is saved by its first update. -/
theorem disk_update_new (clock : Clock) (name path description : List Char) (disk : ContextDisk) :
    ∃ s, ContextState.update root clock ⟨{ Context.new name with contextPath := path }, disk⟩
        { schemaVersion := 1, description } = (.ok (), s) ∧ s.disk ≠ [] := by
  set c : Context := { Context.new name with contextPath := path } with hc
  have hlow : ¬ ((c.identify clock).NewVersion { schemaVersion := 1, description } ∧
      1 < (c.identify clock).schemaVersion) := by
    rw [Context.identify_schemaVersion]
    exact fun h => Nat.not_lt_zero 1 h.2
  have hname : ((c.identify clock).setVersion { schemaVersion := 1, description }).newName
      { schemaVersion := 1, description } = .ok _ := if_neg fun h => h.1 rfl
  rw [ContextState.update, if_neg hlow, hname]
  dsimp only
  rw [if_pos (.inl rfl)]
  exact ⟨_, rfl, save_ne_nil _ _ _⟩

/-- A file that was read for a new context is one of the files. -/
theorem initializeContext_cases (disk : ContextDisk) (name : List Char) :
    (∃ path, initializeContext root disk (Context.new name) =
      { Context.new name with contextPath := path }) ∨ disk ≠ [] := by
  rw [initializeContext]
  dsimp only
  split
  · exact .inl ⟨_, rfl⟩
  · next file hread =>
    right
    rintro rfl
    cases hread

theorem disk_update_ne_nil (root : List Char) (clock : Clock) {s : ContextState} (u : ContextUpdate)
    (h : s.disk ≠ []) : (ContextState.update root clock s u).2.disk ≠ [] := by
  rcases disk_update clock s u with heq | ⟨path, file, heq⟩
  · rw [heq]
    exact h
  · rw [heq]
    exact save_ne_nil _ _ _

theorem paths_update (root : List Char) (clock : Clock) {s : ContextState} (u : ContextUpdate)
    (h : ∀ path ∈ s.disk.map Prod.fst, ∃ directory, path = pathIn directory contextFilename) :
    ∀ path ∈ (ContextState.update root clock s u).2.disk.map Prod.fst,
      ∃ directory, path = pathIn directory contextFilename := by
  intro path hpath
  rcases @disk_update root clock s u with heq | ⟨directory, file, heq⟩
  · rw [heq] at hpath
    exact h path hpath
  · rw [heq] at hpath
    rcases paths_save hpath with hpath | rfl
    · exact h path hpath
    · exact ⟨directory, rfl⟩

/-- The update that `create_context()` makes does not throw, and leaves a file. -/
theorem created (clock : Clock) (disk : ContextDisk) (name description : List Char) :
    ∃ s, ContextState.update root clock
        ⟨initializeContext root disk (Context.new name), disk⟩
        { schemaVersion := 1, description } = (.ok (), s) ∧ s.disk ≠ [] := by
  rcases @initializeContext_cases root disk name with ⟨path, heq⟩ | hdisk
  · rw [heq]
    exact disk_update_new clock name path description disk
  · have hne := disk_update_ne_nil root clock
      (s := ⟨initializeContext root disk (Context.new name), disk⟩)
      { schemaVersion := 1, description } hdisk
    refine ⟨_, Prod.ext ?_ rfl, hne⟩
    unfold ContextState.update
    dsimp only
    split
    · rfl
    · split
      · next e herror =>
        -- the name is not changed
        rw [Context.newName, if_neg fun h => h.1 rfl] at herror
        cases herror
      · split <;> rfl

theorem Filed.step (root : List Char) {m : ContextManager} (h : m.Filed) (c : ManagerCall) :
    (c.step root m).Filed ∧
      ((c.step root m).contexts = [] ↔ m.contexts = [] ∧ ¬ c.Creates) := by
  cases c with
  | createContext clock name description =>
    rw [ManagerCall.step, createContext]
    cases hname : ContextSetup.setName name with
    | error e =>
      refine ⟨h, (and_iff_left ?_).symm⟩
      rintro ⟨canonical, hok⟩
      rw [hname] at hok
      cases hok
    | ok canonical =>
      have hcreates : (ManagerCall.createContext clock name description).Creates :=
        ⟨canonical, hname⟩
      dsimp only
      cases hget : m.getContext canonical with
      | some c =>
        refine ⟨h, iff_of_false (fun hnil => ?_) fun hno => hno.2 hcreates⟩
        rw [getContext, hnil] at hget
        cases hget
      | none =>
        obtain ⟨s, hupdate, hdisk⟩ := @created root clock m.disk canonical description
        have hpaths := paths_update root clock
          (s := ⟨initializeContext root m.disk (Context.new canonical), m.disk⟩)
          { schemaVersion := 1, description } h.paths
        rw [hupdate] at hpaths
        dsimp only
        rw [if_pos rfl, hupdate]
        have hcontexts : m.contexts ++ [(s.context.name, s.context)] ≠ [] :=
          List.append_ne_nil_of_right_ne_nil _ (List.cons_ne_nil _ _)
        exact ⟨⟨iff_of_false hdisk hcontexts, hpaths⟩,
          iff_of_false hcontexts fun hno => hno.2 hcreates⟩
  | update clock name u =>
    rw [ManagerCall.step, updateContext]
    cases hget : m.getContext name with
    | none => exact ⟨h, (and_iff_left fun hno => hno).symm⟩
    | some c =>
      have hne : m.contexts ≠ [] := fun hnil => by
        rw [getContext, hnil] at hget
        cases hget
      have hdisk := disk_update_ne_nil root clock (s := ⟨c, m.disk⟩) u (mt h.disk.1 hne)
      have hpaths := paths_update root clock (s := ⟨c, m.disk⟩) u h.paths
      exact ⟨⟨iff_of_false hdisk (mt List.map_eq_nil_iff.1 hne), hpaths⟩,
        iff_of_false (mt List.map_eq_nil_iff.1 hne) fun hno => hne hno.1⟩

theorem Filed.run (root : List Char) {m : ContextManager} (h : m.Filed)
    (calls : List ManagerCall) :
    (calls.foldl (ManagerCall.step root) m).Filed ∧
      ((calls.foldl (ManagerCall.step root) m).contexts = [] ↔
        m.contexts = [] ∧ ∀ c ∈ calls, ¬ c.Creates) := by
  induction calls generalizing m with
  | nil => exact ⟨h, by simp⟩
  | cons c calls ih =>
    obtain ⟨hstep, hnil⟩ := h.step root c
    obtain ⟨hrun, hiff⟩ := ih hstep
    refine ⟨hrun, hiff.trans ?_⟩
    rw [hnil, List.forall_mem_cons, and_assoc]

/-- The first path that is loaded throws. -/
theorem loadContexts_error (root : List Char) (clock : Clock) {paths : List (List Char)}
    (hne : paths ≠ [])
    (hpaths : ∀ path ∈ paths, ∃ directory, path = pathIn directory contextFilename)
    (m : ContextManager) : ∃ e, loadContexts root clock paths m = (.error e, m) := by
  cases paths with
  | nil => exact absurd rfl hne
  | cons path paths =>
    obtain ⟨directory, rfl⟩ := hpaths path List.mem_cons_self
    obtain ⟨e, he⟩ := setName_path directory
    refine ⟨e, ?_⟩
    rw [loadContexts, createContext, he]

/-- **No context survives a restart**: after any run of creations and updates in an empty directory,
a new manager has the same contexts if and only if no context was created. -/
theorem restarts_iff (root : List Char) (calls : List ManagerCall) (clock : Clock) (glob : Glob) :
    Restarts root clock glob (calls.foldl (ManagerCall.step root) {}) ↔
      ∀ c ∈ calls, ¬ c.Creates := by
  have hstart : Filed {} := ⟨iff_of_true rfl rfl, fun path hpath => by cases hpath⟩
  obtain ⟨hfiled, hiff⟩ := hstart.run root calls
  rw [← (hiff.trans (and_iff_right rfl))]
  generalize calls.foldl (ManagerCall.step root) {} = m at hfiled
  have hperm := glob.perm m.disk
  constructor
  · rintro ⟨m', hload, -⟩
    by_contra hne
    have hpaths : glob.paths m.disk ≠ [] := by
      intro hnil
      rw [hnil] at hperm
      exact hne (hfiled.disk.1 (List.map_eq_nil_iff.1 (List.nil_perm.1 hperm)))
    obtain ⟨e, he⟩ := loadContexts_error root clock hpaths
      (fun path hpath => hfiled.paths path (hperm.mem_iff.1 hpath)) { disk := m.disk }
    rw [he] at hload
    cases hload
  · intro hnil
    have hpaths : glob.paths m.disk = [] := by
      rw [hfiled.disk.2 hnil] at hperm ⊢
      exact List.perm_nil.1 hperm
    refine ⟨{ disk := m.disk }, by rw [hpaths]; rfl, ?_, fun name => ?_⟩
    · rw [getContextList, getContextList, hnil]
    · rw [getContext, getContext, hnil]

/-- One context, in the default directory. -/
theorem not_restarts : ¬ ∀ root (calls : List ManagerCall) clock glob,
    Restarts root clock glob (calls.foldl (ManagerCall.step root) {}) := by
  intro h
  obtain ⟨m', hload, -⟩ := h "/var/lib/prinbee/contexts".toList
    [.createContext ⟨1, 1⟩ "magic".toList "a context".toList] ⟨2, 2⟩ ⟨_, fun _ => List.Perm.refl _⟩
  have hok := congrArg (fun r => r.1.isOk) hload
  change _ = true at hok
  exact absurd hok (by decide)

/-! ### The context of a name -/

/-- The context of a name, when the one of another name, or of the same one, is replaced. -/
theorem find?_replace (contexts : List (List Char × Context)) (name name' : List Char)
    (c' : Context) :
    ((contexts.map fun (n, c) => if n = name then (n, c') else (n, c)).find? (·.1 = name')).map
        Prod.snd =
      ((contexts.find? (·.1 = name')).map Prod.snd).map fun c => if name' = name then c' else c := by
  induction contexts with
  | nil => rfl
  | cons x contexts ih =>
    obtain ⟨n, c⟩ := x
    have hkey : (if n = name then (n, c') else (n, c)).1 = n := by split <;> rfl
    rw [List.map_cons]
    by_cases hn : n = name'
    · rw [List.find?_cons_of_pos (by simpa [hkey] using hn),
        List.find?_cons_of_pos (by simpa using hn)]
      subst hn
      by_cases hname : n = name
      · simp [hname]
      · simp [hname]
    · rw [List.find?_cons_of_neg (by simpa [hkey] using hn),
        List.find?_cons_of_neg (by simpa using hn)]
      exact ih

theorem getContext_updateContext (clock : Clock) (m : ContextManager) (name : List Char)
    (u : ContextUpdate) {c : Context} (hget : m.getContext name = some c) (name' : List Char) :
    (updateContext root clock m name u).2.getContext name' =
      (m.getContext name').map fun c' =>
        if name' = name then (ContextState.step root ⟨c, m.disk⟩ (clock, u)).context else c' := by
  rw [updateContext, hget]
  exact find?_replace _ _ _ _

/-- The name of a context that was just made stays. -/
theorem name_update (clock : Clock) (s : ContextState) (schemaVersion : ℕ)
    (description : List Char) :
    (ContextState.step root s (clock, { schemaVersion, description })).context.name =
      s.context.name := by
  obtain ⟨-, -, heq⟩ | ⟨-, -, ⟨e, -, hname, -⟩ | ⟨name, hnew, hname, -⟩⟩ :=
    s.update_cases root (clock, { schemaVersion, description })
  · rw [heq]
  · exact hname
  · rw [Context.newName, if_neg fun h => h.1 rfl] at hnew
    cases hnew
    exact hname

theorem name_initializeContext (disk : ContextDisk) (name : List Char) :
    (initializeContext root disk (Context.new name)).name = name := by
  rw [initializeContext]
  split <;> rfl

/-- A creation under a canonical name adds a context, when there is none. -/
theorem getContext_createContext (clock : Clock) (m : ContextManager) {name : List Char}
    (hname : ContextSetup.setName name = .ok name) (hget : m.getContext name = none)
    (description : List Char) :
    ∃ c, ∀ name', (createContext root clock m name description true).2.getContext name' =
      if name' = name then some c else m.getContext name' := by
  obtain ⟨s, hs, -⟩ := @created root clock m.disk name description
  have hkey : s.context.name = name := by
    have hstep := @name_update root clock
      ⟨initializeContext root m.disk (Context.new name), m.disk⟩ 1 description
    rw [ContextState.step, hs] at hstep
    exact hstep.trans (name_initializeContext m.disk name)
  refine ⟨s.context, fun name' => ?_⟩
  rw [createContext, hname]
  dsimp only
  rw [hget]
  dsimp only
  rw [if_pos rfl, hs]
  dsimp only
  rw [getContext, List.find?_append, hkey]
  by_cases hn : name' = name
  · rw [hn, if_pos rfl]
    rw [getContext, Option.map_eq_none_iff] at hget
    rw [hget]
    simp
  · rw [if_neg hn, getContext]
    have hneq : ¬ name = name' := fun h => hn h.symm
    simp [hneq]

end ContextManager

end Prinbee
