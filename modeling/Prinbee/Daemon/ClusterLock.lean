import Prinbee.Daemon.Prinbeed

/-!
# The cluster lock of a context

A SCTX payload obtains the lock of its context before stage 1 and releases it in stage 4.  What
follows is about every run of a daemon: its invariant says at which stage each payload is, with
which lock, and how many times it is in the FIFO.

## Main definitions

* `Prinbeed.pending` — how many times a payload is in the FIFO.
* `Prinbeed.Locking` — the invariant.
* `Prinbeed.NoLeak` — a payload that holds its lock and has no pending work has released it.
* `Prinbeed.Releases` — the steps that leak no lock.

## Main results

* `Prinbeed.noLeak_iff` — in which runs no lock is leaked.
* `Prinbeed.covered` — no lock is released while a node synchronises.
-/

namespace Prinbee

namespace ContextManager

variable (root : List Char)

/-- An update that does not rename throws nothing. -/
theorem updateContext_ok (clock : Clock) (m : ContextManager) (name description : List Char)
    (schemaVersion : ℕ) :
    (updateContext root clock m name { schemaVersion, description }).1 = .ok () := by
  rw [updateContext]
  cases m.getContext name with
  | none => rfl
  | some c =>
    dsimp only
    have hname : ∀ c : Context, c.newName { schemaVersion, description } = .ok c.name :=
      fun c => if_neg fun h => h.1 rfl
    rw [ContextState.update]
    dsimp only
    split
    · rfl
    · rw [hname]
      dsimp only
      split <;> rfl

/-- The creation of a context under a canonical name throws nothing. -/
theorem createContext_ok (clock : Clock) (m : ContextManager) {name canonical : List Char}
    (h : ContextSetup.setName name = .ok canonical) (description : List Char) :
    (createContext root clock m canonical description true).1 = .ok () := by
  rw [createContext, ContextSetup.setName_canonical h]
  dsimp only
  cases m.getContext canonical with
  | some c => rfl
  | none =>
    obtain ⟨s, hs, -⟩ := @created root clock m.disk canonical description
    dsimp only
    rw [if_pos rfl, hs]

end ContextManager

/-- The context of a SCTX message, under its canonical name. -/
def MessageData.context : MessageData → Option ContextMessage
  | .setContext (some c) =>
    match ContextSetup.setName c.contextName with
    | .ok name => some { c with contextName := name, contextId := 0 }
    | .error _ => none
  | _ => none

/-- The object that is locked for the context of a name. -/
def contextObject (name : List Char) : List Char :=
  "prinbee::".toList ++ ("context::".toList ++ name)

def MessageData.isSetContext : MessageData → Bool
  | .setContext _ => true
  | _ => false

namespace Payload

/-- The payload obtained its lock. -/
def Holds (p : Payload) : Prop := ∃ lock, p.lock = some lock ∧ lock.obtained = true

/-- Where a SCTX payload can be, when it is `n` times in the FIFO. -/
def Staged (p : Payload) (n : ℕ) : Prop :=
  match p.lock with
  | none => p.stage = 0 ∧ n ≤ 1
  | some lock =>
    lock.unlocked = 0 ∧ (∃ c, p.message.data.context = some c) ∧
      if lock.obtained then (p.stage = 1 ∨ p.stage = 2) ∧ n ≤ 1 ∨ p.stage = 3 ∧ n = 0
      else p.stage = 1 ∧ n = 0

theorem Staged.mono {p : Payload} {n m : ℕ} (h : p.Staged n) (hm : m ≤ n) : p.Staged m := by
  unfold Staged at h ⊢
  split at h
  · exact ⟨h.1, hm.trans h.2⟩
  · refine ⟨h.1, h.2.1, ?_⟩
    have hlast := h.2.2
    split at hlast
    · next hobtained =>
      rw [if_pos hobtained]
      omega
    · next hobtained =>
      rw [if_neg hobtained]
      omega

end Payload

namespace Prinbeed

/-- How many times a payload is in the FIFO. -/
def pending (s : Prinbeed) (i : ℕ) : ℕ := (s.fifo.map Prod.fst).count i

/-- The invariant of all the runs: only a message other than a SCTX waits for an acknowledgment, and
only a SCTX has a lock. -/
structure Locking (s : Prinbeed) : Prop where
  fresh : ∀ i, s.count ≤ i → s.payloads i = none
  fifo : ∀ e ∈ s.fifo, e.1 < s.count
  expected : ∀ n i, s.expectedAcknowledgment n = some i →
    ∃ p, s.payloads i = some p ∧ p.message.data.isSetContext = false
  staged : ∀ i p, s.payloads i = some p →
    if p.message.data.isSetContext then p.Staged (s.pending i) else p.lock = none

/-- **No leaked cluster lock**: a payload that obtained its lock, is not in the FIFO and waits for no
acknowledgment has released the lock. -/
def NoLeak (s : Prinbeed) : Prop :=
  ∀ i p lock, s.payloads i = some p → p.lock = some lock → lock.obtained = true →
    (∀ e ∈ s.fifo, e.1 ≠ i) → (∀ n, s.expectedAcknowledgment n ≠ some i) → 0 < lock.unlocked

/-- The request is refused: the context exists, and its next version is another one. -/
def Refuses (s : Prinbeed) (c : ContextMessage) : Prop :=
  ∃ context, s.contextManager.getContext c.contextName = some context ∧
    UInt32.ofNat context.schemaVersion + 1 ≠ c.schemaVersion

/-- A worker that takes a payload that holds its lock takes it at stage 1, and the request is not
refused. -/
def Releases (s : Prinbeed) : PrinbeedEvent → Prop
  | .work _ k => ∀ i cause p c, s.fifo[k]? = some (i, cause) → s.payloads i = some p → p.Holds →
    p.message.data.context = some c → p.stage = 1 ∧ ¬ s.Refuses c
  | _ => True

/-! ### Changes that the lock does not see -/

/-- The payloads, the FIFO and the expected acknowledgments are the same. -/
structure Same (s s' : Prinbeed) : Prop where
  payloads : s'.payloads = s.payloads
  count : s'.count = s.count
  fifo : s'.fifo = s.fifo
  expected : s'.expectedAcknowledgment = s.expectedAcknowledgment

theorem Same.rfl {s : Prinbeed} : Same s s := ⟨.refl _, .refl _, .refl _, .refl _⟩

theorem Same.trans {s s' s'' : Prinbeed} (h : Same s s') (h' : Same s' s'') : Same s s'' :=
  ⟨h'.payloads.trans h.payloads, h'.count.trans h.count, h'.fifo.trans h.fifo,
    h'.expected.trans h.expected⟩

theorem same_sendMessage (s : Prinbeed) (peer : ℕ) (data : MessageData)
    (origin : Option (ℕ × Cause)) : Same s (s.sendMessage peer data origin) :=
  ⟨rfl, rfl, rfl, rfl⟩

theorem same_registerConnection (s : Prinbeed) (peer : ℕ) (type : ConnectionType) :
    Same s (s.registerConnection peer type) := ⟨rfl, rfl, rfl, rfl⟩

theorem same_registerClient (settings : PrinbeedSettings) (clock : Clock) (s : Prinbeed) (i : ℕ)
    (p : Payload) (cause : Cause) (r : RegisterMessage) :
    Same s (registerClient settings clock s i p cause r).2 := by
  unfold registerClient
  dsimp only
  split
  · exact Same.rfl
  · exact Same.rfl
  · split
    · exact same_sendMessage _ _ _ _
    · split
      · exact same_sendMessage _ _ _ _
      · split
        · exact ⟨rfl, rfl, rfl, rfl⟩
        · exact ⟨rfl, rfl, rfl, rfl⟩

/-- Nothing is forwarded: the first node stops the loop. -/
theorem same_forwardContext (i : ℕ) (cause : Cause) (c : ContextMessage) (refs : List Connection)
    (s : Prinbeed) : Same s (forwardContext i cause c refs s).2 := by
  induction refs with
  | nil => exact Same.rfl
  | cons ref refs ih =>
    rw [forwardContext]
    split
    · obtain ⟨e, he⟩ := createContextMessage_error c
      rw [he]
      exact ⟨rfl, rfl, rfl, rfl⟩
    · exact ih

@[simp] theorem pending_pushPayload_self (s : Prinbeed) (i : ℕ) (cause : Cause) :
    (s.pushPayload i cause).pending i = s.pending i + 1 := by
  simp [pending, pushPayload]

theorem Same.pending {s s' : Prinbeed} (h : Same s s') (i : ℕ) : s'.pending i = s.pending i := by
  rw [Prinbeed.pending, h.fifo, Prinbeed.pending]

theorem Locking.same {s s' : Prinbeed} (h : s.Locking) (hs : Same s s') : s'.Locking where
  fresh i hi := by rw [hs.payloads]; exact h.fresh i (hs.count ▸ hi)
  fifo e he := by rw [hs.count]; exact h.fifo e (hs.fifo ▸ he)
  expected n i hn := by rw [hs.payloads]; exact h.expected n i (hs.expected ▸ hn)
  staged i p hp := by
    rw [hs.pending]
    exact h.staged i p (hs.payloads ▸ hp)

/-! ### The stages of a SCTX payload -/

/-- A payload was changed, and pushed or not. -/
structure Placed (s s' : Prinbeed) (i : ℕ) (p : Payload) (pushed : List (ℕ × Cause)) : Prop where
  payloads : s'.payloads = Function.update s.payloads i (some p)
  count : s'.count = s.count
  fifo : s'.fifo = s.fifo ++ pushed
  expected : s'.expectedAcknowledgment = s.expectedAcknowledgment

theorem placed_setPayload {s s' : Prinbeed} (h : Same s s') (i : ℕ) (p : Payload) :
    Placed s (s'.setPayload i p) i p [] :=
  ⟨by rw [setPayload, h.payloads], h.count, by rw [List.append_nil]; exact h.fifo, h.expected⟩

theorem Placed.same {s s' s'' : Prinbeed} {i : ℕ} {p : Payload} {pushed : List (ℕ × Cause)}
    (h : Placed s s' i p pushed) (hs : Same s' s'') : Placed s s'' i p pushed :=
  ⟨hs.payloads.trans h.payloads, hs.count.trans h.count, hs.fifo.trans h.fifo,
    hs.expected.trans h.expected⟩

section Stages

variable (settings : PrinbeedSettings) (clock : Clock) (s : Prinbeed) (i : ℕ) (p : Payload)
  (cause : Cause)

/-- A message that cannot be read, or with an invalid name, changes nothing. -/
theorem setContext_none (data : Option ContextMessage)
    (h : (MessageData.setContext data).context = none) :
    Same s (setContext settings clock s i p cause data).2 := by
  rw [setContext]
  cases data with
  | none => exact Same.rfl
  | some c =>
    rw [deserializeContextMessage]
    dsimp only
    rw [MessageData.context] at h
    split
    · exact same_sendMessage _ _ _ _
    · exact Same.rfl
    · next name hname =>
      rw [hname] at h
      cases h

/-- `set_context()` on a message with a valid name. -/
theorem setContext_some {data : Option ContextMessage} {c : ContextMessage}
    (h : (MessageData.setContext data).context = some c) :
    (∃ name, ContextSetup.setName name = .ok c.contextName) ∧
      setContext settings clock s i p cause data =
        match p.stage with
        | 0 => s.setContextReceived i p cause c
        | 1 => setContextLocked settings clock s i p cause c
        | 2 => forwardContext i cause c s.connections (s.setPayload i { p with stage := 3 })
        | 3 =>
          match getAcknowledgedMessage p with
          | .error e => (.error e, s)
          | .ok none => (.error .undefinedBehavior, s)
          | .ok (some _) => (.ok (), s.setPayload i { p with stage := 4 })
        | 4 => s.releaseClusterLock i p
        | _ => (.ok (), s) := by
  cases data with
  | none => cases h
  | some c₀ =>
    rw [MessageData.context] at h
    split at h
    · next name hname =>
      cases h
      refine ⟨⟨_, hname⟩, ?_⟩
      rw [setContext, deserializeContextMessage]
      dsimp only
      generalize ContextSetup.setName c₀.contextName = result at hname
      subst hname
      rfl
    · cases h

variable {s i p} {data : Option ContextMessage} {c : ContextMessage}

/-- Stage 0 asks for the lock. -/
theorem setContext_received (h : (MessageData.setContext data).context = some c)
    (hstage : p.stage = 0) (hlock : p.lock = none) :
    Placed s (setContext settings clock s i p cause data).2 i
      { p with stage := 1, lock := some { objectName := contextObject c.contextName } } [] := by
  rw [(setContext_some settings clock s i p cause h).2, hstage]
  rw [setContextReceived, obtainClusterLock]
  dsimp only
  rw [hlock]
  refine ⟨?_, rfl, (List.append_nil _).symm, rfl⟩
  exact Function.update_idem _ _ _

theorem placed_setContextSaved (manager : ContextManager) :
    Placed s (setContextSaved { s with contextManager := manager } i p cause) i
      { p with stage := 2 } [(i, .saved)] := ⟨rfl, rfl, rfl, rfl⟩

/-- Stage 1 goes to stage 2, if the request is not refused. -/
theorem setContext_locked (h : (MessageData.setContext data).context = some c)
    (hstage : p.stage = 1) :
    (s.Refuses c → Same s (setContext settings clock s i p cause data).2) ∧
      (¬ s.Refuses c → Placed s (setContext settings clock s i p cause data).2 i
        { p with stage := 2 } [(i, .saved)]) := by
  obtain ⟨⟨name, hname⟩, heq⟩ := setContext_some settings clock s i p cause h
  rw [heq, hstage]
  rw [setContextLocked, Refuses]
  cases hget : s.contextManager.getContext c.contextName with
  | none =>
    have hok := ContextManager.createContext_ok settings.root clock s.contextManager hname
      c.description
    refine ⟨fun ⟨_, hsome, _⟩ => (by cases hsome), fun _ => ?_⟩
    dsimp only
    rcases hcreate : s.contextManager.createContext settings.root clock c.contextName c.description
      true with ⟨⟨e⟩ | ⟨⟩, manager⟩
    · rw [hcreate] at hok
      cases hok
    · exact placed_setContextSaved cause manager
  | some context =>
    dsimp only
    by_cases hversion : UInt32.ofNat context.schemaVersion + 1 ≠ c.schemaVersion
    · rw [if_pos hversion]
      exact ⟨fun _ => same_sendMessage _ _ _ _, fun hno => absurd ⟨_, rfl, hversion⟩ hno⟩
    · have hok := ContextManager.updateContext_ok settings.root clock s.contextManager
        c.contextName c.description c.schemaVersion.toNat
      rw [if_neg hversion]
      refine ⟨fun ⟨_, hsome, hne⟩ => ?_, fun _ => ?_⟩
      · cases hsome
        exact absurd hne hversion
      · rcases hupdate : s.contextManager.updateContext settings.root clock c.contextName
          { schemaVersion := c.schemaVersion.toNat, description := c.description } with
          ⟨⟨e⟩ | ⟨⟩, manager⟩
        · rw [hupdate] at hok
          cases hok
        · exact placed_setContextSaved cause manager

/-- Stage 2 leaves the payload at stage 3, and forwards nothing. -/
theorem setContext_forward (h : (MessageData.setContext data).context = some c)
    (hstage : p.stage = 2) :
    Placed s (setContext settings clock s i p cause data).2 i { p with stage := 3 } [] := by
  rw [(setContext_some settings clock s i p cause h).2, hstage]
  exact (placed_setPayload Same.rfl i _).same (same_forwardContext _ _ _ _ _)

end Stages

/-! ### The invariant of a run -/

theorem Locking.placed {s s' : Prinbeed} {i : ℕ} {p p' : Payload} (h : s.Locking)
    (hp : s.payloads i = some p) (pushed : List (ℕ × Cause)) (hs : Placed s s' i p' pushed)
    (hpushed : ∀ e ∈ pushed, e.1 = i) (hmessage : p'.message = p.message)
    (hstaged : if p.message.data.isSetContext then p'.Staged (s.pending i + pushed.length)
      else p'.lock = none) : s'.Locking := by
  have hcount : i < s.count := by
    by_contra hle
    rw [h.fresh i (Nat.le_of_not_lt hle)] at hp
    cases hp
  have hpending : ∀ j, s'.pending j = s.pending j + if j = i then pushed.length else 0 := by
    intro j
    rw [pending, hs.fifo, List.map_append, List.count_append, pending]
    congr 1
    split
    · next hj =>
      rw [List.count_eq_length.2, List.length_map]
      intro k hk
      obtain ⟨e, he, rfl⟩ := List.mem_map.1 hk
      rw [hj, hpushed e he]
    · next hj =>
      refine List.count_eq_zero.2 fun hmem => hj ?_
      obtain ⟨e, he, rfl⟩ := List.mem_map.1 hmem
      exact hpushed e he
  refine ⟨fun j hj => ?_, fun e he => ?_, fun n j hn => ?_, fun j q hq => ?_⟩
  · rw [hs.count] at hj
    rw [hs.payloads, Function.update_of_ne (Nat.ne_of_gt (hcount.trans_le hj))]
    exact h.fresh j hj
  · rw [hs.count]
    rw [hs.fifo] at he
    rcases List.mem_append.1 he with he | he
    · exact h.fifo e he
    · rw [hpushed e he]
      exact hcount
  · rw [hs.expected] at hn
    obtain ⟨q, hq, hdata⟩ := h.expected n j hn
    rw [hs.payloads]
    by_cases hj : j = i
    · subst hj
      rw [hp] at hq
      cases hq
      exact ⟨p', Function.update_self _ _ _, hmessage ▸ hdata⟩
    · exact ⟨q, by rw [Function.update_of_ne hj, hq], hdata⟩
  · rw [hs.payloads] at hq
    rw [hpending]
    by_cases hj : j = i
    · subst hj
      rw [Function.update_self] at hq
      cases hq
      rw [if_pos rfl, hmessage]
      exact hstaged
    · rw [Function.update_of_ne hj] at hq
      rw [if_neg hj, Nat.add_zero]
      exact h.staged j q hq

/-- A payload is taken out of the FIFO. -/
theorem Locking.eraseIdx {s : Prinbeed} (h : s.Locking) (k : ℕ) :
    (s.takePayload k).Locking := by
  have hsub : (s.fifo.eraseIdx k).Sublist s.fifo := List.eraseIdx_sublist _ _
  refine ⟨h.fresh, fun e he => h.fifo e (hsub.mem he), h.expected, fun i p hp => ?_⟩
  have hle : (s.takePayload k).pending i ≤ s.pending i :=
    (hsub.map Prod.fst).count_le i
  have hstaged := h.staged i p hp
  cases hdata : p.message.data.isSetContext with
  | true =>
    rw [hdata] at hstaged
    exact Payload.Staged.mono hstaged hle
  | false =>
    rw [hdata] at hstaged
    exact hstaged

theorem pending_eraseIdx {s : Prinbeed} {k i : ℕ} {cause : Cause}
    (hk : s.fifo[k]? = some (i, cause)) (j : ℕ) :
    s.pending j = (s.takePayload k).pending j + if j = i then 1 else 0 := by
  obtain ⟨hlt, hget⟩ := List.getElem?_eq_some_iff.1 hk
  have hperm := (List.getElem_cons_eraseIdx_perm hlt).map Prod.fst
  rw [hget, List.map_cons] at hperm
  rw [pending, ← hperm.count_eq j, List.count_cons]
  by_cases hj : j = i
  · rw [if_pos hj, if_pos (by rw [hj]; exact beq_self_eq_true i)]
    rfl
  · rw [if_neg hj, if_neg (by simpa using fun h => hj h.symm)]
    rfl

theorem Locking.processAcknowledgment {s : Prinbeed} (h : s.Locking) (peer : ℕ) (n : UInt32)
    (success : Bool) : (s.processAcknowledgment peer n success).Locking := by
  rw [Prinbeed.processAcknowledgment]
  cases hn : s.expectedAcknowledgment n with
  | none => exact h
  | some i =>
    obtain ⟨p, hp, hdata⟩ := h.expected n i hn
    dsimp only
    rw [hp]
    -- the entry that was found is erased
    have herased : Locking { s with
        expectedAcknowledgment := Function.update s.expectedAcknowledgment n none } := by
      refine ⟨h.fresh, h.fifo, fun m j hm => ?_, h.staged⟩
      by_cases hne : m = n
      · rw [hne] at hm
        change Function.update s.expectedAcknowledgment n none n = _ at hm
        rw [Function.update_self] at hm
        cases hm
      · change Function.update s.expectedAcknowledgment n none m = _ at hm
        rw [Function.update_of_ne hne] at hm
        exact h.expected m j hm
    refine herased.placed hp [(i, .acknowledged success)]
      ⟨rfl, rfl, rfl, rfl⟩ (fun e he => by rw [List.mem_singleton.1 he]) rfl ?_
    have hlock := h.staged i p hp
    rw [hdata] at hlock ⊢
    exact hlock

theorem Locking.newPayload {s : Prinbeed} (h : s.Locking) (peer : ℕ) (message : Message) :
    (s.newPayload peer message).Locking ∧
      (s.newPayload peer message).payloads s.count = some { peer, message } ∧
      (s.newPayload peer message).pending s.count = 0 := by
  have hpending : s.pending s.count = 0 := by
    refine List.count_eq_zero.2 fun hmem => ?_
    obtain ⟨e, he, heq⟩ := List.mem_map.1 hmem
    exact absurd (heq ▸ h.fifo e he) (Nat.lt_irrefl _)
  have hfind : ∀ i, (s.newPayload peer message).payloads i =
      if i = s.count then some { peer, message } else s.payloads i := fun i =>
    Function.update_apply _ _ _ _
  refine ⟨⟨fun i hi => ?_, fun e he => (h.fifo e he).trans (Nat.lt_succ_self _), fun n i hn => ?_,
    fun i p hp => ?_⟩, by rw [hfind, if_pos rfl], hpending⟩
  · have hi' : s.count + 1 ≤ i := hi
    rw [hfind, if_neg (by omega)]
    exact h.fresh i (by omega)
  · obtain ⟨p, hp, hdata⟩ := h.expected n i hn
    have hne : i ≠ s.count := by
      rintro rfl
      rw [h.fresh _ le_rfl] at hp
      cases hp
    exact ⟨p, by rw [hfind, if_neg hne, hp], hdata⟩
  · change if _ then p.Staged (s.pending i) else _
    rw [hfind] at hp
    by_cases hi : i = s.count
    · rw [if_pos hi] at hp
      cases hp
      rw [hi, hpending]
      split
      · exact ⟨rfl, Nat.zero_le 1⟩
      · rfl
    · rw [if_neg hi] at hp
      exact h.staged i p hp

/-- The payload of a worker that handles a SCTX. -/
structure Handled (s : Prinbeed) (k i : ℕ) (cause : Cause) (p : Payload)
    (data : Option ContextMessage) : Prop where
  entry : s.fifo[k]? = some (i, cause)
  payload : s.payloads i = some p
  message : p.message.data = .setContext data

/-- What a worker does to a SCTX payload; `taken` is the state without the entry of the FIFO. -/
theorem Handled.cases (settings : PrinbeedSettings) (clock : Clock) {s : Prinbeed} {k i : ℕ}
    {cause : Cause} {p : Payload} {data : Option ContextMessage} (hk : Handled s k i cause p data)
    (h : s.Locking) :
    let taken := s.takePayload k
    let s' := s.step settings (.work clock k)
    taken.Locking ∧ taken.pending i = 0 ∧
      ((¬ p.Holds ∧ (Same taken s' ∨ ∃ c, p.message.data.context = some c ∧
          Placed taken s' i
            { p with stage := 1, lock := some { objectName := contextObject c.contextName } } [] ∧
          s'.Locking)) ∨
        ∃ c, p.message.data.context = some c ∧ p.Holds ∧
          (p.stage = 1 ∧ ¬ s.Refuses c ∧
              Placed taken s' i { p with stage := 2 } [(i, .saved)] ∧ s'.Locking ∨
            ¬ (p.stage = 1 ∧ ¬ s.Refuses c) ∧ s'.Locking ∧
              (Same taken s' ∨ Placed taken s' i { p with stage := 3 } []))) := by
  intro taken s'
  have htaken : taken.Locking := h.eraseIdx k
  have hcount : s.pending i = taken.pending i + 1 := by
    rw [pending_eraseIdx hk.entry i, if_pos rfl]
  have hp : taken.payloads i = some p := hk.payload
  have hs' : s' = (setContext settings clock taken i p cause data).2 := by
    change (s.work settings clock k).2 = _
    rw [work_eq settings clock hk.entry hk.payload, hk.message]
  have hset : p.message.data.isSetContext = true := by rw [hk.message]; rfl
  have hstaged := h.staged i p hk.payload
  rw [if_pos hset, hcount] at hstaged
  have hzero : taken.pending i = 0 := by
    unfold Payload.Staged at hstaged
    split at hstaged
    · exact Nat.le_zero.1 (Nat.le_of_succ_le_succ hstaged.2)
    · have hlast := hstaged.2.2
      split at hlast <;> omega
  refine ⟨htaken, hzero, ?_⟩
  have hplaced : ∀ {s' : Prinbeed} {p' : Payload} {pushed : List (ℕ × Cause)},
      Placed taken s' i p' pushed → (∀ e ∈ pushed, e.1 = i) → p'.message = p.message →
        p'.Staged pushed.length → s'.Locking := by
    intro s' p' pushed hs hpushed hmessage hstaged
    refine htaken.placed hp pushed hs hpushed hmessage ?_
    rw [if_pos hset, hzero, Nat.zero_add]
    exact hstaged
  rcases Option.eq_none_or_eq_some p.lock with hlock | ⟨lock, hlock⟩
  · rw [Payload.Staged, hlock] at hstaged
    have hheld : ¬ p.Holds := by
      rintro ⟨lock, hsome, -⟩
      rw [hlock] at hsome
      cases hsome
    refine .inl ⟨hheld, ?_⟩
    rw [hs']
    cases hcontext : (MessageData.setContext data).context with
    | none => exact .inl (setContext_none settings clock taken i p cause data hcontext)
    | some c =>
      have hcontext' : p.message.data.context = some c := hk.message ▸ hcontext
      have hpl := setContext_received (s := taken) (i := i) settings clock cause hcontext
        hstaged.1 hlock
      exact .inr ⟨c, hcontext', hpl, hplaced hpl (fun e he => by cases he) rfl
        ⟨rfl, ⟨c, hcontext'⟩, rfl, rfl⟩⟩
  · rw [Payload.Staged, hlock] at hstaged
    obtain ⟨hunlocked, ⟨c, hcontext⟩, hlast⟩ := hstaged
    have hcontext' := hk.message ▸ hcontext
    split at hlast
    · next hobtained =>
      obtain ⟨hstage, -⟩ := hlast.resolve_right fun hno => by omega
      refine .inr ⟨c, hcontext, ⟨lock, hlock, hobtained⟩, ?_⟩
      rw [hs']
      rcases hstage with hstage | hstage
      · have hlocked := setContext_locked (s := taken) (i := i) settings clock cause hcontext' hstage
        by_cases hrefuses : s.Refuses c
        · have hsame := hlocked.1 hrefuses
          exact .inr ⟨fun hno => hno.2 hrefuses, htaken.same hsame, .inl hsame⟩
        · have hpl := hlocked.2 hrefuses
          refine .inl ⟨hstage, hrefuses, hpl, hplaced hpl
            (fun e he => by rw [List.mem_singleton.1 he]) rfl ?_⟩
          rw [Payload.Staged]
          dsimp only
          rw [hlock]
          dsimp only
          rw [if_pos hobtained]
          exact ⟨hunlocked, ⟨c, hcontext⟩, .inl ⟨.inr rfl, le_rfl⟩⟩
      · have hpl := setContext_forward (s := taken) (i := i) settings clock cause hcontext' hstage
        refine .inr ⟨fun hno => by omega, hplaced hpl (fun e he => by cases he) rfl ?_, .inr hpl⟩
        rw [Payload.Staged]
        dsimp only
        rw [hlock]
        dsimp only
        rw [if_pos hobtained]
        exact ⟨hunlocked, ⟨c, hcontext⟩, .inr ⟨rfl, rfl⟩⟩
    · omega

/-! ### Which payloads hold a lock -/

/-- A payload that holds its lock held it before and waits in the FIFO as much as then, or it waits
in the FIFO now. -/
def Waits (s s' : Prinbeed) : Prop :=
  ∀ i p', s'.payloads i = some p' → p'.Holds →
    (∃ p, s.payloads i = some p ∧ p.Holds ∧ s.pending i ≤ s'.pending i) ∨ 0 < s'.pending i

theorem Waits.trans {s s' s'' : Prinbeed} (h : Waits s s') (h' : Waits s' s'') : Waits s s'' := by
  intro i p'' hp'' hholds
  rcases h' i p'' hp'' hholds with ⟨p', hp', hholds', hle'⟩ | hpos
  · rcases h i p' hp' hholds' with ⟨p, hp, hheld, hle⟩ | hpos
    · exact .inl ⟨p, hp, hheld, hle.trans hle'⟩
    · exact .inr (hpos.trans_le hle')
  · exact .inr hpos

/-- The payloads and the FIFO are the same. -/
theorem waits_of_eq {s s' : Prinbeed} (hpayloads : s'.payloads = s.payloads)
    (hfifo : s'.fifo = s.fifo) : Waits s s' := by
  intro i p' hp' hholds
  refine .inl ⟨p', hpayloads ▸ hp', hholds, le_of_eq ?_⟩
  rw [pending, pending, hfifo]

theorem Same.waits {s s' : Prinbeed} (h : Same s s') : Waits s s' :=
  waits_of_eq h.payloads h.fifo

theorem Placed.pending_le {s s' : Prinbeed} {i : ℕ} {p : Payload} {pushed : List (ℕ × Cause)}
    (h : Placed s s' i p pushed) (j : ℕ) : s.pending j ≤ s'.pending j := by
  rw [pending, pending, h.fifo, List.map_append, List.count_append]
  exact Nat.le_add_right _ _

theorem Placed.pending_pos {s s' : Prinbeed} {i : ℕ} {p : Payload} {cause : Cause}
    (h : Placed s s' i p [(i, cause)]) : 0 < s'.pending i := by
  rw [pending, h.fifo, List.map_append, List.count_append]
  exact Nat.lt_of_lt_of_le (by simp) (Nat.le_add_left _ _)

theorem Placed.waits {s s' : Prinbeed} {i : ℕ} {p' : Payload} {pushed : List (ℕ × Cause)}
    (h : Placed s s' i p' pushed)
    (hp : p'.Holds → (∃ p, s.payloads i = some p ∧ p.Holds) ∨ 0 < s'.pending i) :
    Waits s s' := by
  intro j q hq hholds
  rw [h.payloads] at hq
  by_cases hj : j = i
  · subst hj
    rw [Function.update_self] at hq
    cases hq
    exact (hp hholds).imp_left fun ⟨p, hp, hheld⟩ => ⟨p, hp, hheld, h.pending_le j⟩
  · rw [Function.update_of_ne hj] at hq
    exact .inl ⟨q, hq, hholds, h.pending_le j⟩

theorem Locking.isSetContext {s : Prinbeed} (h : s.Locking) {i : ℕ} {p : Payload}
    (hp : s.payloads i = some p) (hholds : p.Holds) : p.message.data.isSetContext = true := by
  obtain ⟨lock, hlock, -⟩ := hholds
  have hstaged := h.staged i p hp
  by_contra hno
  rw [if_neg hno, hlock] at hstaged
  cases hstaged

theorem waits_processAcknowledgment {s : Prinbeed} (h : s.Locking) (peer : ℕ) (n : UInt32)
    (success : Bool) : Waits s (s.processAcknowledgment peer n success) := by
  rw [processAcknowledgment]
  cases hn : s.expectedAcknowledgment n with
  | none => exact Same.rfl.waits
  | some i =>
    obtain ⟨p, hp, hdata⟩ := h.expected n i hn
    dsimp only
    rw [hp]
    set s₁ : Prinbeed := { s with
      expectedAcknowledgment := Function.update s.expectedAcknowledgment n none }
    have hpl : Placed s₁ ((s₁.setPayload i (setAcknowledgedBy p n peer success)).pushPayload i
        (.acknowledged success)) i (setAcknowledgedBy p n peer success)
        [(i, .acknowledged success)] := ⟨rfl, rfl, rfl, rfl⟩
    have herased : Waits s s₁ := waits_of_eq rfl rfl
    exact herased.trans (hpl.waits fun _ => .inr hpl.pending_pos)

theorem waits_pushPayload (s : Prinbeed) (i : ℕ) (cause : Cause) :
    Waits s (s.pushPayload i cause) := by
  intro j p' hp' hholds
  refine .inl ⟨p', hp', hholds, ?_⟩
  rw [pending, pending, pushPayload, List.map_append, List.count_append]
  exact Nat.le_add_right _ _

theorem waits_newPayload (s : Prinbeed) (peer : ℕ) (message : Message) :
    Waits s (s.newPayload peer message) := by
  intro i p' hp' hholds
  have hfind : (s.newPayload peer message).payloads i =
      if i = s.count then some { peer, message } else s.payloads i := Function.update_apply _ _ _ _
  rw [hfind] at hp'
  split at hp'
  · cases hp'
    obtain ⟨lock, hlock, -⟩ := hholds
    cases hlock
  · exact .inl ⟨p', hp', hholds, le_rfl⟩

/-! ### The steps -/

theorem Locking.pushPayload {s : Prinbeed} (h : s.Locking) {i : ℕ} {p : Payload}
    (hp : s.payloads i = some p) (cause : Cause)
    (hstaged : if p.message.data.isSetContext then p.Staged (s.pending i + 1) else p.lock = none) :
    (s.pushPayload i cause).Locking :=
  h.placed hp [(i, cause)]
    ⟨by rw [← hp, Function.update_eq_self]; rfl, rfl, rfl, rfl⟩
    (fun e he => by rw [List.mem_singleton.1 he]) rfl hstaged

theorem locking_connectToNode (settings : PrinbeedSettings) {s : Prinbeed} (h : s.Locking)
    (peer : ℕ) (name : List Char) (now : ℤ) :
    (s.connectToNode settings peer name now).Locking ∧
      Waits s (s.connectToNode settings peer name now) := by
  rw [connectToNode]
  dsimp only
  set s₀ : Prinbeed := { s.registerConnection peer .node with
    names := Function.update s.names peer name }
  set data : MessageData := .register ⟨settings.nodeName, settings.protocolVersion, some now⟩
  set s₁ := s₀.sendMessage peer data none
  have hsame : Same s s₁ := ⟨rfl, rfl, rfl, rfl⟩
  set message : Message := ⟨s₀.nextSerialNumber, data⟩
  obtain ⟨hnew, hfind, -⟩ := (h.same hsame).newPayload peer message
  rw [expectAcknowledgment, hfind]
  dsimp only
  have hadd : addMessageToAcknowledge { peer, message } message.serialNumber =
      .ok { peer, message, acknowledgmentMessages := [(message.serialNumber, none)] } := rfl
  rw [hadd]
  dsimp only
  set p : Payload :=
    { peer, message, acknowledgmentMessages := [(message.serialNumber, none)] }
  have hpl := placed_setPayload (Same.rfl (s := s₁.newPayload peer message)) s₁.count p
  have hlocking := hnew.placed hfind [] hpl (fun e he => by cases he) rfl (by rfl)
  have hself : ((s₁.newPayload peer message).setPayload s₁.count p).payloads s₁.count = some p :=
    Function.update_self _ _ _
  constructor
  · refine ⟨hlocking.fresh, hlocking.fifo, fun n i hn => ?_, hlocking.staged⟩
    change Function.update _ message.serialNumber _ n = _ at hn
    by_cases hn' : n = message.serialNumber
    · rw [hn', Function.update_self] at hn
      cases hn
      exact ⟨p, hself, rfl⟩
    · rw [Function.update_of_ne hn'] at hn
      exact hlocking.expected n i hn
  · refine (hsame.waits.trans (waits_newPayload s₁ peer message)).trans
      ((hpl.waits fun ⟨lock, hlock, _⟩ => by cases hlock).trans (waits_of_eq rfl rfl))

theorem locking_receive {s : Prinbeed} (h : s.Locking) (peer : ℕ) (message : Message) :
    (s.receive peer message).Locking ∧ Waits s (s.receive peer message) := by
  have hsame : Same s { s with received := s.received ++ [(peer, message)] } :=
    ⟨rfl, rfl, rfl, rfl⟩
  have hpush : ((newPayload { s with received := s.received ++ [(peer, message)] } peer
        message).pushPayload s.count .received).Locking ∧
      Waits s ((newPayload { s with received := s.received ++ [(peer, message)] } peer
        message).pushPayload s.count .received) := by
    obtain ⟨hnew, hfind, hzero⟩ := (h.same hsame).newPayload peer message
    refine ⟨hnew.pushPayload hfind _ ?_, (hsame.waits.trans (waits_newPayload _ _ _)).trans
      (waits_pushPayload _ _ _)⟩
    rw [hzero]
    split
    · exact ⟨rfl, le_rfl⟩
    · rfl
  rw [receive]
  dsimp only
  split
  · next e _ =>
    exact ⟨(h.same hsame).processAcknowledgment _ _ _,
      hsame.waits.trans (waits_processAcknowledgment (h.same hsame) _ _ _)⟩
  · exact hpush

theorem locking_processObtainedLock {s : Prinbeed} (h : s.Locking) (i : ℕ) :
    (s.processObtainedLock i).Locking ∧ Waits s (s.processObtainedLock i) := by
  rw [processObtainedLock]
  split
  · exact ⟨h, Same.rfl.waits⟩
  · next p hp =>
    split
    · exact ⟨h, Same.rfl.waits⟩
    · next lock hlock =>
      split
      · exact ⟨h, Same.rfl.waits⟩
      · next hobtained =>
        have hpl : Placed s ((s.setPayload i { p with
            lock := some { lock with obtained := true } }).pushPayload i .lockObtained) i
            { p with lock := some { lock with obtained := true } } [(i, .lockObtained)] :=
          ⟨rfl, rfl, rfl, rfl⟩
        refine ⟨h.placed hp _ hpl (fun e he => by rw [List.mem_singleton.1 he]) rfl ?_,
          hpl.waits fun _ => .inr hpl.pending_pos⟩
        have hstaged := h.staged i p hp
        split at hstaged
        · next hset =>
          rw [if_pos hset]
          rw [Payload.Staged, hlock] at hstaged
          rw [Payload.Staged]
          dsimp only at hstaged ⊢
          rw [if_neg hobtained] at hstaged
          obtain ⟨hunlocked, hcontext, hstage, hzero⟩ := hstaged
          rw [hzero]
          exact ⟨hunlocked, hcontext, .inl ⟨.inl hstage, le_rfl⟩⟩
        · rw [hlock] at hstaged
          cases hstaged

/-- A worker that takes a payload other than a SCTX, or nothing. -/
theorem locking_work (settings : PrinbeedSettings) (clock : Clock) {s : Prinbeed} (h : s.Locking)
    (k : ℕ) (hother : ∀ i cause p data, ¬ Handled s k i cause p data) :
    (s.work settings clock k).2.Locking ∧ Waits s (s.work settings clock k).2 := by
  rw [work]
  split
  · exact ⟨h, Same.rfl.waits⟩
  · next i cause hk =>
    have htaken := h.eraseIdx k
    -- what is taken out of the FIFO holds no lock
    have hwaits : Waits s (s.takePayload k) := by
      intro j q hq hholds
      refine .inl ⟨q, hq, hholds, ?_⟩
      rw [pending_eraseIdx hk j]
      have hne : j ≠ i := by
        rintro rfl
        have hset := h.isSetContext hq hholds
        cases hdata : q.message.data with
        | setContext data => exact hother _ cause q data ⟨hk, hq, hdata⟩
        | _ => rw [hdata] at hset; cases hset
      rw [if_neg hne, Nat.add_zero]
    dsimp only
    split
    · exact ⟨htaken, hwaits⟩
    · next p hp =>
      split
      · have hsame := same_registerClient settings clock (s.takePayload k) i p cause ‹_›
        exact ⟨htaken.same hsame, hwaits.trans hsame.waits⟩
      · next data hdata =>
        rw [acknowledge]
        split
        · exact ⟨htaken, hwaits⟩
        · next a _ =>
          have hack := htaken.processAcknowledgment p.peer a.serialNumber true
          have hwaits' := hwaits.trans
            (waits_processAcknowledgment htaken p.peer a.serialNumber true)
          obtain ⟨q, hq, hqdata⟩ := payload_processAcknowledgment hp p.peer a.serialNumber true
          have hlock := hack.staged i q hq
          refine ⟨hack.pushPayload hq cause ?_, hwaits'.trans (waits_pushPayload _ _ _)⟩
          rw [hqdata, hdata] at hlock ⊢
          exact hlock
      · next data hdata => exact absurd ⟨hk, hp, hdata⟩ (hother i cause p data)
      · exact ⟨htaken, hwaits⟩
      · exact ⟨htaken, hwaits⟩

/-- The events that are not the handling of a SCTX. -/
theorem locking_step (settings : PrinbeedSettings) {s : Prinbeed} (h : s.Locking)
    (event : PrinbeedEvent)
    (hother : ∀ clock k, event = .work clock k → ∀ i cause p data, ¬ Handled s k i cause p data) :
    (s.step settings event).Locking ∧ Waits s (s.step settings event) := by
  have hsame : ∀ {s' : Prinbeed}, Same s s' → s'.Locking ∧ Waits s s' := fun hs =>
    ⟨h.same hs, hs.waits⟩
  cases event with
  | accept peer type => exact hsame (same_registerConnection s peer type)
  | connectToNode peer name now => exact locking_connectToNode settings h peer name now
  | disconnect peer => exact hsame ⟨rfl, rfl, rfl, rfl⟩
  | receive peer message => exact locking_receive h peer message
  | work clock k => exact locking_work settings clock h k (hother clock k rfl)
  | obtainedLock i => exact locking_processObtainedLock h i
  | failedLock i =>
    change (s.processFailedLock i).Locking ∧ Waits s (s.processFailedLock i)
    rw [processFailedLock]
    split
    · exact hsame Same.rfl
    · split
      · exact hsame Same.rfl
      · exact hsame (same_sendMessage _ _ _ _)
  | newMessage => exact hsame ⟨rfl, rfl, rfl, rfl⟩

/-- The event is the handling of a SCTX, or it is not. -/
theorem handled_or (s : Prinbeed) (event : PrinbeedEvent) :
    (∃ clock k i cause p data, event = .work clock k ∧ Handled s k i cause p data) ∨
      ∀ clock k, event = .work clock k → ∀ i cause p data, ¬ Handled s k i cause p data := by
  by_cases hex : ∃ clock k i cause p data, event = .work clock k ∧ Handled s k i cause p data
  · exact .inl hex
  · refine .inr fun clock k hevent i cause p data hk => hex ?_
    exact ⟨clock, k, i, cause, p, data, hevent, hk⟩

/-- **The invariant of every run.** -/
theorem Locking.step (settings : PrinbeedSettings) {s : Prinbeed} (h : s.Locking)
    (event : PrinbeedEvent) : (s.step settings event).Locking := by
  rcases handled_or s event with ⟨clock, k, i, cause, p, data, rfl, hk⟩ | hother
  · obtain ⟨htaken, -, ⟨-, hsame | ⟨_, _, _, hlocking⟩⟩ | ⟨c, -, -, hcases⟩⟩ :=
      hk.cases settings clock h
    · exact htaken.same hsame
    · exact hlocking
    · rcases hcases with ⟨-, -, -, hlocking⟩ | ⟨-, hlocking, -⟩
      · exact hlocking
      · exact hlocking
  · exact (locking_step settings h event hother).1

theorem locking_start : Locking {} where
  fresh _ _ := rfl
  fifo e he := by cases he
  expected n i hn := by cases hn
  staged i p hp := by cases hp

/-- In the states of a run, a lock is leaked when the payload that holds it is not in the FIFO. -/
theorem Locking.noLeak_pending {s : Prinbeed} (h : s.Locking) :
    s.NoLeak ↔ ∀ i p, s.payloads i = some p → p.Holds → 0 < s.pending i := by
  constructor
  · rintro hleak i p hp ⟨lock, hlock, hobtained⟩
    have hset := h.isSetContext hp ⟨lock, hlock, hobtained⟩
    have hstaged := h.staged i p hp
    rw [if_pos hset, Payload.Staged, hlock] at hstaged
    by_contra hzero
    refine absurd (hleak i p lock hp hlock hobtained (fun e he heq => hzero ?_) fun n hn => ?_)
      (by rw [hstaged.1]; exact lt_irrefl 0)
    · exact List.count_pos_iff.2 (List.mem_map.2 ⟨e, he, heq⟩)
    · obtain ⟨q, hq, hdata⟩ := h.expected n i hn
      rw [hp] at hq
      cases hq
      rw [hdata] at hset
      cases hset
  · intro hpending i p lock hp hlock hobtained hfifo _
    have hpos := hpending i p hp ⟨lock, hlock, hobtained⟩
    obtain ⟨e, he, heq⟩ := List.mem_map.1 (List.count_pos_iff.1 hpos)
    exact absurd heq (hfifo e he)

/-- One event leaks no lock exactly when it is a release. -/
theorem noLeak_step (settings : PrinbeedSettings) {s : Prinbeed} (h : s.Locking) (hs : s.NoLeak)
    (event : PrinbeedEvent) : (s.step settings event).NoLeak ↔ s.Releases event := by
  rw [h.noLeak_pending] at hs
  rw [(h.step settings event).noLeak_pending]
  have hwaits : Waits s (s.step settings event) →
      ∀ i p, (s.step settings event).payloads i = some p → p.Holds →
        0 < (s.step settings event).pending i := by
    intro hw i p hp hholds
    rcases hw i p hp hholds with ⟨q, hq, hheld, hle⟩ | hpos
    · exact (hs i q hq hheld).trans_le hle
    · exact hpos
  rcases handled_or s event with ⟨clock, k, i, cause, p, data, rfl, hk⟩ | hother
  · obtain ⟨htaken, hzero, hcases⟩ := hk.cases settings clock h
    have hreleases : s.Releases (.work clock k) ↔
        ∀ c, p.Holds → p.message.data.context = some c → p.stage = 1 ∧ ¬ s.Refuses c := by
      constructor
      · exact fun hall c hholds hc => hall i cause p c hk.entry hk.payload hholds hc
      · intro hall j cause' q c hentry hq hholds hc
        rw [hk.entry] at hentry
        cases hentry
        rw [hk.payload] at hq
        cases hq
        exact hall c hholds hc
    rw [hreleases]
    have htakenHolds : ∀ {s' : Prinbeed} {p' : Payload} {pushed : List (ℕ × Cause)},
        Placed (s.takePayload k) s' i p' pushed →
          ∀ j q, j ≠ i → s'.payloads j = some q → q.Holds → 0 < s'.pending j := by
      intro s' p' pushed hpl j q hj hq hholds
      rw [hpl.payloads, Function.update_of_ne hj] at hq
      have hpos := hs j q hq hholds
      rw [pending_eraseIdx hk.entry j, if_neg hj, Nat.add_zero] at hpos
      exact hpos.trans_le (hpl.pending_le j)
    rcases hcases with ⟨hheld, hsame⟩ | ⟨c, hcontext, hholds, hcases⟩
    · refine iff_of_true (fun j q hq hq' => ?_) fun c hholds => absurd hholds hheld
      rcases hsame with hsame | ⟨_, -, hpl, -⟩
      · rw [hsame.payloads, takePayload_payloads] at hq
        have hj : j ≠ i := by
          rintro rfl
          rw [hk.payload] at hq
          cases hq
          exact hheld hq'
        have hpos := hs j q hq hq'
        rw [pending_eraseIdx hk.entry j, if_neg hj, Nat.add_zero] at hpos
        rwa [hsame.pending]
      · by_cases hj : j = i
        · subst hj
          rw [hpl.payloads, Function.update_self] at hq
          cases hq
          obtain ⟨l, hl, hobtained⟩ := hq'
          cases hl
          cases hobtained
        · exact htakenHolds hpl j q hj hq hq'
    · have hc : (∀ c, p.Holds → p.message.data.context = some c → p.stage = 1 ∧ ¬ s.Refuses c) ↔
          p.stage = 1 ∧ ¬ s.Refuses c := by
        constructor
        · exact fun hall => hall c hholds hcontext
        · intro hc c' _ hcontext'
          rw [hcontext] at hcontext'
          cases hcontext'
          exact hc
      rw [hc]
      rcases hcases with ⟨hstage, hrefuses, hpl, -⟩ | ⟨hno, -, hleft⟩
      · refine iff_of_true (fun j q hq hq' => ?_) ⟨hstage, hrefuses⟩
        by_cases hj : j = i
        · exact hj ▸ hpl.pending_pos
        · exact htakenHolds hpl j q hj hq hq'
      · refine iff_of_false (fun hall => ?_) hno
        -- the payload still holds its lock, and it is nowhere
        rcases hleft with hsame | hpl
        · have hpos := hall i p (by rw [hsame.payloads]; exact hk.payload) hholds
          rw [hsame.pending, hzero] at hpos
          exact absurd hpos (lt_irrefl 0)
        · have hpos := hall i { p with stage := 3 }
            (by rw [hpl.payloads, Function.update_self]) hholds
          have hpending := hpl.fifo
          rw [pending, hpending, List.append_nil] at hpos
          exact absurd hpos (by rw [← pending, hzero]; exact lt_irrefl 0)
  · refine iff_of_true (hwaits (locking_step settings h event hother).2) ?_
    cases event with
    | work clock k =>
      intro i cause p c hentry hp hholds hcontext
      cases hdata : p.message.data with
      | setContext data => exact absurd ⟨hentry, hp, hdata⟩ (hother clock k rfl i cause p data)
      | _ => rw [hdata] at hcontext; cases hcontext
    | _ => trivial

/-- **No lock is leaked exactly in the runs whose steps release**: no worker takes a payload that
holds its lock after stage 1, or at stage 1 with a request that is refused. -/
theorem noLeak_iff (settings : PrinbeedSettings) (events : List PrinbeedEvent) :
    Run.Always NoLeak (step settings) {} events ↔ Run.Each Releases (step settings) {} events := by
  refine Run.always_iff (fun s (hs : Locking s ∧ NoLeak s) => hs.2)
    (fun s event hs hok => ?_) (fun s event hs hleak => ?_) events {} ?_
  · exact ⟨hs.1.step settings event, (noLeak_step settings hs.1 hs.2 event).2 hok⟩
  · exact (noLeak_step settings hs.1 hs.2 event).1 hleak
  · exact ⟨locking_start, fun i p lock hp => by cases hp⟩

/-- A request to create a context, whose lock is obtained, and the three stages of the handler. -/
def creationEvents : List PrinbeedEvent :=
  [.receive 0 ⟨1, .setContext (some ⟨"magic".toList, [], 1, 0⟩)⟩,
    .work ⟨1, 1⟩ 0, .obtainedLock 0, .work ⟨2, 2⟩ 0, .work ⟨3, 3⟩ 0]

/-- No node is connected: the payload stays at stage 3, with its lock. -/
theorem not_noLeak : ¬ ∀ settings events, Run.Always NoLeak (step settings) {} events := by
  intro h
  let settings : PrinbeedSettings := ⟨"/contexts".toList, [], [], fun _ => .ok 0⟩
  have hleak := (h settings creationEvents).foldl
  have hfifo : (creationEvents.foldl (step settings) {}).fifo = [] := by decide
  have hpayload : ((creationEvents.foldl (step settings) {}).payloads 0).map
      (fun p => p.lock.map fun lock => (lock.obtained, lock.unlocked)) =
        some (some (true, 0)) := by decide
  obtain ⟨p, hp, hlock⟩ := Option.map_eq_some_iff.1 hpayload
  obtain ⟨lock, hlock, hstate⟩ := Option.map_eq_some_iff.1 hlock
  obtain ⟨hobtained, hunlocked⟩ := Prod.mk.inj hstate
  have hpos := hleak 0 p lock hp hlock hobtained (fun e he => by rw [hfifo] at he; cases he)
    fun n hn => by cases hn
  rw [hunlocked] at hpos
  exact absurd hpos (lt_irrefl 0)

/-! ### The synchronisation -/

end Prinbeed

/-- The message says that a context was saved, or that it failed. -/
def Message.Completes (m : Message) (serialNumber : UInt32) : Prop :=
  match m.data with
  | .acknowledge (some a) => a.serialNumber = serialNumber ∧ a.phase = .saved
  | .error e => e.serialNumber = serialNumber
  | _ => False

namespace Prinbeed

/-- **The lock covers the synchronisation**: it is released at most once, and only after each peer
that the SCTX of the payload was forwarded to has replied that it saved the context or failed. -/
def Covered (s : Prinbeed) : Prop :=
  ∀ i p lock, s.payloads i = some p → p.lock = some lock →
    lock.unlocked ≤ 1 ∧
      (0 < lock.unlocked → ∀ e ∈ s.sent, ∀ cause, e.origin = some (i, cause) →
        e.message.data.isSetContext = true →
          ∃ m, (e.peer, m) ∈ s.received ∧ m.Completes e.message.serialNumber)

/-- In the states of a run, no lock was released. -/
theorem Locking.unlocked {s : Prinbeed} (h : s.Locking) {i : ℕ} {p : Payload} {lock : ClusterLock}
    (hp : s.payloads i = some p) (hlock : p.lock = some lock) : lock.unlocked = 0 := by
  have hstaged := h.staged i p hp
  split at hstaged
  · rw [Payload.Staged, hlock] at hstaged
    exact hstaged.1
  · rw [hlock] at hstaged
    cases hstaged

/-- **The lock covers the synchronisation in every run.** -/
theorem covered (settings : PrinbeedSettings) (events : List PrinbeedEvent) :
    Run.Always Covered (step settings) {} events := by
  refine Run.always (fun s (hs : Locking s) i p lock hp hlock => ?_)
    (fun s event hs (_ : True) => hs.step settings event) events {} locking_start ?_
  · rw [hs.unlocked hp hlock]
    exact ⟨Nat.zero_le 1, fun hpos => absurd hpos (lt_irrefl 0)⟩
  · exact Run.each_trivial _ _

end Prinbeed

end Prinbee
