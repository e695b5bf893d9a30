import Prinbee.Daemon.ClusterLock
import Prinbee.Lib.Copies

/-!
# The contexts of the nodes of a cluster

The daemons of a cluster, each with its contexts.  A request is applied by the worker of one daemon,
under the cluster lock of the context; nothing reaches the other nodes.  What a node receives is any
message, so also what another node sent to it.

## Main definitions

* `Prinbeed.held` — the version and the description of a context in a daemon.
* `Prinbeed.Applies` — a worker applies a request.
* `Cluster`, `Cluster.step` — the daemons, and an event in one of them.
* `Cluster.Agree` — the nodes that hold a context at one version hold the same description.
* `Cluster.Exclusive` — a lock is granted while nobody else holds it.
* `Cluster.Stale`, `Cluster.Wraps` — the steps that may lose the agreement.

## Main results

* `Prinbeed.held_step` — one event changes one context at most, and how.
* `Cluster.not_stale` — while the grants are exclusive, a context is changed by one node only.
* `Cluster.agree_run` — in which runs the nodes agree.
-/

namespace Prinbee

namespace Prinbeed

/-- What a daemon holds of a context: its version and its description. -/
def held (s : Prinbeed) (name : List Char) : Option (ℕ × List Char) :=
  (s.contextManager.getContext name).map fun c => (c.schemaVersion, c.description)

/-- A worker applies the request: its payload is at stage 1, and the request is not refused. -/
def Applies (s : Prinbeed) (event : PrinbeedEvent) (c : ContextMessage) : Prop :=
  ∃ clock k i cause p, event = .work clock k ∧ s.fifo[k]? = some (i, cause) ∧
    s.payloads i = some p ∧ p.message.data.context = some c ∧ p.stage = 1 ∧ ¬ s.Refuses c

/-- What a request that is applied does to a context: the version does not decrease, and under the
same version only a request for version 0 gives another description. -/
def Rewrites (c : ContextMessage) (x y : Option (ℕ × List Char)) : Prop :=
  ∀ v d, x = some (v, d) → ∃ v' d', y = some (v', d') ∧ v ≤ v' ∧ (c.schemaVersion = 0 → v' = v) ∧
    (v' = v → d' = if c.schemaVersion = 0 ∧ c.description ≠ [] then c.description else d)

/-! ### The contexts after a request -/

/-- The contexts after stage 1. -/
def appliedContexts (settings : PrinbeedSettings) (clock : Clock) (s : Prinbeed)
    (c : ContextMessage) : ContextManager :=
  match s.contextManager.getContext c.contextName with
  | some _ => (s.contextManager.updateContext settings.root clock c.contextName
      { schemaVersion := c.schemaVersion.toNat, description := c.description }).2
  | none => (s.contextManager.createContext settings.root clock c.contextName c.description true).2

/-- The context of a message has a canonical name. -/
theorem setName_context {data : MessageData} {c : ContextMessage} (h : data.context = some c) :
    ContextSetup.setName c.contextName = .ok c.contextName := by
  cases data with
  | setContext data =>
    cases data with
    | none => cases h
    | some c₀ =>
      rw [MessageData.context] at h
      split at h
      · next name hname =>
        cases h
        exact ContextSetup.setName_canonical hname
      · cases h
  | _ => cases h

theorem contextManager_setContextLocked (settings : PrinbeedSettings) (clock : Clock)
    (s : Prinbeed) (i : ℕ) (p : Payload) (cause : Cause) (c : ContextMessage) :
    (s.Refuses c ∧
      (setContextLocked settings clock s i p cause c).2.contextManager = s.contextManager) ∨
    (¬ s.Refuses c ∧ (setContextLocked settings clock s i p cause c).2.contextManager =
      s.appliedContexts settings clock c) := by
  rw [setContextLocked, Refuses, appliedContexts]
  cases hget : s.contextManager.getContext c.contextName with
  | none =>
    refine .inr ⟨?_, ?_⟩
    · rintro ⟨_, hsome, -⟩
      cases hsome
    · dsimp only
      rcases s.contextManager.createContext settings.root clock c.contextName c.description
        true with ⟨⟨e⟩ | ⟨⟩, manager⟩ <;> rfl
  | some context =>
    dsimp only
    by_cases hversion : UInt32.ofNat context.schemaVersion + 1 ≠ c.schemaVersion
    · rw [if_pos hversion]
      exact .inl ⟨⟨_, rfl, hversion⟩, rfl⟩
    · rw [if_neg hversion]
      refine .inr ⟨?_, ?_⟩
      · rintro ⟨_, hsome, hne⟩
        cases hsome
        exact hversion hne
      · rcases s.contextManager.updateContext settings.root clock c.contextName
          { schemaVersion := c.schemaVersion.toNat, description := c.description } with
          ⟨⟨e⟩ | ⟨⟩, manager⟩ <;> rfl

theorem contextManager_forwardContext (i : ℕ) (cause : Cause) (c : ContextMessage)
    (refs : List Connection) (s : Prinbeed) :
    (forwardContext i cause c refs s).2.contextManager = s.contextManager := by
  induction refs with
  | nil => rfl
  | cons ref refs ih =>
    rw [forwardContext]
    split
    · obtain ⟨e, he⟩ := createContextMessage_error c
      rw [he]
    · exact ih

/-- `set_context()` changes the contexts in stage 1 only. -/
theorem contextManager_setContext (settings : PrinbeedSettings) (clock : Clock) (s : Prinbeed)
    (i : ℕ) (p : Payload) (cause : Cause) (data : Option ContextMessage) :
    (setContext settings clock s i p cause data).2.contextManager = s.contextManager ∨
      ∃ c, (MessageData.setContext data).context = some c ∧ p.stage = 1 ∧ ¬ s.Refuses c := by
  cases hcontext : (MessageData.setContext data).context with
  | none =>
    left
    rw [setContext]
    cases data with
    | none => rfl
    | some c =>
      rw [deserializeContextMessage]
      dsimp only
      rw [MessageData.context] at hcontext
      split
      · rfl
      · rfl
      · next name hname =>
        rw [hname] at hcontext
        cases hcontext
  | some c =>
    rw [(setContext_some settings clock s i p cause hcontext).2]
    split
    · left
      rw [setContextReceived, obtainClusterLock]
      dsimp only
      split <;> rfl
    · next hstage =>
      rcases contextManager_setContextLocked settings clock s i p cause c with
        ⟨-, heq⟩ | ⟨hrefuses, -⟩
      · exact .inl heq
      · exact .inr ⟨c, rfl, hstage, hrefuses⟩
    · exact .inl (contextManager_forwardContext _ _ _ _ _)
    · left
      split <;> rfl
    · left
      rw [releaseClusterLock]
      split <;> rfl
    · exact .inl rfl

/-- An update without a name does not decrease the version of a context, and under the same version
only an update without a version changes the description. -/
theorem update_description (root : List Char) (clock : Clock) (s : ContextState) {version : ℕ}
    (description : List Char) (hne : version ≠ s.context.schemaVersion) :
    let s' := ContextState.step root s (clock, { schemaVersion := version, description })
    s.context.schemaVersion ≤ s'.context.schemaVersion ∧
      (version = 0 → s'.context.schemaVersion = s.context.schemaVersion) ∧
      (s'.context.schemaVersion = s.context.schemaVersion → s'.context.description =
        if version = 0 ∧ description ≠ [] then description else s.context.description) := by
  intro s'
  obtain ⟨hpos, -, heq⟩ | ⟨hle, hversion, hfields⟩ :=
    s.update_cases root (clock, { schemaVersion := version, description })
  · -- the update is refused
    change s' = _ at heq
    rw [heq]
    refine ⟨le_rfl, fun _ => rfl, fun _ => (if_neg fun hzero => ?_).symm⟩
    exact hpos hzero.1
  · change s'.context.schemaVersion = _ at hversion
    dsimp only at hle hversion
    rw [hversion]
    refine ⟨by split <;> omega, fun hzero => if_pos hzero, fun hsame => ?_⟩
    have hzero : version = 0 := by
      by_contra hpos
      rw [if_neg hpos] at hsame
      exact hne hsame
    rcases hfields with ⟨e, hnew, -⟩ | ⟨name, hnew, -, hdescription⟩
    · rw [Context.newName, if_neg fun h => h.1 rfl] at hnew
      cases hnew
    · change s'.context.description = _ at hdescription
      rw [hdescription, Context.newDescription]
      by_cases hempty : description = []
      · rw [if_neg fun h => h.1 hempty, if_neg fun h => h.2 hempty]
      · rw [if_pos (show version = 0 ∧ description ≠ [] from ⟨hzero, hempty⟩)]
        by_cases hdiff : description = s.context.description
        · rw [if_neg fun h => h.2 hdiff, hdiff]
        · exact if_pos ⟨hempty, hdiff⟩

/-- Another version is not the one that follows. -/
theorem ne_of_follows {v : ℕ} {version : UInt32} (h : UInt32.ofNat v + 1 = version) :
    version.toNat ≠ v := by
  intro hv
  have hsame : UInt32.ofNat v = version := by rw [← hv, UInt32.ofNat_toNat]
  rw [hsame] at h
  have hnat := congrArg UInt32.toNat h
  rw [UInt32.toNat_add, UInt32.toNat_one] at hnat
  have hlt := version.toNat_lt
  omega

/-- The contexts after a request: only its own is another one. -/
theorem held_appliedContexts (settings : PrinbeedSettings) (clock : Clock) {s s' : Prinbeed}
    {c : ContextMessage} (hname : ContextSetup.setName c.contextName = .ok c.contextName)
    (hrefuses : ¬ s.Refuses c) (hs : s'.contextManager = s.appliedContexts settings clock c) :
    (∀ name, name ≠ c.contextName → s'.held name = s.held name) ∧
      Rewrites c (s.held c.contextName) (s'.held c.contextName) := by
  rw [appliedContexts] at hs
  cases hget : s.contextManager.getContext c.contextName with
  | none =>
    rw [hget] at hs
    obtain ⟨context, hcreated⟩ := @ContextManager.getContext_createContext settings.root clock
      s.contextManager c.contextName hname hget c.description
    refine ⟨fun name hne => ?_, fun v d hheld => ?_⟩
    · rw [held, hs, hcreated, if_neg hne, held]
    · rw [held, hget] at hheld
      cases hheld
  | some context =>
    rw [hget] at hs
    have hupdated := @ContextManager.getContext_updateContext settings.root clock s.contextManager
      c.contextName { schemaVersion := c.schemaVersion.toNat, description := c.description }
      context hget
    have hfollows : UInt32.ofNat context.schemaVersion + 1 = c.schemaVersion := by
      by_contra hne
      exact hrefuses ⟨context, hget, hne⟩
    refine ⟨fun name hne => ?_, fun v d hheld => ?_⟩
    · rw [held, hs, hupdated, held]
      cases s.contextManager.getContext name with
      | none => rfl
      | some c' =>
        rw [Option.map_some, if_neg hne]
    · rw [held, hget] at hheld
      cases hheld
      rw [held, hs, hupdated, hget, Option.map_some, if_pos rfl, Option.map_some]
      obtain ⟨hle, hunversioned, hsame⟩ := update_description settings.root clock
        ⟨context, s.contextManager.disk⟩ c.description (ne_of_follows hfollows)
      have hzero : c.schemaVersion.toNat = 0 ↔ c.schemaVersion = 0 := by
        rw [← UInt32.toNat_inj, UInt32.toNat_zero]
      refine ⟨_, _, rfl, hle, fun hwrap => hunversioned (hzero.2 hwrap), fun hv => ?_⟩
      rw [hsame hv]
      exact if_congr (and_congr_left' hzero) rfl rfl

/-! ### What one event changes -/

/-- The contexts are the same, the payloads keep their messages, stages and locks, and the new ones
have no lock. -/
structure Quiet (s s' : Prinbeed) : Prop where
  contexts : s'.contextManager = s.contextManager
  kept : ∀ i p, s.payloads i = some p →
    ∃ p', s'.payloads i = some p' ∧ p'.message = p.message ∧ p'.stage = p.stage ∧ p'.lock = p.lock
  added : ∀ i p', s.payloads i = none → s'.payloads i = some p' → p'.lock = none

theorem quiet_of_eq {s s' : Prinbeed} (hpayloads : s'.payloads = s.payloads)
    (hcontexts : s'.contextManager = s.contextManager) : Quiet s s' where
  contexts := hcontexts
  kept i p hp := ⟨p, by rw [hpayloads, hp], rfl, rfl, rfl⟩
  added i p' hp hp' := by
    rw [hpayloads, hp] at hp'
    cases hp'

theorem Quiet.trans {s s' s'' : Prinbeed} (h : Quiet s s') (h' : Quiet s' s'') : Quiet s s'' where
  contexts := h'.contexts.trans h.contexts
  kept i p hp := by
    obtain ⟨p', hp', hmessage, hstage, hlock⟩ := h.kept i p hp
    obtain ⟨p'', hp'', hmessage', hstage', hlock'⟩ := h'.kept i p' hp'
    exact ⟨p'', hp'', hmessage'.trans hmessage, hstage'.trans hstage, hlock'.trans hlock⟩
  added i p'' hp hp'' := by
    cases hp' : s'.payloads i with
    | none => exact h'.added i p'' hp' hp''
    | some p' =>
      obtain ⟨q, hq, -, -, hlock⟩ := h'.kept i p' hp'
      rw [hp''] at hq
      cases hq
      exact hlock.trans (h.added i p' hp hp')

theorem quiet_setPayload {s : Prinbeed} {i : ℕ} {p p' : Payload} (hp : s.payloads i = some p)
    (hmessage : p'.message = p.message) (hstage : p'.stage = p.stage) (hlock : p'.lock = p.lock) :
    Quiet s (s.setPayload i p') where
  contexts := rfl
  kept j q hq := by
    by_cases hj : j = i
    · subst hj
      rw [hp] at hq
      cases hq
      exact ⟨p', Function.update_self _ _ _, hmessage, hstage, hlock⟩
    · exact ⟨q, (Function.update_of_ne hj _ _).trans hq, rfl, rfl, rfl⟩
  added j q hq hq' := by
    have hj : j ≠ i := by
      rintro rfl
      rw [hp] at hq
      cases hq
    have hsame : (s.setPayload i p').payloads j = s.payloads j := Function.update_of_ne hj _ _
    rw [hsame, hq] at hq'
    cases hq'

theorem quiet_newPayload {s : Prinbeed} (h : s.payloads s.count = none) (peer : ℕ)
    (message : Message) : Quiet s (s.newPayload peer message) where
  contexts := rfl
  kept j q hq := by
    have hj : j ≠ s.count := by
      rintro rfl
      rw [h] at hq
      cases hq
    exact ⟨q, (Function.update_of_ne hj _ _).trans hq, rfl, rfl, rfl⟩
  added j q hq hq' := by
    by_cases hj : j = s.count
    · subst hj
      have hself : (s.newPayload peer message).payloads s.count = some { peer, message } :=
        Function.update_self _ _ _
      rw [hself] at hq'
      cases hq'
      rfl
    · have hsame : (s.newPayload peer message).payloads j = s.payloads j :=
        Function.update_of_ne hj _ _
      rw [hsame, hq] at hq'
      cases hq'

theorem quiet_processAcknowledgment (s : Prinbeed) (peer : ℕ) (n : UInt32) (success : Bool) :
    Quiet s (s.processAcknowledgment peer n success) := by
  rw [processAcknowledgment]
  split
  · exact quiet_of_eq rfl rfl
  · next i _ =>
    dsimp only
    split
    · exact quiet_of_eq rfl rfl
    · next p hp =>
      set s₁ : Prinbeed := { s with
        expectedAcknowledgment := Function.update s.expectedAcknowledgment n none }
      have herased : Quiet s s₁ := quiet_of_eq rfl rfl
      have hset : Quiet s₁ (s₁.setPayload i (setAcknowledgedBy p n peer success)) :=
        quiet_setPayload hp rfl rfl rfl
      exact (herased.trans hset).trans (quiet_of_eq rfl rfl)

theorem quiet_expectAcknowledgment (s : Prinbeed) (i : ℕ) (n : UInt32) :
    Quiet s (s.expectAcknowledgment i n).2 := by
  rw [expectAcknowledgment]
  split
  · exact quiet_of_eq rfl rfl
  · next p hp =>
    rw [addMessageToAcknowledge]
    split
    · exact quiet_of_eq rfl rfl
    · next p' hp' =>
      split at hp'
      · cases hp'
      · cases hp'
        have hset : Quiet s (s.setPayload i { p with
            acknowledgmentMessages := p.acknowledgmentMessages ++ [(n, none)] }) :=
          quiet_setPayload hp rfl rfl rfl
        exact hset.trans (quiet_of_eq rfl rfl)

theorem quiet_registerClient (settings : PrinbeedSettings) (clock : Clock) (s : Prinbeed) (i : ℕ)
    (p : Payload) (cause : Cause) (r : RegisterMessage) :
    Quiet s (registerClient settings clock s i p cause r).2 := by
  unfold registerClient
  dsimp only
  split
  · exact quiet_of_eq rfl rfl
  · exact quiet_of_eq rfl rfl
  · split
    · exact quiet_of_eq rfl rfl
    · split
      · exact quiet_of_eq rfl rfl
      · split <;> exact quiet_of_eq rfl rfl

theorem quiet_connectToNode (settings : PrinbeedSettings) {s : Prinbeed} (h : s.Locking)
    (peer : ℕ) (name : List Char) (now : ℤ) : Quiet s (s.connectToNode settings peer name now) := by
  rw [connectToNode]
  dsimp only
  set s₀ : Prinbeed := { s.registerConnection peer .node with
    names := Function.update s.names peer name }
  set data : MessageData := .register ⟨settings.nodeName, settings.protocolVersion, some now⟩
  set s₁ := s₀.sendMessage peer data none
  have hsame : Quiet s s₁ := quiet_of_eq rfl rfl
  have hnew : Quiet s₁ (s₁.newPayload peer ⟨s₀.nextSerialNumber, data⟩) :=
    quiet_newPayload (show s₁.payloads s₁.count = none from h.fresh s.count le_rfl) _ _
  exact (hsame.trans hnew).trans (quiet_expectAcknowledgment _ _ _)

theorem quiet_receive {s : Prinbeed} (h : s.Locking) (peer : ℕ) (message : Message) :
    Quiet s (s.receive peer message) := by
  set s₁ : Prinbeed := { s with received := s.received ++ [(peer, message)] } with hs₁
  have hsame : Quiet s s₁ := quiet_of_eq rfl rfl
  rw [receive, ← hs₁]
  split
  · exact hsame.trans (quiet_processAcknowledgment _ _ _ _)
  · have hnew : Quiet s₁ (s₁.newPayload peer message) :=
      quiet_newPayload (show s₁.payloads s₁.count = none from h.fresh s.count le_rfl) _ _
    exact (hsame.trans hnew).trans (quiet_of_eq rfl rfl)

/-- A worker that takes a payload other than a SCTX, or nothing. -/
theorem quiet_work (settings : PrinbeedSettings) (clock : Clock) {s : Prinbeed} (k : ℕ)
    (hother : ∀ i cause p data, ¬ Handled s k i cause p data) :
    Quiet s (s.work settings clock k).2 := by
  rw [work]
  split
  · exact quiet_of_eq rfl rfl
  · next i cause hk =>
    have htaken : Quiet s (s.takePayload k) := quiet_of_eq rfl rfl
    dsimp only
    split
    · exact htaken
    · next p hp =>
      split
      · exact htaken.trans (quiet_registerClient _ _ _ _ _ _ _)
      · rw [acknowledge]
        split
        · exact htaken
        · exact (htaken.trans (quiet_processAcknowledgment _ _ _ _)).trans (quiet_of_eq rfl rfl)
      · next data hdata => exact absurd ⟨hk, hp, hdata⟩ (hother i cause p data)
      · exact htaken
      · exact htaken

/-- The events that are not the handling of a SCTX, nor a lock that is obtained. -/
theorem quiet_step (settings : PrinbeedSettings) {s : Prinbeed} (h : s.Locking)
    (event : PrinbeedEvent)
    (hother : ∀ clock k, event = .work clock k → ∀ i cause p data, ¬ Handled s k i cause p data)
    (hlock : ∀ i, event ≠ .obtainedLock i) : Quiet s (s.step settings event) := by
  cases event with
  | accept peer type => exact quiet_of_eq rfl rfl
  | connectToNode peer name now => exact quiet_connectToNode settings h peer name now
  | disconnect peer => exact quiet_of_eq rfl rfl
  | receive peer message => exact quiet_receive h peer message
  | work clock k => exact quiet_work settings clock k (hother clock k rfl)
  | obtainedLock i => exact absurd rfl (hlock i)
  | failedLock i =>
    change Quiet s (s.processFailedLock i)
    rw [processFailedLock]
    split
    · exact quiet_of_eq rfl rfl
    · split <;> exact quiet_of_eq rfl rfl
  | newMessage => exact quiet_of_eq rfl rfl

/-- What an event may do to a payload: its stage does not go back; its lock is asked for, under the
name of its context, or obtained. -/
structure Evolves (event : PrinbeedEvent) (i : ℕ) (p p' : Payload) : Prop where
  message : p'.message = p.message
  stage : p.stage ≤ p'.stage
  lock : p'.lock = p.lock ∨
    (p.lock = none ∧ ∃ c, p.message.data.context = some c ∧
      p'.lock = some { objectName := contextObject c.contextName }) ∨
    (event = .obtainedLock i ∧ ∃ lock, p.lock = some lock ∧
      p'.lock = some { lock with obtained := true })

theorem evolves_self (event : PrinbeedEvent) (i : ℕ) (p : Payload) : Evolves event i p p :=
  ⟨rfl, le_rfl, .inl rfl⟩

/-- What an event may do to the payloads: the new ones have no lock. -/
structure Evolved (event : PrinbeedEvent) (s s' : Prinbeed) : Prop where
  kept : ∀ i p, s.payloads i = some p → ∃ p', s'.payloads i = some p' ∧ Evolves event i p p'
  added : ∀ i p', s.payloads i = none → s'.payloads i = some p' → p'.lock = none

theorem Quiet.evolved {s s' : Prinbeed} (h : Quiet s s') (event : PrinbeedEvent) :
    Evolved event s s' where
  kept i p hp := by
    obtain ⟨p', hp', hmessage, hstage, hlock⟩ := h.kept i p hp
    exact ⟨p', hp', hmessage, le_of_eq hstage.symm, .inl hlock⟩
  added := h.added

theorem evolved_of_eq {s s' : Prinbeed} (h : s'.payloads = s.payloads) (event : PrinbeedEvent) :
    Evolved event s s' where
  kept i p hp := ⟨p, by rw [h, hp], evolves_self event i p⟩
  added i p' hp hp' := by
    rw [h, hp] at hp'
    cases hp'

theorem evolved_update {s s' : Prinbeed} {event : PrinbeedEvent} {i : ℕ} {p p' : Payload}
    (hp : s.payloads i = some p) (hs : s'.payloads = Function.update s.payloads i (some p'))
    (hevolves : Evolves event i p p') : Evolved event s s' where
  kept j q hq := by
    rw [hs]
    by_cases hj : j = i
    · subst hj
      rw [hp] at hq
      cases hq
      exact ⟨p', Function.update_self _ _ _, hevolves⟩
    · exact ⟨q, (Function.update_of_ne hj _ _).trans hq, evolves_self event j q⟩
  added j q hq hq' := by
    have hj : j ≠ i := by
      rintro rfl
      rw [hp] at hq
      cases hq
    rw [hs, Function.update_of_ne hj, hq] at hq'
    cases hq'

/-- A SCTX payload in the FIFO that does not hold its lock has not asked for it. -/
theorem Handled.idle {s : Prinbeed} {k i : ℕ} {cause : Cause} {p : Payload}
    {data : Option ContextMessage} (hk : Handled s k i cause p data) (h : s.Locking)
    (hheld : ¬ p.Holds) : p.stage = 0 ∧ p.lock = none := by
  have hset : p.message.data.isSetContext = true := by rw [hk.message]; rfl
  have hstaged := h.staged i p hk.payload
  rw [if_pos hset, pending_eraseIdx hk.entry i, if_pos rfl] at hstaged
  cases hlock : p.lock with
  | none =>
    rw [Payload.Staged, hlock] at hstaged
    exact ⟨hstaged.1, rfl⟩
  | some lock =>
    rw [Payload.Staged, hlock] at hstaged
    have hlast := hstaged.2.2
    rw [if_neg fun hobtained => hheld ⟨lock, hlock, hobtained⟩] at hlast
    omega

/-- A SCTX payload that holds its lock is past stage 0. -/
theorem Locking.stage_mem {s : Prinbeed} (h : s.Locking) {i : ℕ} {p : Payload}
    (hp : s.payloads i = some p) (hholds : p.Holds) : 1 ≤ p.stage ∧ p.stage ≤ 3 := by
  have hstaged := h.staged i p hp
  rw [if_pos (h.isSetContext hp hholds)] at hstaged
  obtain ⟨lock, hlock, hobtained⟩ := hholds
  rw [Payload.Staged, hlock] at hstaged
  have hlast := hstaged.2.2
  rw [if_pos hobtained] at hlast
  omega

theorem evolved_step (settings : PrinbeedSettings) {s : Prinbeed} (h : s.Locking)
    (event : PrinbeedEvent) : Evolved event s (s.step settings event) := by
  rcases handled_or s event with ⟨clock, k, i, cause, p, data, rfl, hk⟩ | hother
  · have hsame : Same (s.takePayload k) (s.step settings (.work clock k)) →
        Evolved (.work clock k) s (s.step settings (.work clock k)) := fun hsame =>
      evolved_of_eq (hsame.payloads.trans (s.takePayload_payloads k)) _
    obtain ⟨-, -, ⟨hheld, hs | ⟨c, hcontext, hpl, -⟩⟩ | ⟨c, -, hholds, hcases⟩⟩ :=
      hk.cases settings clock h
    · exact hsame hs
    · obtain ⟨hstage, hlock⟩ := hk.idle h hheld
      exact evolved_update hk.payload hpl.payloads
        ⟨rfl, by omega, .inr (.inl ⟨hlock, c, hcontext, rfl⟩)⟩
    · have hmem := h.stage_mem hk.payload hholds
      rcases hcases with ⟨hstage, -, hpl, -⟩ | ⟨-, -, hs | hpl⟩
      · exact evolved_update hk.payload hpl.payloads ⟨rfl, by dsimp only; omega, .inl rfl⟩
      · exact hsame hs
      · exact evolved_update hk.payload hpl.payloads ⟨rfl, hmem.2, .inl rfl⟩
  · by_cases hlock : ∃ i, event = .obtainedLock i
    · obtain ⟨i, rfl⟩ := hlock
      change Evolved _ s (s.processObtainedLock i)
      rw [processObtainedLock]
      split
      · exact evolved_of_eq rfl _
      · next p hp =>
        split
        · exact evolved_of_eq rfl _
        · next lock hlock =>
          split
          · exact evolved_of_eq rfl _
          · exact evolved_update hp rfl ⟨rfl, le_rfl, .inr (.inr ⟨rfl, lock, hlock, rfl⟩)⟩
    · exact (quiet_step settings h event hother fun i hi => hlock ⟨i, hi⟩).evolved event

/-- A request that is applied changes its own context. -/
theorem Applies.held (settings : PrinbeedSettings) {s : Prinbeed} {event : PrinbeedEvent}
    {c : ContextMessage} (h : s.Applies event c) :
    (∀ name, name ≠ c.contextName → (s.step settings event).held name = s.held name) ∧
      Rewrites c (s.held c.contextName) ((s.step settings event).held c.contextName) := by
  obtain ⟨clock, k, i, cause, p, rfl, hk, hp, hcontext, hstage, hrefuses⟩ := h
  refine held_appliedContexts settings clock (setName_context hcontext) hrefuses ?_
  change (s.work settings clock k).2.contextManager = _
  rw [work_eq settings clock hk hp]
  cases hdata : p.message.data with
  | setContext data =>
    rw [hdata] at hcontext
    dsimp only
    rw [(setContext_some settings clock (s.takePayload k) i p cause hcontext).2, hstage]
    rcases contextManager_setContextLocked settings clock (s.takePayload k) i p cause c with
      ⟨hno, -⟩ | ⟨-, heq⟩
    · exact absurd hno hrefuses
    · exact heq
  | _ => rw [hdata] at hcontext; cases hcontext

/-- **What one event changes in the contexts**: nothing, or the context of a request that is
applied. -/
theorem held_step (settings : PrinbeedSettings) {s : Prinbeed} (h : s.Locking)
    (event : PrinbeedEvent) :
    (∀ name, (s.step settings event).held name = s.held name) ∨ ∃ c, s.Applies event c := by
  have hquiet : ∀ {s' : Prinbeed}, s'.contextManager = s.contextManager →
      ∀ name, s'.held name = s.held name := fun hs name => by rw [held, hs, held]
  rcases handled_or s event with ⟨clock, k, i, cause, p, data, rfl, hk⟩ | hother
  · have hs : s.step settings (.work clock k) =
        (setContext settings clock (s.takePayload k) i p cause data).2 := by
      change (s.work settings clock k).2 = _
      rw [work_eq settings clock hk.entry hk.payload, hk.message]
    rw [hs]
    rcases contextManager_setContext settings clock (s.takePayload k) i p cause data with
      heq | ⟨c, hcontext, hstage, hrefuses⟩
    · exact .inl (hquiet heq)
    · have hcontext' : p.message.data.context = some c := hk.message ▸ hcontext
      exact .inr ⟨c, clock, k, i, cause, p, rfl, hk.entry, hk.payload, hcontext', hstage, hrefuses⟩
  · refine .inl (hquiet ?_)
    by_cases hlock : ∃ i, event = .obtainedLock i
    · obtain ⟨i, rfl⟩ := hlock
      change (s.processObtainedLock i).contextManager = _
      rw [processObtainedLock]
      split
      · rfl
      · split
        · rfl
        · split <;> rfl
    · exact (quiet_step settings h event hother fun i hi => hlock ⟨i, hi⟩).contexts

/-- The payload of a request that is applied holds the lock of its context, and goes to stage 2. -/
theorem Applies.holds (settings : PrinbeedSettings) {s : Prinbeed} {event : PrinbeedEvent}
    {c : ContextMessage} (h : s.Applies event c) (hl : s.Locking) :
    ∃ i p, s.payloads i = some p ∧ p.Holds ∧ p.message.data.context = some c ∧
      (s.step settings event).payloads i = some { p with stage := 2 } := by
  obtain ⟨clock, k, i, cause, p, rfl, hentry, hp, hcontext, hstage, hrefuses⟩ := h
  cases hdata : p.message.data with
  | setContext data =>
    have hk : Handled s k i cause p data := ⟨hentry, hp, hdata⟩
    obtain ⟨-, -, ⟨hheld, -⟩ | ⟨c', hcontext', hholds, hcases⟩⟩ := hk.cases settings clock hl
    · have hzero := (hk.idle hl hheld).1
      omega
    · rw [hcontext] at hcontext'
      cases hcontext'
      rcases hcases with ⟨-, -, hpl, -⟩ | ⟨hno, -⟩
      · exact ⟨i, p, hp, hholds, hdata ▸ hcontext, hpl.payloads ▸ Function.update_self _ _ _⟩
      · exact absurd ⟨hstage, hrefuses⟩ hno
  | _ => rw [hdata] at hcontext; cases hcontext

end Prinbeed

/-! ### Clusters -/

/-- The daemons of a cluster. -/
abbrev Cluster (ι : Type*) := ι → Prinbeed

namespace Cluster

variable {ι : Type*}

/-- The daemons start with some contexts. -/
def start (managers : ι → ContextManager) : Cluster ι := fun a => { contextManager := managers a }

/-- What the nodes hold of a context. -/
def copies (s : Cluster ι) (name : List Char) : Copies ι (List Char) := fun a => (s a).held name

/-- **Agreement**: two nodes that hold a context of one name at the same version hold the same
description. -/
def Agree (s : Cluster ι) : Prop := ∀ name, (s.copies name).Agree

/-- The grants are exclusive: a lock is granted to a payload while no other one has obtained the lock
of the same object and not released it. -/
def Exclusive (s : Cluster ι) (e : ι × PrinbeedEvent) : Prop :=
  ∀ i, e.2 = .obtainedLock i → ∀ p lock, (s e.1).payloads i = some p → p.lock = some lock →
    ∀ b j q l, (s b).payloads j = some q → q.lock = some l → l.objectName = lock.objectName →
      l.obtained = true → l.unlocked = 0 → b = e.1 ∧ j = i

/-- A request is applied to a context that another node has changed since the start. -/
def Stale (initial s : Cluster ι) (e : ι × PrinbeedEvent) : Prop :=
  ∃ c, (s e.1).Applies e.2 c ∧
    ∃ b, b ≠ e.1 ∧ s.copies c.contextName b ≠ initial.copies c.contextName b

/-- A request for version 0, which follows the greatest version, is applied: it gives another
description to a context that another node holds at the same version. -/
def Wraps (s : Cluster ι) (e : ι × PrinbeedEvent) : Prop :=
  ∃ c v d, (s e.1).Applies e.2 c ∧ c.schemaVersion = 0 ∧ c.description ≠ [] ∧ c.description ≠ d ∧
    s.copies c.contextName e.1 = some (v, d) ∧
    ∃ b, b ≠ e.1 ∧ ∃ d₁, s.copies c.contextName b = some (v, d₁)

/-! ### One writer -/

/-- What the runs without a stale request keep: each context was changed by one node at most. -/
structure Settled (initial s : Cluster ι) : Prop where
  agreed : ∀ name a b, initial.copies name a = initial.copies name b
  locking : ∀ a, (s a).Locking
  written : ∀ name b, ∃ a, Copies.Written (initial.copies name b) (s.copies name) a

theorem Settled.agree {initial s : Cluster ι} (h : Settled initial s) : s.Agree := by
  intro name a
  obtain ⟨w, hw⟩ := h.written name a
  exact hw.agree a

/-- A daemon that starts has no payload and waits for no lock. -/
theorem locking_start (managers : ι → ContextManager) (a : ι) : (start managers a).Locking :=
  ⟨fun _ _ => rfl, fun e he => (by cases he), fun n i hn => (by cases hn), fun i p hp => by cases hp⟩

theorem settled_start {managers : ι → ContextManager}
    (h : ∀ name a b, (start managers).copies name a = (start managers).copies name b) :
    Settled (start managers) (start managers) where
  agreed := h
  locking := locking_start managers
  written name b := ⟨b, Copies.written_start fun a => h name a b⟩

/-! ### Exclusive grants -/

/-- What the runs with exclusive grants keep: a lock has the name of the context of its payload, one
payload holds it at most, and a node that changed a context holds its lock, past stage 1. -/
structure Guarded (initial s : Cluster ι) : Prop where
  locking : ∀ a, (s a).Locking
  named : ∀ a i p lock, (s a).payloads i = some p → p.lock = some lock →
    ∃ c, p.message.data.context = some c ∧ lock.objectName = contextObject c.contextName
  single : ∀ a i p l b j q l', (s a).payloads i = some p → p.lock = some l → l.obtained = true →
    (s b).payloads j = some q → q.lock = some l' → l'.obtained = true →
    l.objectName = l'.objectName → a = b ∧ i = j
  changed : ∀ name a, s.copies name a ≠ initial.copies name a →
    ∃ i p lock, (s a).payloads i = some p ∧ p.lock = some lock ∧ lock.obtained = true ∧
      lock.objectName = contextObject name ∧ 2 ≤ p.stage

/-- While the grants are exclusive, no request is applied to a context that another node changed. -/
theorem Guarded.not_stale (settings : ι → PrinbeedSettings) {initial s : Cluster ι}
    (h : Guarded initial s) (e : ι × PrinbeedEvent) : ¬ Stale initial s e := by
  rintro ⟨c, happlies, b, hb, hchanged⟩
  obtain ⟨i, p, hp, ⟨l, hl, hobtained⟩, hcontext, -⟩ :=
    happlies.holds (settings e.1) (h.locking e.1)
  obtain ⟨c', hcontext', hname⟩ := h.named e.1 i p l hp hl
  rw [hcontext] at hcontext'
  cases hcontext'
  obtain ⟨j, q, l', hq, hl', hobtained', hname', -⟩ := h.changed c.contextName b hchanged
  exact hb (h.single _ _ _ _ _ _ _ _ hp hl hobtained hq hl' hobtained'
    (hname.trans hname'.symm)).1.symm

theorem guarded_start (managers : ι → ContextManager) :
    Guarded (start managers) (start managers) where
  locking := locking_start managers
  named a i p lock hp := by cases hp
  single a i p l b j q l' hp := by cases hp
  changed name a hne := absurd rfl hne

/-! ### Steps -/

variable [DecidableEq ι] (settings : ι → PrinbeedSettings)

/-- An event in one of the daemons. -/
def step (s : Cluster ι) (e : ι × PrinbeedEvent) : Cluster ι :=
  Function.update s e.1 ((s e.1).step (settings e.1) e.2)

theorem copies_step (s : Cluster ι) (e : ι × PrinbeedEvent) (name : List Char) :
    (s.step settings e).copies name =
      Function.update (s.copies name) e.1 (((s e.1).step (settings e.1) e.2).held name) := by
  funext b
  rw [copies, step]
  by_cases hb : b = e.1
  · subst hb
    rw [Function.update_self, Function.update_self]
  · rw [Function.update_of_ne hb, Function.update_of_ne hb, copies]

theorem locking_step {s : Cluster ι} (h : ∀ a, (s a).Locking) (e : ι × PrinbeedEvent) (a : ι) :
    (s.step settings e a).Locking := by
  rw [step]
  by_cases ha : a = e.1
  · subst ha
    rw [Function.update_self]
    exact (h _).step (settings _) e.2
  · rw [Function.update_of_ne ha]
    exact h a

theorem Settled.step {initial s : Cluster ι} (h : Settled initial s) (e : ι × PrinbeedEvent)
    (hstale : ¬ Stale initial s e) (hwraps : ¬ Wraps s e) : Settled initial (s.step settings e) := by
  refine ⟨h.agreed, locking_step settings h.locking e, fun name b => ?_⟩
  obtain ⟨w, hw⟩ := h.written name b
  rw [copies_step]
  have hquiet : ((s e.1).step (settings e.1) e.2).held name = (s e.1).held name →
      ∃ a, Copies.Written (initial.copies name b)
        (Function.update (s.copies name) e.1 (((s e.1).step (settings e.1) e.2).held name)) a := by
    intro hsame
    refine ⟨w, ?_⟩
    rw [hsame, show (s e.1).held name = s.copies name e.1 from rfl, Function.update_eq_self]
    exact hw
  rcases Prinbeed.held_step (settings e.1) (h.locking e.1) e.2 with hsame | ⟨c, happlies⟩
  · exact hquiet (hsame name)
  · obtain ⟨hframe, hrewrites⟩ := happlies.held (settings e.1)
    by_cases hname : name = c.contextName
    · subst hname
      -- the others have not changed this context
      have hothers : ∀ a, a ≠ e.1 → s.copies c.contextName a = initial.copies c.contextName b := by
        intro a ha
        by_contra hne
        exact hstale ⟨c, happlies, a, ha, fun heq => hne (heq.trans (h.agreed _ a b))⟩
      refine ⟨e.1, (hw.writer hothers).write fun v d hheld => ?_⟩
      obtain ⟨v', d', hto, hle, -, hdescription⟩ := hrewrites v d hheld
      refine ⟨v', d', hto, hle, fun hv hother => ?_⟩
      rw [hdescription hv]
      split
      · next hwrap =>
        by_contra hne
        exact hwraps ⟨c, v, d, happlies, hwrap.1, hwrap.2, hne, hheld, hother⟩
      · rfl
    · exact hquiet (hframe name hname)

/-- A request that wraps loses the agreement. -/
theorem not_wraps {s : Cluster ι} {e : ι × PrinbeedEvent} (h : s.Agree)
    (h' : (s.step settings e).Agree) : ¬ Wraps s e := by
  rintro ⟨c, v, d, happlies, hzero, hempty, hne, hheld, b, hb, d₁, hother⟩
  obtain ⟨-, hrewrites⟩ := happlies.held (settings e.1)
  obtain ⟨v', d', hto, -, hsame, hdescription⟩ := hrewrites v d hheld
  have hv := hsame hzero
  rw [hv] at hto
  have hd := hdescription hv
  rw [if_pos ⟨hzero, hempty⟩] at hd
  have hd₁ : d = d₁ := h c.contextName e.1 b v d d₁ hheld hother
  refine hne ?_
  rw [← hd, hd₁]
  refine h' c.contextName e.1 b v d' d₁ ?_ ?_
  · rw [copies_step, Function.update_self, hto]
  · rw [copies_step, Function.update_of_ne hb, hother]

/-- A payload with a lock after an event: it had that lock, or it asked for it, or obtained it. -/
theorem lock_step {s : Cluster ι} (h : ∀ a, (s a).Locking) (e : ι × PrinbeedEvent) {a : ι} {i : ℕ}
    {p' : Payload} {l : ClusterLock} (hp' : (s.step settings e a).payloads i = some p')
    (hl : p'.lock = some l) :
    ∃ p, (s a).payloads i = some p ∧ p'.message = p.message ∧
      (p.lock = some l ∨
        (l.obtained = false ∧ ∃ c, p.message.data.context = some c ∧
          l.objectName = contextObject c.contextName) ∨
        (a = e.1 ∧ e.2 = .obtainedLock i ∧ ∃ l₀, p.lock = some l₀ ∧
          l.objectName = l₀.objectName)) := by
  rw [Cluster.step] at hp'
  by_cases ha : a = e.1
  · subst ha
    rw [Function.update_self] at hp'
    have hevolved := Prinbeed.evolved_step (settings e.1) (h e.1) e.2
    cases hp : (s e.1).payloads i with
    | none =>
      rw [hevolved.added i p' hp hp'] at hl
      cases hl
    | some p =>
      obtain ⟨q, hq, hevolves⟩ := hevolved.kept i p hp
      rw [hp'] at hq
      cases hq
      refine ⟨p, rfl, hevolves.message, ?_⟩
      rcases hevolves.lock with hsame | ⟨-, c, hcontext, hnew⟩ | ⟨hevent, l₀, hl₀, hnew⟩
      · exact .inl (hsame.symm.trans hl)
      · rw [hl] at hnew
        cases hnew
        exact .inr (.inl ⟨rfl, c, hcontext, rfl⟩)
      · rw [hl] at hnew
        cases hnew
        exact .inr (.inr ⟨rfl, hevent, l₀, hl₀, rfl⟩)
  · rw [Function.update_of_ne ha] at hp'
    exact ⟨p', hp', rfl, .inl hl⟩

/-- A payload that holds a lock past stage 1 goes on like that. -/
theorem holder_step {s : Cluster ι} (h : ∀ a, (s a).Locking) (e : ι × PrinbeedEvent) {a : ι}
    {i : ℕ} {p : Payload} {l : ClusterLock} (hp : (s a).payloads i = some p)
    (hl : p.lock = some l) (hobtained : l.obtained = true) (hstage : 2 ≤ p.stage) :
    ∃ p', (s.step settings e a).payloads i = some p' ∧ ∃ l', p'.lock = some l' ∧
      l'.obtained = true ∧ l'.objectName = l.objectName ∧ 2 ≤ p'.stage := by
  rw [Cluster.step]
  by_cases ha : a = e.1
  · subst ha
    rw [Function.update_self]
    obtain ⟨p', hp', hevolves⟩ := (Prinbeed.evolved_step (settings e.1) (h e.1) e.2).kept i p hp
    refine ⟨p', hp', ?_⟩
    rcases hevolves.lock with hsame | ⟨hnone, -⟩ | ⟨-, l₀, hl₀, hnew⟩
    · exact ⟨l, hsame.trans hl, hobtained, rfl, hstage.trans hevolves.stage⟩
    · rw [hl] at hnone
      cases hnone
    · rw [hl] at hl₀
      cases hl₀
      exact ⟨_, hnew, rfl, rfl, hstage.trans hevolves.stage⟩
  · rw [Function.update_of_ne ha]
    exact ⟨p, hp, l, hl, hobtained, rfl, hstage⟩

theorem Guarded.step {initial s : Cluster ι} (h : Guarded initial s) (e : ι × PrinbeedEvent)
    (hexclusive : Exclusive s e) : Guarded initial (s.step settings e) where
  locking := locking_step settings h.locking e
  named a i p' l hp' hl := by
    obtain ⟨p, hp, hmessage, hlock | ⟨-, hasked⟩ | ⟨-, -, l₀, hl₀, hname⟩⟩ :=
      lock_step settings h.locking e hp' hl
    · rw [hmessage]
      exact h.named a i p l hp hlock
    · rw [hmessage]
      exact hasked
    · rw [hmessage, hname]
      exact h.named a i p l₀ hp hl₀
  single a i p' l b j q' l' hp' hl hobtained hq' hl' hobtained' hname := by
    obtain ⟨p, hp, -, hlock | ⟨hno, -⟩ | ⟨ha, hi, l₀, hl₀, hname₀⟩⟩ :=
      lock_step settings h.locking e hp' hl
    · obtain ⟨q, hq, -, hlock' | ⟨hno, -⟩ | ⟨hb, hj, l₁, hl₁, hname₁⟩⟩ :=
        lock_step settings h.locking e hq' hl'
      · exact h.single a i p l b j q l' hp hlock hobtained hq hlock' hobtained' hname
      · rw [hno] at hobtained'
        cases hobtained'
      · -- the second one was just obtained
        have hgrant := hexclusive j hj q l₁ (hb ▸ hq) hl₁ a i p l hp hlock (hname.trans hname₁)
          hobtained ((h.locking a).unlocked hp hlock)
        exact ⟨hgrant.1.trans hb.symm, hgrant.2⟩
    · rw [hno] at hobtained
      cases hobtained
    · obtain ⟨q, hq, -, hlock' | ⟨hno, -⟩ | ⟨hb, hj, -⟩⟩ := lock_step settings h.locking e hq' hl'
      · have hgrant := hexclusive i hi p l₀ (ha ▸ hp) hl₀ b j q l' hq hlock'
          (hname.symm.trans hname₀) hobtained' ((h.locking b).unlocked hq hlock')
        exact ⟨ha.trans hgrant.1.symm, hgrant.2.symm⟩
      · rw [hno] at hobtained'
        cases hobtained'
      · rw [hi] at hj
        cases hj
        exact ⟨ha.trans hb.symm, rfl⟩
  changed name a hchanged := by
    have hold : s.copies name a ≠ initial.copies name a →
        ∃ i p lock, (s.step settings e a).payloads i = some p ∧ p.lock = some lock ∧
          lock.obtained = true ∧ lock.objectName = contextObject name ∧ 2 ≤ p.stage := by
      intro hne
      obtain ⟨i, p, l, hp, hl, hobtained, hname, hstage⟩ := h.changed name a hne
      obtain ⟨p', hp', l', hl', hobtained', hname', hstage'⟩ :=
        holder_step settings h.locking e hp hl hobtained hstage
      exact ⟨i, p', l', hp', hl', hobtained', hname'.trans hname, hstage'⟩
    rw [copies_step] at hchanged
    by_cases ha : a = e.1
    · subst ha
      rw [Function.update_self] at hchanged
      rcases Prinbeed.held_step (settings e.1) (h.locking e.1) e.2 with hsame | ⟨c, happlies⟩
      · exact hold fun heq => hchanged ((hsame name).trans heq)
      · by_cases hname : name = c.contextName
        · -- the request that is applied
          obtain ⟨i, p, hp, ⟨l, hl, hobtained⟩, hcontext, hp'⟩ :=
            happlies.holds (settings e.1) (h.locking e.1)
          obtain ⟨c', hcontext', hobject⟩ := h.named e.1 i p l hp hl
          rw [hcontext] at hcontext'
          cases hcontext'
          refine ⟨i, { p with stage := 2 }, l, ?_, hl, hobtained, hname ▸ hobject, le_rfl⟩
          rw [Cluster.step, Function.update_self]
          exact hp'
        · have hsame := (happlies.held (settings e.1)).1 name hname
          exact hold fun heq => hchanged (hsame.trans heq)
    · rw [Function.update_of_ne ha] at hchanged
      exact hold hchanged

/-! ### Runs -/

/-- **The nodes agree** in every run that starts with the same contexts on all nodes, if no request
is applied to a context that another node changed, and none that follows the greatest version changes
a description.  While the grants are exclusive only the latter can happen, and the nodes agree
exactly when it does not. -/
theorem agree_run (managers : ι → ContextManager)
    (hstart : ∀ name a b, (start managers).copies name a = (start managers).copies name b)
    (events : List (ι × PrinbeedEvent)) :
    (Run.Each (fun s e => ¬ Stale (start managers) s e ∧ ¬ Wraps s e) (step settings)
        (start managers) events →
      Run.Always Agree (step settings) (start managers) events) ∧
    (Run.Each Exclusive (step settings) (start managers) events →
      (Run.Always Agree (step settings) (start managers) events ↔
        Run.Each (fun s e => ¬ Wraps s e) (step settings) (start managers) events)) := by
  have hsettled := settled_start hstart
  constructor
  · exact Run.always (fun s hs => hs.agree)
      (fun s e hs hok => hs.step settings e hok.1 hok.2) events _ hsettled
  · intro hexclusive
    constructor
    · exact Run.each_of_always fun s e => not_wraps settings
    · intro hwraps
      refine Run.always (fun s (hs : Guarded (start managers) s ∧ Settled (start managers) s) =>
        hs.2.agree) (fun s e hs hok => ?_) events _ ⟨guarded_start managers, hsettled⟩
        (hexclusive.and hwraps)
      exact ⟨hs.1.step settings e hok.1,
        hs.2.step settings e (hs.1.not_stale settings e) hok.2⟩

/-- A request in one node leaves the other ones alone. -/
theorem agree_run_creation :
    Run.Always Agree (step fun _ => ⟨"/contexts".toList, [], [], fun _ => .ok 0⟩)
      (start fun _ : Bool => {}) (Prinbeed.creationEvents.map (false, ·)) := by
  have halone : ∀ (s : Cluster Bool) (event : PrinbeedEvent), s true = {} →
      ¬ Stale (start fun _ => {}) s (false, event) ∧ ¬ Wraps s (false, event) := by
    intro s event htrue
    have hnone : ∀ name, s.copies name true = none := fun name => by
      rw [copies, htrue]
      rfl
    constructor
    · rintro ⟨c, -, b, hb, hne⟩
      obtain rfl : b = true := Bool.eq_true_of_not_eq_false hb
      exact hne (hnone c.contextName)
    · rintro ⟨c, v, d, -, -, -, -, -, b, hb, d₁, hother⟩
      obtain rfl : b = true := Bool.eq_true_of_not_eq_false hb
      rw [hnone] at hother
      cases hother
  refine (agree_run _ (fun _ => {}) (fun _ _ _ => rfl) _).1 ?_
  exact ⟨halone _ _ rfl, halone _ _ rfl, halone _ _ rfl, halone _ _ rfl, halone _ _ rfl, trivial⟩

/-- A context at the greatest version. -/
def lastVersion : ContextManager where
  contexts := [("magic".toList,
    { Context.new "magic".toList with
      schemaVersion := 4294967295
      description := "old".toList
      createdOn := 1
      id := 1 })]

/-- A request for version 0 of that context. -/
def wrapEvents : List PrinbeedEvent :=
  [.receive 0 ⟨1, .setContext (some ⟨"magic".toList, "new".toList, 0, 0⟩)⟩,
    .work ⟨1, 1⟩ 0, .obtainedLock 0, .work ⟨2, 2⟩ 0]

/-- The first node changes the description of the context, and keeps its version. -/
theorem not_agree_run : ¬ ∀ (settings : Bool → PrinbeedSettings) (managers : Bool → ContextManager)
    (events : List (Bool × PrinbeedEvent)),
    (∀ name a b, (start managers).copies name a = (start managers).copies name b) →
    Run.Each Exclusive (step settings) (start managers) events →
    Run.Always Agree (step settings) (start managers) events := by
  intro h
  let settings : Bool → PrinbeedSettings := fun _ => ⟨"/contexts".toList, [], [], fun _ => .ok 0⟩
  have hexclusive : Run.Each Exclusive (step settings) (start fun _ => lastVersion)
      (wrapEvents.map (false, ·)) := by
    refine ⟨fun i hi => (by cases hi), fun i hi => (by cases hi), fun i _ p lock _ _ b j q l hq hl _
      hobtained _ => ?_, fun i hi => (by cases hi), trivial⟩
    -- the only lock was not obtained yet
    cases b with
    | true => cases hq
    | false =>
      cases j with
      | succ j => cases hq
      | zero =>
        have hfree := congrArg (Option.map fun p : Payload => p.lock.map (·.obtained)) hq
        rw [Option.map_some, hl, Option.map_some, hobtained] at hfree
        exact absurd hfree (by decide)
  have hagree := (h settings (fun _ => lastVersion) (wrapEvents.map (false, ·)) (fun _ _ _ => rfl)
    hexclusive).foldl "magic".toList
  have hfirst : ((wrapEvents.map (false, ·)).foldl (step settings)
      (start fun _ => lastVersion)).copies "magic".toList false =
        some (4294967295, "new".toList) := by decide
  have hsecond : ((wrapEvents.map (false, ·)).foldl (step settings)
      (start fun _ => lastVersion)).copies "magic".toList true =
        some (4294967295, "old".toList) := by decide
  exact absurd (hagree false true _ _ _ hfirst hsecond) (by decide)

end Cluster

end Prinbee
