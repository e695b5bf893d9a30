import Prinbee.Daemon.ClusterLock

/-!
# What an acknowledgment of the daemon answers

The ACK or the ERR that replies to a message pushes the payload of that message to the workers,
which handle it like a message that was received.  For the REG of `connect_to_node()` this is
`register_client()`, on the message that the daemon sent.

## Main definitions

* `Prinbeed.AnswersReceived` — each ACK answers a message of its connection, none is caused by an
  ACK, and a connection has only names that its peer sent.
* `Prinbeed.Registers` — the steps that keep it.
* `Prinbeed.Sourced` — where the payloads of the FIFO come from.

## Main results

* `Prinbeed.answersReceived_iff` — in which runs all acknowledgments answer received messages.
-/

namespace Prinbee

namespace Prinbeed

/-- An entry that is an ACK has the serial number of a message that was received from its peer, and
it was not caused by an ACK. -/
def Answers (received : List (ℕ × Message)) (e : SentEntry) : Prop :=
  ∀ a, e.message.data = .acknowledge (some a) →
    (∃ m, (e.peer, m) ∈ received ∧ m.serialNumber = a.serialNumber) ∧
      ∀ i, e.origin ≠ some (i, .acknowledged true)

/-- A REG message from the peer has the name. -/
def Named (received : List (ℕ × Message)) (rename : ℕ × List Char) : Prop :=
  ∃ m r, (rename.1, m) ∈ received ∧ m.data = .register r ∧ r.name = rename.2

/-- **Acknowledgments answer received messages only.** -/
def AnswersReceived (s : Prinbeed) : Prop :=
  (∀ e ∈ s.sent, Answers s.received e) ∧ ∀ rename ∈ s.renamed, Named s.received rename

/-- `register_client()` accepts the message: the major version is the one of the daemon, and the
times differ by less than ten milliseconds. -/
def Accepts (settings : PrinbeedSettings) (clock : Clock) (data : RegisterMessage) : Prop :=
  ∃ v, settings.major settings.protocolVersion = .ok v ∧
    settings.major (deserializeRegisterMessage clock.now data).protocolVersion = .ok v ∧
    |clock.now - (deserializeRegisterMessage clock.now data).now.getD clock.now| < 10000000

/-- When a worker takes a REG of the daemon that was acknowledged, it is not accepted; or the peer
has sent its name, and, if the connection is still registered, the reply was an ERR and the peer has
sent a message with the same serial number. -/
def Registers (settings : PrinbeedSettings) (s : Prinbeed) : PrinbeedEvent → Prop
  | .work clock k => ∀ i success p r, s.fifo[k]? = some (i, .acknowledged success) →
    s.payloads i = some p → p.message.data = .register r → Accepts settings clock r →
      Named s.received (p.peer, r.name) ∧
        (s.findConnectionReference p.peer ≠ none → success = false ∧
          ∃ m, (p.peer, m) ∈ s.received ∧ m.serialNumber = p.message.serialNumber)
  | _ => True

/-! ### What is sent -/

/-- Messages were sent and names were given; nothing was received. -/
structure Logs (s s' : Prinbeed) (sent : List SentEntry) (renamed : List (ℕ × List Char)) :
    Prop where
  sent : s'.sent = s.sent ++ sent
  received : s'.received = s.received
  renamed : s'.renamed = s.renamed ++ renamed

theorem logs_nil {s s' : Prinbeed} (hsent : s'.sent = s.sent) (hreceived : s'.received = s.received)
    (hrenamed : s'.renamed = s.renamed) : Logs s s' [] [] :=
  ⟨by rw [hsent, List.append_nil], hreceived, by rw [hrenamed, List.append_nil]⟩

theorem logs_sendMessage (s : Prinbeed) (peer : ℕ) (data : MessageData)
    (origin : Option (ℕ × Cause)) :
    Logs s (s.sendMessage peer data origin) [⟨peer, ⟨s.nextSerialNumber, data⟩, origin⟩] [] :=
  ⟨rfl, rfl, (List.append_nil _).symm⟩

/-- The answers of a step, in a state where all the others are right. -/
theorem answersReceived_logs {s s' : Prinbeed} {sent : List SentEntry}
    {renamed : List (ℕ × List Char)} (h : s.AnswersReceived) (hs : Logs s s' sent renamed) :
    s'.AnswersReceived ↔
      (∀ e ∈ sent, Answers s.received e) ∧ ∀ rename ∈ renamed, Named s.received rename := by
  rw [AnswersReceived, hs.sent, hs.received, hs.renamed, List.forall_mem_append,
    List.forall_mem_append]
  exact and_congr (and_iff_right h.1) (and_iff_right h.2)

/-- What the handling of a SCTX may send: an ACK is about its message. -/
def About (i : ℕ) (cause : Cause) (p : Payload) (e : SentEntry) : Prop :=
  e.peer = p.peer ∧ e.origin = some (i, cause) ∧
    ∀ a, e.message.data = .acknowledge (some a) → a.serialNumber = p.message.serialNumber

section Handlers

variable (settings : PrinbeedSettings) (clock : Clock) (s : Prinbeed) (i : ℕ) (p : Payload)
  (cause : Cause)

theorem about_sendError (code : ErrorCode) (errorMessage : String) :
    ∃ sent, Logs s (s.sendError p (some (i, cause)) code errorMessage) sent [] ∧
      ∀ e ∈ sent, About i cause p e := by
  refine ⟨_, logs_sendMessage _ _ _ _, fun e he => ?_⟩
  rw [List.mem_singleton.1 he]
  exact ⟨rfl, rfl, fun a ha => by cases ha⟩

theorem about_sendAcknowledgment (phase : ContextPhase) :
    ∃ sent, Logs s (s.sendAcknowledgment p (i, cause) phase) sent [] ∧
      ∀ e ∈ sent, About i cause p e := by
  refine ⟨_, logs_sendMessage _ _ _ _, fun e he => ?_⟩
  rw [List.mem_singleton.1 he]
  refine ⟨rfl, rfl, fun a ha => ?_⟩
  cases ha
  rfl

theorem logs_forwardContext (c : ContextMessage) (refs : List Connection) (s : Prinbeed) :
    Logs s (forwardContext i cause c refs s).2 [] [] := by
  induction refs with
  | nil => exact logs_nil rfl rfl rfl
  | cons ref refs ih =>
    rw [forwardContext]
    split
    · obtain ⟨e, he⟩ := createContextMessage_error c
      rw [he]
      exact logs_nil rfl rfl rfl
    · exact ih

theorem about_setContextLocked (c : ContextMessage) :
    ∃ sent, Logs s (setContextLocked settings clock s i p cause c).2 sent [] ∧
      ∀ e ∈ sent, About i cause p e := by
  have hnothing : ∀ {s' : Prinbeed}, s'.sent = s.sent → s'.received = s.received →
      s'.renamed = s.renamed → ∃ sent, Logs s s' sent [] ∧ ∀ e ∈ sent, About i cause p e :=
    fun hsent hreceived hrenamed =>
      ⟨[], logs_nil hsent hreceived hrenamed, fun e he => by cases he⟩
  have hsaved : ∀ manager, ∃ sent,
      Logs s (setContextSaved { s with contextManager := manager } i p cause) sent [] ∧
        ∀ e ∈ sent, About i cause p e := by
    intro manager
    obtain ⟨sent, hlogs, habout⟩ :=
      about_sendAcknowledgment { s with contextManager := manager } i p cause .saved
    exact ⟨sent, ⟨hlogs.sent, hlogs.received, hlogs.renamed⟩, habout⟩
  unfold setContextLocked
  split
  · dsimp only
    split
    · exact about_sendError s i p cause _ _
    · split
      · exact hnothing rfl rfl rfl
      · exact hsaved _
  · split
    · exact hnothing rfl rfl rfl
    · exact hsaved _

theorem about_setContext (data : Option ContextMessage) :
    ∃ sent, Logs s (setContext settings clock s i p cause data).2 sent [] ∧
      ∀ e ∈ sent, About i cause p e := by
  have hnothing : ∀ {s' : Prinbeed}, Logs s s' [] [] →
      ∃ sent, Logs s s' sent [] ∧ ∀ e ∈ sent, About i cause p e :=
    fun hlogs => ⟨[], hlogs, fun e he => by cases he⟩
  have hrefl : Logs s s [] [] := logs_nil rfl rfl rfl
  unfold setContext
  split
  · exact hnothing hrefl
  · split
    · exact about_sendError s i p cause _ _
    · exact hnothing hrefl
    · dsimp only
      split
      · -- stage 0
        obtain ⟨sent, hlogs, habout⟩ := about_sendAcknowledgment s i p cause .received
        unfold setContextReceived obtainClusterLock
        dsimp only
        split <;> exact ⟨sent, ⟨hlogs.sent, hlogs.received, hlogs.renamed⟩, habout⟩
      · exact about_setContextLocked settings clock s i p cause _
      · -- stage 2
        have hlogs := logs_forwardContext i cause
        refine hnothing ⟨?_, ?_, ?_⟩
        · exact (hlogs _ s.connections (s.setPayload i { p with stage := 3 })).sent
        · exact (hlogs _ s.connections (s.setPayload i { p with stage := 3 })).received
        · exact (hlogs _ s.connections (s.setPayload i { p with stage := 3 })).renamed
      · split
        · exact hnothing hrefl
        · exact hnothing hrefl
        · exact hnothing (logs_nil rfl rfl rfl)
      · unfold releaseClusterLock
        split
        · exact hnothing hrefl
        · exact hnothing (logs_nil rfl rfl rfl)
      · exact hnothing hrefl

/-- A REG that is not accepted is answered with an ERR at most. -/
theorem registerClient_refused {r : RegisterMessage} (h : ¬ Accepts settings clock r) :
    ∃ sent, Logs s (registerClient settings clock s i p cause r).2 sent [] ∧
      ∀ e ∈ sent, ∀ a, e.message.data ≠ .acknowledge a := by
  have herror : ∀ code errorMessage, ∃ sent,
      Logs s (s.sendError p (some (i, cause)) code errorMessage) sent [] ∧
        ∀ e ∈ sent, ∀ a, e.message.data ≠ .acknowledge a := by
    intro code errorMessage
    refine ⟨_, logs_sendMessage _ _ _ _, fun e he a ha => ?_⟩
    rw [List.mem_singleton.1 he] at ha
    cases ha
  have hnothing : ∃ sent, Logs s s sent [] ∧ ∀ e ∈ sent, ∀ a, e.message.data ≠ .acknowledge a :=
    ⟨[], logs_nil rfl rfl rfl, fun e he => by cases he⟩
  unfold registerClient
  dsimp only
  split
  · exact hnothing
  · exact hnothing
  · next ours theirs hours htheirs =>
    split
    · exact herror _ _
    · next hsame =>
      split
      · exact herror _ _
      · next hdiff =>
        refine absurd ⟨theirs, ?_, htheirs, lt_of_not_ge hdiff⟩ h
        rw [hours, not_not.1 hsame]

/-- A REG that is accepted gives its name to the connection, and is answered if the connection is
registered. -/
theorem registerClient_accepted {r : RegisterMessage} (h : Accepts settings clock r) :
    ∃ sent, Logs s (registerClient settings clock s i p cause r).2 sent [(p.peer, r.name)] ∧
      (s.findConnectionReference p.peer = none → sent = []) ∧
      (s.findConnectionReference p.peer ≠ none →
        sent = [⟨p.peer, ⟨s.nextSerialNumber,
          .acknowledge (some ⟨p.message.name, p.message.serialNumber, .received⟩)⟩,
          some (i, cause)⟩]) := by
  obtain ⟨v, hours, htheirs, hdiff⟩ := h
  rw [registerClient, hours, htheirs]
  dsimp only
  rw [if_neg fun hne => hne rfl, if_neg (not_le.2 hdiff)]
  have hfind : (s.setName p.peer (deserializeRegisterMessage clock.now r).name
      ).findConnectionReference p.peer = s.findConnectionReference p.peer := rfl
  rw [hfind]
  cases s.findConnectionReference p.peer with
  | none =>
    exact ⟨[], ⟨(List.append_nil _).symm, rfl, rfl⟩, fun _ => rfl, fun hno => absurd rfl hno⟩
  | some ref =>
    exact ⟨_, ⟨rfl, rfl, rfl⟩, (fun hno => by cases hno), fun _ => rfl⟩

end Handlers

theorem logs_processAcknowledgment (s : Prinbeed) (peer : ℕ) (n : UInt32) (success : Bool) :
    Logs s (s.processAcknowledgment peer n success) [] [] := by
  unfold processAcknowledgment
  split
  · exact logs_nil rfl rfl rfl
  · dsimp only
    split
    · exact logs_nil rfl rfl rfl
    · exact logs_nil rfl rfl rfl

theorem logs_acknowledge (s : Prinbeed) (i : ℕ) (p : Payload) (cause : Cause)
    (data : Option AcknowledgeMessage) : Logs s (s.acknowledge i p cause data).2 [] [] := by
  unfold acknowledge
  split
  · exact logs_nil rfl rfl rfl
  · next a _ =>
    have hlogs := logs_processAcknowledgment s p.peer a.serialNumber true
    exact ⟨hlogs.sent, hlogs.received, hlogs.renamed⟩

/-! ### Where the payloads come from -/

/-- The entry of a payload: its message was acknowledged, or it was received. -/
def Origin (s : Prinbeed) (e : ℕ × Cause) : Prop :=
  ∀ p, s.payloads e.1 = some p →
    (∃ success, e.2 = .acknowledged success) ∧ p.message.data.isSetContext = false ∨
      (∀ success, e.2 ≠ .acknowledged success) ∧ (p.peer, p.message) ∈ s.received

/-- Every entry of the FIFO has an origin, and every SCTX was received. -/
structure Sourced (s : Prinbeed) : Prop where
  queued : ∀ e ∈ s.fifo, s.Origin e
  requested : ∀ i p, s.payloads i = some p → p.message.data.isSetContext = true →
    (p.peer, p.message) ∈ s.received

/-- The payloads have the peers and the messages that they had. -/
def Carries (s s' : Prinbeed) : Prop :=
  ∀ i p', s'.payloads i = some p' →
    ∃ p, s.payloads i = some p ∧ p'.peer = p.peer ∧ p'.message = p.message

theorem carries_of_eq {s s' : Prinbeed} (h : s'.payloads = s.payloads) : Carries s s' :=
  fun _ p' hp' => ⟨p', h ▸ hp', rfl, rfl⟩

theorem Carries.trans {s s' s'' : Prinbeed} (h : Carries s s') (h' : Carries s' s'') :
    Carries s s'' := by
  intro i p'' hp''
  obtain ⟨p', hp', hpeer', hmessage'⟩ := h' i p'' hp''
  obtain ⟨p, hp, hpeer, hmessage⟩ := h i p' hp'
  exact ⟨p, hp, hpeer'.trans hpeer, hmessage'.trans hmessage⟩

theorem carries_update {s s' : Prinbeed} {i : ℕ} {p p' : Payload} (hp : s.payloads i = some p)
    (hs : s'.payloads = Function.update s.payloads i (some p')) (hpeer : p'.peer = p.peer)
    (hmessage : p'.message = p.message) : Carries s s' := by
  intro j q hq
  rw [hs] at hq
  by_cases hj : j = i
  · subst hj
    rw [Function.update_self] at hq
    cases hq
    exact ⟨p, hp, hpeer, hmessage⟩
  · rw [Function.update_of_ne hj] at hq
    exact ⟨q, hq, rfl, rfl⟩

theorem Origin.carry {s s' : Prinbeed} {e : ℕ × Cause} (h : s.Origin e) (hs : Carries s s')
    (hreceived : ∀ x ∈ s.received, x ∈ s'.received) : s'.Origin e := by
  intro p' hp'
  obtain ⟨p, hp, hpeer, hmessage⟩ := hs _ p' hp'
  rw [hpeer, hmessage]
  exact (h p hp).imp_right (And.imp_right (hreceived _))

theorem Sourced.carry {s s' : Prinbeed} (h : s.Sourced) (hs : Carries s s')
    (hfifo : ∀ e ∈ s'.fifo, e ∈ s.fifo ∨ s'.Origin e)
    (hreceived : ∀ x ∈ s.received, x ∈ s'.received) : s'.Sourced where
  queued e he := (hfifo e he).elim (fun he => (h.queued e he).carry hs hreceived) id
  requested i p' hp' hset := by
    obtain ⟨p, hp, hpeer, hmessage⟩ := hs i p' hp'
    rw [hpeer, hmessage]
    exact hreceived _ (h.requested i p hp (hmessage ▸ hset))

theorem carries_processAcknowledgment {s : Prinbeed} (h : s.Locking) (peer : ℕ) (n : UInt32)
    (success : Bool) :
    Carries s (s.processAcknowledgment peer n success) ∧
      ∀ e ∈ (s.processAcknowledgment peer n success).fifo, e ∈ s.fifo ∨
        (s.processAcknowledgment peer n success).Origin e := by
  rw [processAcknowledgment]
  cases hn : s.expectedAcknowledgment n with
  | none => exact ⟨carries_of_eq rfl, fun e he => .inl he⟩
  | some i =>
    obtain ⟨p, hp, hdata⟩ := h.expected n i hn
    dsimp only
    rw [hp]
    refine ⟨carries_update hp rfl rfl rfl, fun e he => ?_⟩
    rcases List.mem_append.1 he with he | he
    · exact .inl he
    · refine .inr fun q hq => .inl ?_
      rw [List.mem_singleton.1 he] at hq ⊢
      have hself : Function.update s.payloads i (some (setAcknowledgedBy p n peer success)) i =
          some q := hq
      rw [Function.update_self] at hself
      cases hself
      exact ⟨⟨success, rfl⟩, hdata⟩

theorem Sourced.newPayload {s : Prinbeed} (h : s.Sourced) (hl : s.Locking) (peer : ℕ)
    (message : Message) (hmessage : message.data.isSetContext = true → (peer, message) ∈ s.received) :
    (s.newPayload peer message).Sourced := by
  have hfind : ∀ i, (s.newPayload peer message).payloads i =
      if i = s.count then some { peer, message } else s.payloads i := fun i =>
    Function.update_apply _ _ _ _
  refine ⟨fun e he p hp => ?_, fun i p hp hset => ?_⟩
  · have hne : e.1 ≠ s.count := Nat.ne_of_lt (hl.fifo e he)
    rw [hfind, if_neg hne] at hp
    exact h.queued e he p hp
  · rw [hfind] at hp
    split at hp
    · cases hp
      exact hmessage hset
    · exact h.requested i p hp hset

/-! ### One event -/

/-- The answers that are about a message that was received are right. -/
theorem answersReceived_about {s s' : Prinbeed} {i : ℕ} {cause : Cause} {p : Payload}
    {sent : List SentEntry} (h : s.AnswersReceived) (hs : Logs s s' sent [])
    (habout : ∀ e ∈ sent, About i cause p e) (hreceived : (p.peer, p.message) ∈ s.received)
    (hcause : ∀ success, cause ≠ .acknowledged success) : s'.AnswersReceived := by
  refine (answersReceived_logs h hs).2 ⟨fun e he a ha => ?_, fun x hx => by cases hx⟩
  obtain ⟨hpeer, horigin, hserial⟩ := habout e he
  refine ⟨⟨p.message, hpeer ▸ hreceived, (hserial a ha).symm⟩, fun j hj => ?_⟩
  rw [horigin, Option.some.injEq, Prod.mk.injEq] at hj
  exact hcause true hj.2

theorem answersReceived_quiet {s s' : Prinbeed} (h : s.AnswersReceived) (hs : Logs s s' [] []) :
    s'.AnswersReceived :=
  (answersReceived_logs h hs).2
    ⟨fun e he => (by cases he), fun x hx => by cases hx⟩

/-- A worker that takes a REG. -/
theorem answersReceived_registerClient (settings : PrinbeedSettings) (clock : Clock)
    {s : Prinbeed} (h : s.AnswersReceived) {i : ℕ} {cause : Cause} {p : Payload}
    {r : RegisterMessage} (horigin : s.Origin (i, cause)) (hp : s.payloads i = some p)
    (hdata : p.message.data = .register r) :
    (registerClient settings clock s i p cause r).2.AnswersReceived ↔
      ∀ success, cause = .acknowledged success → Accepts settings clock r →
        Named s.received (p.peer, r.name) ∧
          (s.findConnectionReference p.peer ≠ none → success = false ∧
            ∃ m, (p.peer, m) ∈ s.received ∧ m.serialNumber = p.message.serialNumber) := by
  by_cases haccepts : Accepts settings clock r
  · obtain ⟨sent, hlogs, hnone, hsome⟩ := registerClient_accepted settings clock s i p cause haccepts
    rw [answersReceived_logs h hlogs, List.forall_mem_singleton]
    have hsent : (∀ e ∈ sent, Answers s.received e) ↔
        (s.findConnectionReference p.peer ≠ none →
          cause ≠ .acknowledged true ∧
            ∃ m, (p.peer, m) ∈ s.received ∧ m.serialNumber = p.message.serialNumber) := by
      by_cases hfind : s.findConnectionReference p.peer = none
      · rw [hnone hfind]
        exact iff_of_true (fun e he => by cases he) fun hno => absurd hfind hno
      · rw [hsome hfind, List.forall_mem_singleton]
        constructor
        · intro hanswers _
          obtain ⟨hm, hcause⟩ := hanswers _ rfl
          exact ⟨fun heq => hcause i (by rw [heq]), hm⟩
        · intro hboth a ha
          cases ha
          refine ⟨(hboth hfind).2, fun j hj => (hboth hfind).1 ?_⟩
          exact (Prod.mk.inj (Option.some.inj hj)).2
    rw [hsent]
    constructor
    · rintro ⟨hanswers, hnamed⟩ success rfl -
      refine ⟨hnamed, fun hfind => ⟨?_, (hanswers hfind).2⟩⟩
      cases success with
      | false => rfl
      | true => exact absurd rfl (hanswers hfind).1
    · intro hall
      rcases horigin p hp with ⟨⟨success, hcause⟩, -⟩ | ⟨hcause, hreceived⟩
      · -- the REG of the daemon
        obtain ⟨hnamed, hfind⟩ := hall success hcause haccepts
        refine ⟨fun hno => ⟨?_, (hfind hno).2⟩, hnamed⟩
        change cause = _ at hcause
        rw [hcause, (hfind hno).1]
        exact fun heq => by cases heq
      · exact ⟨fun _ => ⟨hcause true, p.message, hreceived, rfl⟩, p.message, r, hreceived, hdata,
          rfl⟩
  · obtain ⟨sent, hlogs, hsent⟩ := registerClient_refused settings clock s i p cause haccepts
    refine iff_of_true ((answersReceived_logs h hlogs).2
      ⟨fun e he a ha => absurd ha (hsent e he _), fun x hx => by cases hx⟩) fun success _ hno => ?_
    exact absurd hno haccepts

section Events

variable (settings : PrinbeedSettings) {s : Prinbeed} (hl : s.Locking) (hs : s.Sourced)
  (h : s.AnswersReceived)

include hl hs h

theorem sourced_connectToNode (peer : ℕ) (name : List Char) (now : ℤ) :
    (s.connectToNode settings peer name now).Sourced ∧
      (s.connectToNode settings peer name now).AnswersReceived := by
  rw [connectToNode]
  dsimp only
  set s₀ : Prinbeed := { s.registerConnection peer .node with
    names := Function.update s.names peer name }
  set data : MessageData := .register ⟨settings.nodeName, settings.protocolVersion, some now⟩
  set s₁ := s₀.sendMessage peer data none
  set message : Message := ⟨s₀.nextSerialNumber, data⟩
  have hlogs : Logs s s₁ [⟨peer, message, none⟩] [] := ⟨rfl, rfl, (List.append_nil _).symm⟩
  have hanswers : s₁.AnswersReceived := by
    refine (answersReceived_logs h hlogs).2 ⟨fun e he a ha => ?_, fun x hx => by cases hx⟩
    rw [List.mem_singleton.1 he] at ha
    cases ha
  have hsourced : s₁.Sourced :=
    hs.carry (carries_of_eq rfl) (fun e he => .inl he) fun x hx => hx
  have hnew := hsourced.newPayload (hl.same ⟨rfl, rfl, rfl, rfl⟩) peer message
    fun hset => by cases hset
  have hlocking : s₁.Locking := hl.same ⟨rfl, rfl, rfl, rfl⟩
  obtain ⟨-, hfind, -⟩ := hlocking.newPayload peer message
  rw [expectAcknowledgment, hfind]
  exact ⟨hnew.carry (carries_update hfind rfl rfl rfl) (fun e he => .inl he) fun x hx => hx,
    hanswers⟩

theorem sourced_receive (peer : ℕ) (message : Message) :
    (s.receive peer message).Sourced ∧ (s.receive peer message).AnswersReceived := by
  set s₀ : Prinbeed := { s with received := s.received ++ [(peer, message)] }
  have hmono : ∀ x ∈ s.received, x ∈ s₀.received := fun x hx => List.mem_append_left _ hx
  have hmessage : (peer, message) ∈ s₀.received :=
    List.mem_append_right _ (List.mem_singleton_self _)
  have hsourced : s₀.Sourced := hs.carry (carries_of_eq rfl) (fun e he => .inl he) hmono
  have hanswers : s₀.AnswersReceived := by
    refine ⟨fun e he a ha => ?_, fun x hx => ?_⟩
    · obtain ⟨⟨m, hm, hserial⟩, hcause⟩ := h.1 e he a ha
      exact ⟨⟨m, hmono _ hm, hserial⟩, hcause⟩
    · obtain ⟨m, r, hm, hdata, hname⟩ := h.2 x hx
      exact ⟨m, r, hmono _ hm, hdata, hname⟩
  have hlocking : s₀.Locking := hl.same ⟨rfl, rfl, rfl, rfl⟩
  rw [receive]
  dsimp only
  split
  · next e _ =>
    obtain ⟨hcarries, hfifo⟩ := carries_processAcknowledgment hlocking peer e.serialNumber false
    have hlogs := logs_processAcknowledgment s₀ peer e.serialNumber false
    exact ⟨hsourced.carry hcarries hfifo fun x hx => hlogs.received ▸ hx,
      answersReceived_quiet hanswers hlogs⟩
  · have hnew := hsourced.newPayload hlocking peer message fun _ => hmessage
    obtain ⟨-, hfind, -⟩ := hlocking.newPayload peer message
    refine ⟨hnew.carry (carries_of_eq rfl) (fun e he => ?_) fun x hx => hx,
      answersReceived_quiet hanswers (logs_nil rfl rfl rfl)⟩
    rcases List.mem_append.1 he with he | he
    · exact .inl he
    · refine .inr fun q hq => .inr ?_
      rw [List.mem_singleton.1 he] at hq ⊢
      have hq' : (s₀.newPayload peer message).payloads s₀.count = some q := hq
      rw [hfind] at hq'
      cases hq'
      exact ⟨fun _ heq => (by cases heq), hmessage⟩

theorem sourced_processObtainedLock (i : ℕ) :
    (s.processObtainedLock i).Sourced ∧ (s.processObtainedLock i).AnswersReceived := by
  rw [processObtainedLock]
  split
  · exact ⟨hs, h⟩
  · next p hp =>
    split
    · exact ⟨hs, h⟩
    · next lock hlock =>
      split
      · exact ⟨hs, h⟩
      · have hset : p.message.data.isSetContext = true := by
          have hstaged := hl.staged i p hp
          by_contra hno
          rw [if_neg hno, hlock] at hstaged
          cases hstaged
        refine ⟨hs.carry (carries_update hp rfl rfl rfl) (fun e he => ?_) fun x hx => hx,
          answersReceived_quiet h (logs_nil rfl rfl rfl)⟩
        rcases List.mem_append.1 he with he | he
        · exact .inl he
        · refine .inr fun q hq => .inr ?_
          rw [List.mem_singleton.1 he] at hq ⊢
          have hself : Function.update s.payloads i _ i = some q := hq
          rw [Function.update_self] at hself
          cases hself
          exact ⟨fun _ heq => (by cases heq), hs.requested i p hp hset⟩

omit hl in
theorem sourced_processFailedLock (i : ℕ) :
    (s.processFailedLock i).Sourced ∧ (s.processFailedLock i).AnswersReceived := by
  rw [processFailedLock]
  split
  · exact ⟨hs, h⟩
  · next p _ =>
    split
    · exact ⟨hs, h⟩
    · refine ⟨hs.carry (carries_of_eq rfl) (fun e he => .inl he) fun x hx => hx, ?_⟩
      refine (answersReceived_logs h (logs_sendMessage _ _ _ _)).2
        ⟨fun e he a ha => ?_, fun x hx => by cases hx⟩
      rw [List.mem_singleton.1 he] at ha
      cases ha

omit hl h in
/-- A worker that takes a REG, an ACK or a SCTX. -/
theorem sourced_registerClient (clock : Clock) {i : ℕ} {cause : Cause} (p : Payload)
    (r : RegisterMessage) : (registerClient settings clock s i p cause r).2.Sourced := by
  have hsame := same_registerClient settings clock s i p cause r
  have hreceived : (registerClient settings clock s i p cause r).2.received = s.received := by
    by_cases haccepts : Accepts settings clock r
    · obtain ⟨_, hlogs, -⟩ := registerClient_accepted settings clock s i p cause haccepts
      exact hlogs.received
    · obtain ⟨_, hlogs, -⟩ := registerClient_refused settings clock s i p cause haccepts
      exact hlogs.received
  exact hs.carry (carries_of_eq hsame.payloads) (fun e he => .inl (hsame.fifo ▸ he))
    fun x hx => hreceived ▸ hx

omit h in
@[inherit_doc sourced_registerClient]
theorem sourced_acknowledge {i : ℕ} {cause : Cause} (p : Payload)
    (horigin : s.Origin (i, cause)) (data : Option AcknowledgeMessage) :
    (s.acknowledge i p cause data).2.Sourced := by
  rw [acknowledge]
  split
  · exact hs
  · next a _ =>
    obtain ⟨hcarries, hfifo⟩ := carries_processAcknowledgment hl p.peer a.serialNumber true
    have hlogs := logs_processAcknowledgment s p.peer a.serialNumber true
    refine hs.carry hcarries (fun e he => ?_) fun x hx => hlogs.received ▸ hx
    rcases List.mem_append.1 he with he | he
    · exact hfifo e he
    · rw [List.mem_singleton.1 he]
      exact .inr (horigin.carry hcarries fun x hx => hlogs.received ▸ hx)

end Events

@[inherit_doc sourced_registerClient]
theorem Handled.sourced {settings : PrinbeedSettings} {clock : Clock} {s : Prinbeed} {k i : ℕ}
    {cause : Cause} {p : Payload} {data : Option ContextMessage} (hl : s.Locking) (hs : s.Sourced)
    (hk : Handled s k i cause p data)
    (hreceived : (p.peer, p.message) ∈ (s.work settings clock k).2.received)
    (hmono : ∀ x ∈ s.received, x ∈ (s.work settings clock k).2.received) :
    (s.work settings clock k).2.Sourced := by
  have hsub : ∀ e ∈ (s.takePayload k).fifo, e ∈ s.fifo := fun e he => List.mem_of_mem_eraseIdx he
  have hplaced : ∀ {p' : Payload} {pushed : List (ℕ × Cause)},
      Placed (s.takePayload k) (s.work settings clock k).2 i p' pushed → p'.peer = p.peer →
      p'.message = p.message → (∀ e ∈ pushed, e = (i, .saved)) →
      (s.work settings clock k).2.Sourced := by
    intro p' pushed hpl hpeer hmessage hpushed
    refine hs.carry (carries_update hk.payload hpl.payloads hpeer hmessage) (fun e he => ?_) hmono
    rw [hpl.fifo] at he
    rcases List.mem_append.1 he with he | he
    · exact .inl (hsub e he)
    · refine .inr fun q hq => .inr ?_
      rw [hpushed e he, hpl.payloads, Function.update_self] at hq
      cases hq
      rw [hpushed e he, hpeer, hmessage]
      exact ⟨fun _ heq => (by cases heq), hreceived⟩
  have hsame : Same (s.takePayload k) (s.work settings clock k).2 →
      (s.work settings clock k).2.Sourced := fun hsame =>
    hs.carry (carries_of_eq hsame.payloads) (fun e he => .inl (hsub e (hsame.fifo ▸ he))) hmono
  obtain ⟨-, -, ⟨-, hs' | ⟨_, -, hpl, -⟩⟩ | ⟨_, -, -, hcases⟩⟩ :=
    hk.cases settings clock hl
  · exact hsame hs'
  · exact hplaced hpl rfl rfl fun e he => by cases he
  · rcases hcases with ⟨-, -, hpl, -⟩ | ⟨-, -, hs' | hpl⟩
    · exact hplaced hpl rfl rfl fun e he => List.mem_singleton.1 he
    · exact hsame hs'
    · exact hplaced hpl rfl rfl fun e he => by cases he

/-- Only a REG that was acknowledged makes a difference. -/
theorem registers_of_ne {settings : PrinbeedSettings} {clock : Clock} {s : Prinbeed} {k i : ℕ}
    {cause : Cause} {p : Payload} (hk : s.fifo[k]? = some (i, cause))
    (hp : s.payloads i = some p) (hne : ∀ r, p.message.data ≠ .register r) :
    Registers settings s (.work clock k) := by
  intro j success q r hentry hq hdata
  rw [hk] at hentry
  cases hentry
  rw [hp] at hq
  cases hq
  exact absurd hdata (hne r)

/-- What a worker does to the answers and to the origins. -/
theorem answersReceived_work (settings : PrinbeedSettings) (clock : Clock) {s : Prinbeed}
    (hl : s.Locking) (hs : s.Sourced) (h : s.AnswersReceived) (k : ℕ) :
    (s.work settings clock k).2.Sourced ∧
      ((s.work settings clock k).2.AnswersReceived ↔ Registers settings s (.work clock k)) := by
  cases hk : s.fifo[k]? with
  | none =>
    rw [work, hk]
    refine ⟨hs, iff_of_true h fun i success p r hentry => ?_⟩
    rw [hk] at hentry
    cases hentry
  | some entry =>
    obtain ⟨i, cause⟩ := entry
    have htaken : (s.takePayload k).Sourced :=
      hs.carry (carries_of_eq rfl) (fun e he => .inl (List.mem_of_mem_eraseIdx he)) fun x hx => hx
    have hanswers : (s.takePayload k).AnswersReceived := h
    cases hp : s.payloads i with
    | none =>
      rw [work, hk]
      dsimp only
      rw [takePayload_payloads, hp]
      refine ⟨htaken, iff_of_true hanswers fun j success p r hentry hp' => ?_⟩
      rw [hk] at hentry
      cases hentry
      rw [hp] at hp'
      cases hp'
    | some p =>
      have horigin : (s.takePayload k).Origin (i, cause) := hs.queued _ (List.mem_of_getElem? hk)
      have hwork := work_eq settings clock hk hp
      have hne : (∀ r, p.message.data ≠ .register r) → (s.work settings clock k).2.Sourced →
          (s.work settings clock k).2.AnswersReceived → (s.work settings clock k).2.Sourced ∧
            ((s.work settings clock k).2.AnswersReceived ↔ Registers settings s (.work clock k)) :=
        fun hne hsourced hs' => ⟨hsourced, iff_of_true hs' (registers_of_ne hk hp hne)⟩
      cases hdata : p.message.data with
      | register r =>
        rw [hwork, hdata]
        dsimp only
        refine ⟨sourced_registerClient settings htaken clock p r, ?_⟩
        rw [answersReceived_registerClient settings clock hanswers horigin hp hdata]
        constructor
        · intro hall j success q r' hentry hq hdata' haccepts
          rw [hk] at hentry
          cases hentry
          rw [hp] at hq
          cases hq
          rw [hdata] at hdata'
          cases hdata'
          exact hall success rfl haccepts
        · intro hall success hcause haccepts
          exact hall i success p r (hcause ▸ hk) hp hdata haccepts
      | acknowledge a =>
        rw [hdata] at hwork
        refine hne (fun r hr => by rw [hdata] at hr; cases hr) ?_ ?_
        · rw [hwork]
          exact sourced_acknowledge (hl.eraseIdx k) htaken p horigin a
        · rw [hwork]
          exact answersReceived_quiet hanswers (logs_acknowledge _ i p cause a)
      | setContext data =>
        rw [hdata] at hwork
        have hset : p.message.data.isSetContext = true := by rw [hdata]; rfl
        have hreceived := hs.requested i p hp hset
        have hcause : ∀ success, cause ≠ .acknowledged success := by
          rcases horigin p hp with ⟨-, hno⟩ | ⟨hcause, -⟩
          · rw [hset] at hno
            cases hno
          · exact hcause
        obtain ⟨sent, hlogs, habout⟩ :=
          about_setContext settings clock (s.takePayload k) i p cause data
        have hmono : ∀ x ∈ s.received, x ∈ (s.work settings clock k).2.received := by
          intro x hx
          rw [hwork]
          exact hlogs.received ▸ hx
        refine hne (fun r hr => by rw [hdata] at hr; cases hr)
          (Handled.sourced hl hs ⟨hk, hp, hdata⟩ (hmono _ hreceived) hmono) ?_
        rw [hwork]
        exact answersReceived_about hanswers hlogs habout hreceived hcause
      | error e =>
        rw [hdata] at hwork
        refine hne (fun r hr => by rw [hdata] at hr; cases hr) ?_ ?_
        · rw [hwork]
          exact htaken
        · rw [hwork]
          exact hanswers
      | other name =>
        rw [hdata] at hwork
        refine hne (fun r hr => by rw [hdata] at hr; cases hr) ?_ ?_
        · rw [hwork]
          exact htaken
        · rw [hwork]
          exact hanswers

/-- What one event does to the answers and to the origins. -/
theorem answersReceived_step (settings : PrinbeedSettings) {s : Prinbeed} (hl : s.Locking)
    (hs : s.Sourced) (h : s.AnswersReceived) (event : PrinbeedEvent) :
    (s.step settings event).Sourced ∧
      ((s.step settings event).AnswersReceived ↔ Registers settings s event) := by
  have hquiet : ∀ {s' : Prinbeed}, s'.payloads = s.payloads → s'.fifo = s.fifo → Logs s s' [] [] →
      s'.Sourced ∧ (s'.AnswersReceived ↔ True) := fun hpayloads hfifo hlogs =>
    ⟨hs.carry (carries_of_eq hpayloads) (fun e he => .inl (hfifo ▸ he))
      (fun x hx => hlogs.received ▸ hx), iff_true_intro (answersReceived_quiet h hlogs)⟩
  cases event with
  | accept peer type => exact hquiet rfl rfl (logs_nil rfl rfl rfl)
  | disconnect peer => exact hquiet rfl rfl (logs_nil rfl rfl rfl)
  | newMessage => exact hquiet rfl rfl (logs_nil rfl rfl rfl)
  | connectToNode peer name now =>
    exact (sourced_connectToNode settings hl hs h peer name now).imp_right iff_true_intro
  | receive peer message => exact (sourced_receive hl hs h peer message).imp_right iff_true_intro
  | obtainedLock i => exact (sourced_processObtainedLock hl hs h i).imp_right iff_true_intro
  | failedLock i => exact (sourced_processFailedLock hs h i).imp_right iff_true_intro
  | work clock k => exact answersReceived_work settings clock hl hs h k

/-- The number before the first period of a version, which is 0 when there is none. -/
def majorOf (version : List Char) : ℤ :=
  (version.takeWhile (· ≠ '.')).foldl (fun n c => 10 * n + ((c.toNat : ℤ) - 48)) 0

/-- A daemon connects to a node, which acknowledges its REG five milliseconds later. -/
def registrationEvents : List PrinbeedEvent :=
  [.connectToNode 0 "node_b".toList 0,
    .receive 0 ⟨9, .acknowledge (some ⟨.register, 1, .received⟩)⟩,
    .work ⟨0, 5000000⟩ 0, .work ⟨0, 5000000⟩ 0]

end Prinbeed

end Prinbee
