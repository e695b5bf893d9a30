import Prinbee.Network.Announcements

/-!
# The list of contexts, from the daemons to the clients

A client that is registered sends a LCTX message to its proxy, which forwards it to the first of
its daemons.  The daemon replies with the list of its contexts.  The proxy saves this list, and
sends it to all its clients when it is not the one that it has already.

Both the connection of a client to its proxy and those of the proxy to its daemons are
`binary_client` objects; a `Link` is one of them with the messages in flight on it.

## Main definitions

* `Link` — a `binary_client`, with what was sent and not received yet.
* `ProxyNetwork` — a proxy, its daemons and its clients.
* `ProxyNetwork.step` — the events: announcements, connections, and one message at a time.
* `ProxyNetwork.Propagated` — when no message is in flight, the clients that sent a request hold the
  list of the proxy.
* `ProxyNetwork.Safe` — the events that leave no client without an answer.

## Main results

* `ProxyNetwork.propagated_of_safe` — in the runs of safe events it is so in every state.
-/

namespace Prinbee

/-- The requests that are modelled: a REG message, and a LCTX message without a list. -/
inductive Request
  | register (serialNumber : UInt32)
  | listContexts
  deriving DecidableEq, Repr

/-- The replies: an ACK or an ERR with the serial number of the REG message, and a LCTX message with
its list. -/
inductive Reply (ContextList : Type)
  | acknowledge (serialNumber : UInt32)
  | error (serialNumber : UInt32)
  | listContexts (list : ContextList)
  deriving DecidableEq, Repr

/-- A `binary_client` and the messages in flight between it and the other side. -/
structure Link (ContextList : Type) where
  connected : Bool := false
  expectedAcknowledgment : List UInt32 := []
  requests : List Request := []
  replies : List (Reply ContextList) := []
  deriving DecidableEq, Repr

namespace Link

variable {ContextList : Type} (l : Link ContextList)

/-- `binary_client::send_message()` -/
def send (request : Request) : Link ContextList :=
  if l.connected then { l with requests := l.requests ++ [request] } else l

/-- The other side sends a message. -/
def reply (message : Reply ContextList) : Link ContextList :=
  if l.connected then { l with replies := l.replies ++ [message] } else l

/-- The timer opens the socket, and `process_connected()` sends the REG message. -/
def connect (serialNumber : UInt32) : Link ContextList :=
  if l.connected then l
  else
    { l with
      connected := true
      expectedAcknowledgment := serialNumber :: l.expectedAcknowledgment }.send
      (.register serialNumber)

/-- The socket is lost, with all that was in flight. -/
def disconnect : Link ContextList :=
  { l with connected := false, requests := [], replies := [] }

end Link

/-- A client: its connection, `f_context_list` when it is available, and whether it sent a LCTX
message at a time when the proxy had a list. -/
structure ListClient (ContextList : Type) where
  link : Link ContextList := {}
  contextList : Option ContextList := none
  requested : Bool := false

/-- A proxy with its daemons, by name, and its clients.  `f_client_connections` has the clients that
are connected; `f_context_list` is there when it is available. -/
structure ProxyNetwork (Address ContextList : Type) where
  daemonConnections : DaemonConnections Address := {}
  daemon : String → Link ContextList := fun _ => {}
  daemonReady : Bool := false
  contextList : Option ContextList := none
  client : ℕ → ListClient ContextList := fun _ => {}

/-- What happens: a daemon is announced to the proxy, its connection opens or is lost, it answers
one of the requests that were sent to it, and the proxy receives its first reply; the same for a
client, whose first request is received by the proxy, and which receives the first reply.  The
listener of the proxy is left out: a client may connect at any time. -/
inductive NetworkEvent (Address ContextList : Type)
  | daemonAnnounced (a : Address) (name : String)
  | daemonConnected (name : String) (serialNumber : UInt32)
  | daemonDisconnected (name : String)
  | daemonAnswers (name : String) (k : ℕ) (success : Bool) (list : ContextList)
  | daemonReplies (name : String)
  | clientConnected (i : ℕ) (serialNumber : UInt32)
  | clientDisconnected (i : ℕ)
  | clientRequests (i : ℕ) (success : Bool)
  | clientReceives (i : ℕ)

/-- The reply to a request: a REG message is refused when its version or its date is not the right
one. -/
def Request.reply {ContextList : Type} (request : Request) (success : Bool) (list : ContextList) :
    Reply ContextList :=
  match request with
  | .register serialNumber => if success then .acknowledge serialNumber else .error serialNumber
  | .listContexts => .listContexts list

/-- `prinbeed` answers the request `k`, in any order since it has several workers. -/
def Link.answer {ContextList : Type} (l : Link ContextList) (k : ℕ) (success : Bool)
    (list : ContextList) : Link ContextList :=
  match l.requests[k]? with
  | none => l
  | some request =>
    { l with
      requests := l.requests.eraseIdx k
      replies := l.replies ++ [request.reply success list] }

namespace ListClient

variable {ContextList : Type} (c : ListClient ContextList)

/-- `proxy_connection::get_context_list()`, while the proxy has a list or not. -/
def getContextList (available : Bool) : ListClient ContextList :=
  match c.contextList with
  | some _ => c
  | none =>
    { c with
      link := c.link.send .listContexts
      requested := c.requested || (c.link.connected && available) }

/-- `proxy_connection::save_context_list()` -/
def saveContextList (list : ContextList) : ListClient ContextList :=
  { c with contextList := some list }

/-- `proxy_connection::msg_process_reply()`: the table keeps the REG messages. -/
def msgProcessReply (available : Bool) (message : Reply ContextList) : ListClient ContextList :=
  match message with
  | .acknowledge serialNumber =>
    if serialNumber ∈ c.link.expectedAcknowledgment then c.getContextList available else c
  | .error _ => c
  | .listContexts list => c.saveContextList list

/-- The first reply is received. -/
def receive (available : Bool) : ListClient ContextList :=
  match c.link.replies with
  | [] => c
  | message :: rest =>
    { c with link := { c.link with replies := rest } }.msgProcessReply available message

end ListClient

namespace ProxyNetwork

variable {Address ContextList : Type} [DecidableEq ContextList]
  (s : ProxyNetwork Address ContextList)

def updateDaemon (name : String) (f : Link ContextList → Link ContextList) :
    ProxyNetwork Address ContextList :=
  { s with daemon := Function.update s.daemon name (f (s.daemon name)) }

def updateClient (i : ℕ) (f : ListClient ContextList → ListClient ContextList) :
    ProxyNetwork Address ContextList :=
  { s with client := Function.update s.client i (f (s.client i)) }

/-- The REG message of a daemon connection is acknowledged: the first time, the list is asked
for. -/
def msgProcessReply (name : String) (success : Bool) : ProxyNetwork Address ContextList :=
  if success then
    if s.daemonReady then s
    else { s with daemonReady := true }.updateDaemon name (·.send .listContexts)
  else s

/-- `daemon::process_acknowledgment()`, which erases the entry. -/
def processAcknowledgment (name : String) (serialNumber : UInt32) (success : Bool) :
    ProxyNetwork Address ContextList :=
  if serialNumber ∈ (s.daemon name).expectedAcknowledgment then
    (s.updateDaemon name fun l =>
      { l with expectedAcknowledgment := l.expectedAcknowledgment.erase serialNumber })
      |>.msgProcessReply name success
  else s

/-- `send_message_to_all_clients()` -/
def sendMessageToAllClients (message : Reply ContextList) : ProxyNetwork Address ContextList :=
  { s with client := fun i => { s.client i with link := (s.client i).link.reply message } }

def saveContextList (list : ContextList) : ProxyNetwork Address ContextList :=
  if s.contextList = some list then s
  else { s with contextList := some list }.sendMessageToAllClients (.listContexts list)

/-- The first reply of a daemon is received. -/
def receiveReply (name : String) : ProxyNetwork Address ContextList :=
  match (s.daemon name).replies with
  | [] => s
  | message :: rest =>
    let s' := s.updateDaemon name fun l => { l with replies := rest }
    match message with
    | .acknowledge serialNumber => s'.processAcknowledgment name serialNumber true
    | .error serialNumber => s'.processAcknowledgment name serialNumber false
    | .listContexts list => s'.saveContextList list

/-- The first daemon of the map. -/
def firstDaemon : Option String := s.daemonConnections.daemonConnections.head?.map Prod.fst

def msgForward (request : Request) : ProxyNetwork Address ContextList :=
  match s.firstDaemon with
  | none => s
  | some name => s.updateDaemon name (·.send request)

/-- The first request of a client is received; a REG message is refused when its version or its date
is not the right one. -/
def receiveRequest (i : ℕ) (success : Bool) : ProxyNetwork Address ContextList :=
  match (s.client i).link.requests with
  | [] => s
  | request :: rest =>
    let s' := s.updateClient i fun c => { c with link := { c.link with requests := rest } }
    match request with
    | .register serialNumber =>
      s'.updateClient i fun c =>
        { c with
          link := c.link.reply
            (if success then .acknowledge serialNumber else .error serialNumber) }
    | .listContexts => s'.msgForward .listContexts

def step (s : ProxyNetwork Address ContextList) (event : NetworkEvent Address ContextList) :
    ProxyNetwork Address ContextList :=
  match event with
  | .daemonAnnounced a name =>
    { s with daemonConnections := s.daemonConnections.connectToDaemon a name }
  | .daemonConnected name serialNumber =>
    if s.daemonConnections.daemonConnections.any fun d => d.1 = name then
      s.updateDaemon name (·.connect serialNumber)
    else s
  | .daemonDisconnected name => s.updateDaemon name Link.disconnect
  | .daemonAnswers name k success list => s.updateDaemon name (·.answer k success list)
  | .daemonReplies name => s.receiveReply name
  | .clientConnected i serialNumber =>
    s.updateClient i fun c => { c with link := c.link.connect serialNumber }
  | .clientDisconnected i => s.updateClient i fun c => { c with link := c.link.disconnect }
  | .clientRequests i success => s.receiveRequest i success
  | .clientReceives i => s.updateClient i (·.receive s.contextList.isSome)

/-! ### What the clients hold -/

/-- No message is in flight. -/
def Quiescent : Prop :=
  (∀ name, (s.daemon name).requests = [] ∧ (s.daemon name).replies = []) ∧
    ∀ i, (s.client i).link.requests = [] ∧ (s.client i).link.replies = []

/-- **When no message is in flight, each connected client that sent a request, after the proxy had
its first list, holds the list that the proxy saved last.** -/
def Propagated : Prop :=
  s.Quiescent → ∀ i, (s.client i).link.connected = true → (s.client i).requested = true →
    ∃ list, s.contextList = some list ∧ (s.client i).contextList = some list

/-- What a client holds after a reply. -/
def hold (held : Option ContextList) : Reply ContextList → Option ContextList
  | .listContexts list => some list
  | _ => held

/-- The list that a client holds once all its replies are received. -/
def lastList (c : ListClient ContextList) : Option ContextList :=
  c.link.replies.foldl hold c.contextList

/-- The client has the list of the proxy, or it was sent to it. -/
def Served (i : ℕ) : Prop :=
  ∃ list, s.contextList = some list ∧ lastList (s.client i) = some list

/-- A connected client that sent a request has not the list of the proxy, and none is sent to it. -/
def Waits (i : ℕ) : Prop :=
  (s.client i).link.connected = true ∧ (s.client i).requested = true ∧ ¬ s.Served i

/-- A request for the list, or a list, is in flight between the proxy and a daemon. -/
def Busy (l : Link ContextList) : Prop :=
  .listContexts ∈ l.requests ∨ ∃ list, .listContexts list ∈ l.replies

/-- A list will come, or a request for it is on its way. -/
def Upstream : Prop :=
  (∃ name, Busy (s.daemon name)) ∨ ∃ i, .listContexts ∈ (s.client i).link.requests

/-- While a client waits, nothing takes away the last request or list that is on its way: the
connection of a daemon or of another client is not lost, the list that a daemon sends is not the one
that the proxy has, and a request finds the first daemon connected.  A client that asked once and
connects again has the list of the proxy, or one is on its way. -/
def Safe (event : NetworkEvent Address ContextList) : Prop :=
  match event with
  | .daemonDisconnected name => ∀ i, s.Waits i → (s.updateDaemon name Link.disconnect).Upstream
  | .daemonReplies name => ∀ list rest, (s.daemon name).replies = .listContexts list :: rest →
      s.contextList = some list → ∀ i, s.Waits i →
        (s.updateDaemon name fun l => { l with replies := rest }).Upstream
  | .clientConnected i _ => (s.client i).requested = true → s.Served i ∨ s.Upstream
  | .clientDisconnected i => ∀ j, j ≠ i → s.Waits j →
      (s.updateClient i fun c => { c with link := c.link.disconnect }).Upstream
  | .clientRequests i _ => ∀ rest, (s.client i).link.requests = .listContexts :: rest →
      (∀ name, s.firstDaemon = some name → (s.daemon name).connected = false) →
        ∀ j, s.Waits j →
          (s.updateClient i fun c => { c with link := { c.link with requests := rest } }).Upstream
  | _ => True

end ProxyNetwork

/-! ### Messages in flight -/

namespace Link

variable {ContextList : Type} {l : Link ContextList}

@[simp] theorem requests_reply (message : Reply ContextList) :
    (l.reply message).requests = l.requests := by
  unfold reply
  split <;> rfl

@[simp] theorem connected_reply (message : Reply ContextList) :
    (l.reply message).connected = l.connected := by
  unfold reply
  split <;> rfl

@[simp] theorem replies_send (request : Request) : (l.send request).replies = l.replies := by
  unfold send
  split <;> rfl

@[simp] theorem connected_send (request : Request) :
    (l.send request).connected = l.connected := by
  unfold send
  split <;> rfl

theorem mem_requests_send {request other : Request} (h : other ∈ l.requests) :
    other ∈ (l.send request).requests := by
  unfold send
  split
  · exact List.mem_append_left _ h
  · exact h

theorem mem_requests_send_self (h : l.connected = true) (request : Request) :
    request ∈ (l.send request).requests := by
  rw [send, if_pos h]
  exact List.mem_append_right _ (List.mem_singleton_self _)

theorem mem_requests_connect {request : Request} (h : request ∈ l.requests) (n : UInt32) :
    request ∈ (l.connect n).requests := by
  unfold connect
  split
  · exact h
  · exact mem_requests_send h

@[simp] theorem replies_connect (n : UInt32) : (l.connect n).replies = l.replies := by
  unfold connect
  split
  · rfl
  · exact replies_send _

end Link

namespace ProxyNetwork

variable {Address ContextList : Type} {s : ProxyNetwork Address ContextList}

/-! ### Who waits -/

/-- A client that is not changed waits as before. -/
theorem waits_congr {s' : ProxyNetwork Address ContextList} {i : ℕ}
    (hlist : s'.contextList = s.contextList) (hclient : s'.client i = s.client i) :
    s'.Waits i ↔ s.Waits i := by
  unfold Waits Served
  rw [hlist, hclient]

/-- A waiting client has something on its way. -/
def Sound (s : ProxyNetwork Address ContextList) : Prop := ∀ i, s.Waits i → s.Upstream

theorem upstream_updateDaemon (h : s.Upstream) {name : String}
    {f : Link ContextList → Link ContextList} (hf : Busy (s.daemon name) → Busy (f (s.daemon name))) :
    (s.updateDaemon name f).Upstream := by
  refine h.imp_left fun ⟨other, hbusy⟩ => ⟨other, ?_⟩
  unfold updateDaemon
  by_cases hname : other = name
  · subst hname
    simpa using hf hbusy
  · simpa [Function.update_of_ne hname] using hbusy

theorem upstream_updateClient (h : s.Upstream) {i : ℕ}
    {f : ListClient ContextList → ListClient ContextList}
    (hf : .listContexts ∈ (s.client i).link.requests →
      .listContexts ∈ (f (s.client i)).link.requests) : (s.updateClient i f).Upstream := by
  refine h.imp_right fun ⟨j, hrequest⟩ => ⟨j, ?_⟩
  unfold updateClient
  by_cases hj : j = i
  · subst hj
    simpa using hf hrequest
  · simpa [Function.update_of_ne hj] using hrequest

theorem Sound.updateDaemon (h : s.Sound) {name : String} {f : Link ContextList → Link ContextList}
    (hf : Busy (s.daemon name) → Busy (f (s.daemon name))) : (s.updateDaemon name f).Sound :=
  fun i hwaits => upstream_updateDaemon (h i hwaits) hf

/-- One client changes: it waits as before, or something is on its way. -/
theorem Sound.updateClient (h : s.Sound) {i : ℕ}
    {f : ListClient ContextList → ListClient ContextList}
    (hf : .listContexts ∈ (s.client i).link.requests →
      .listContexts ∈ (f (s.client i)).link.requests)
    (hwaits : (s.updateClient i f).Waits i → s.Waits i ∨ (s.updateClient i f).Upstream) :
    (s.updateClient i f).Sound := by
  intro j hj
  by_cases heq : j = i
  · subst heq
    rcases hwaits hj with hbefore | hupstream
    · exact upstream_updateClient (h j hbefore) hf
    · exact hupstream
  · refine upstream_updateClient (h j ?_) hf
    have hsame : (s.updateClient i f).Waits j ↔ s.Waits j :=
      waits_congr rfl (Function.update_of_ne heq _ _)
    exact hsame.1 hj

/-- The client is connected as before, asked for nothing, and has the same list at the end. -/
theorem waits_updateClient {i : ℕ} {f : ListClient ContextList → ListClient ContextList}
    (hconnected : (f (s.client i)).link.connected = (s.client i).link.connected)
    (hrequested : (f (s.client i)).requested = (s.client i).requested)
    (hlast : lastList (f (s.client i)) = lastList (s.client i)) :
    (s.updateClient i f).Waits i ↔ s.Waits i := by
  have hclient : (s.updateClient i f).client i = f (s.client i) := Function.update_self _ _ _
  unfold Waits Served
  rw [hclient, hconnected, hrequested, hlast]
  exact Iff.rfl

theorem lastList_reply (c : ListClient ContextList) {message : Reply ContextList}
    (hmessage : ∀ list, message ≠ .listContexts list) :
    lastList { c with link := c.link.reply message } = lastList c := by
  unfold lastList Link.reply
  split
  · rw [List.foldl_append, List.foldl_cons, List.foldl_nil]
    cases message with
    | listContexts list => exact absurd rfl (hmessage list)
    | _ => rfl
  · rfl

theorem lastList_reply_listContexts {c : ListClient ContextList} (h : c.link.connected = true)
    (list : ContextList) :
    lastList { c with link := c.link.reply (.listContexts list) } = some list := by
  unfold lastList Link.reply
  rw [if_pos h, List.foldl_append, List.foldl_cons, List.foldl_nil]
  rfl

/-! ### What the proxy does -/

/-- A forwarded request is on its way, unless the first daemon is not connected. -/
theorem upstream_msgForward :
    (s.msgForward .listContexts).Upstream ∨
      s.msgForward .listContexts = s ∧
        ∀ name, s.firstDaemon = some name → (s.daemon name).connected = false := by
  unfold msgForward
  split
  · next hnone =>
    refine .inr ⟨rfl, fun name hname => ?_⟩
    rw [hnone] at hname
    cases hname
  · next name hname =>
    cases hconnected : (s.daemon name).connected with
    | true =>
      refine .inl (.inl ⟨name, .inl ?_⟩)
      simpa [updateDaemon] using Link.mem_requests_send_self hconnected .listContexts
    | false =>
      refine .inr ⟨?_, fun other hother => ?_⟩
      · simp [updateDaemon, Link.send, hconnected]
      · obtain rfl := Option.some.inj (hname.symm.trans hother)
        exact hconnected

theorem Sound.receiveRequest (h : s.Sound) {i : ℕ} {success : Bool}
    (hsafe : s.Safe (.clientRequests i success)) : (s.receiveRequest i success).Sound := by
  unfold ProxyNetwork.receiveRequest
  cases hrequests : (s.client i).link.requests with
  | nil => exact h
  | cons request rest =>
    dsimp only
    set s' := s.updateClient i fun c => { c with link := { c.link with requests := rest } } with hs'
    have hwaits (j : ℕ) : s'.Waits j ↔ s.Waits j := by
      by_cases heq : j = i
      · subst heq
        exact waits_updateClient rfl rfl rfl
      · exact waits_congr rfl (Function.update_of_ne heq _ _)
    cases request with
    | register n =>
      have hsound : s'.Sound := by
        refine h.updateClient ?_ fun hj => .inl ((hwaits i).1 hj)
        rw [hrequests]
        intro hmem
        simpa using hmem
      refine hsound.updateClient (fun hmem => ?_) fun hj => .inl ?_
      · simpa using hmem
      · refine (waits_updateClient ?_ rfl ?_).1 hj
        · simp
        · apply lastList_reply
          intro list
          split <;> exact fun heq => by cases heq
    | listContexts =>
      rcases upstream_msgForward (s := s') with hupstream | ⟨hsame, hclosed⟩
      · exact fun _ _ => hupstream
      · rw [hsame]
        intro j hj
        exact hsafe rest hrequests hclosed j ((hwaits j).1 hj)

theorem Sound.msgProcessReply (h : s.Sound) (name : String) (success : Bool) :
    (s.msgProcessReply name success).Sound := by
  unfold ProxyNetwork.msgProcessReply
  split
  · split
    · exact h
    · refine Sound.updateDaemon (s := { s with daemonReady := true }) h fun hbusy => ?_
      refine hbusy.imp Link.mem_requests_send ?_
      simp
  · exact h

theorem Sound.processAcknowledgment (h : s.Sound) (name : String) (n : UInt32) (success : Bool) :
    (s.processAcknowledgment name n success).Sound := by
  unfold ProxyNetwork.processAcknowledgment
  split
  · exact (h.updateDaemon id).msgProcessReply name success
  · exact h

/-- A list that is new for the proxy is sent to all: nobody waits any more. -/
theorem not_waits_saveContextList [DecidableEq ContextList] {list : ContextList}
    (hnew : s.contextList ≠ some list) (i : ℕ) : ¬ (s.saveContextList list).Waits i := by
  unfold ProxyNetwork.saveContextList
  rw [if_neg hnew]
  rintro ⟨hconnected, -, hnot⟩
  refine hnot ⟨list, rfl, lastList_reply_listContexts ?_ list⟩
  simpa [sendMessageToAllClients] using hconnected

theorem Sound.receiveReply [DecidableEq ContextList] (h : s.Sound) {name : String}
    (hsafe : s.Safe (.daemonReplies name)) : (s.receiveReply name).Sound := by
  unfold ProxyNetwork.receiveReply
  cases hreplies : (s.daemon name).replies with
  | nil => exact h
  | cons message rest =>
    dsimp only
    set s' := s.updateDaemon name fun l => { l with replies := rest } with hs'
    have hother (hmessage : ∀ list, message ≠ .listContexts list) : s'.Sound := by
      refine h.updateDaemon fun hbusy => hbusy.imp_right ?_
      rintro ⟨list, hlist⟩
      rw [hreplies] at hlist
      rcases List.mem_cons.1 hlist with heq | hmem
      · exact absurd heq.symm (hmessage list)
      · exact ⟨list, hmem⟩
    cases message with
    | acknowledge n => exact (hother fun _ heq => by cases heq).processAcknowledgment name n true
    | error n => exact (hother fun _ heq => by cases heq).processAcknowledgment name n false
    | listContexts list =>
      by_cases hsame : s.contextList = some list
      · -- the list has not changed: it is not sent
        have hkept : s'.saveContextList list = s' := if_pos hsame
        dsimp only
        rw [hkept]
        exact fun i hwaits => hsafe list rest hreplies hsame i hwaits
      · have hnobody := not_waits_saveContextList (s := s') hsame
        exact fun i hwaits => absurd hwaits (hnobody i)

/-! ### What the daemons and the clients do -/

/-- A request for the list that is answered becomes a list. -/
theorem busy_answer {l : Link ContextList} (hbusy : Busy l) (k : ℕ) (success : Bool)
    (list : ContextList) : Busy (l.answer k success list) := by
  unfold Link.answer
  cases hk : l.requests[k]? with
  | none => exact hbusy
  | some request =>
    dsimp only
    cases request with
    | listContexts => exact .inr ⟨list, List.mem_append_right _ (List.mem_singleton_self _)⟩
    | register n =>
      refine hbusy.imp (fun hmem => ?_) fun ⟨list', hlist'⟩ => ⟨list', List.mem_append_left _ hlist'⟩
      -- it is another request that is answered
      obtain ⟨j, hj⟩ := List.mem_iff_getElem?.1 hmem
      refine List.mem_eraseIdx_iff_getElem?.2 ⟨j, ?_, hj⟩
      rintro rfl
      rw [hk] at hj
      cases hj

theorem mem_requests_getContextList {c : ListClient ContextList} {request : Request}
    (h : request ∈ c.link.requests) (available : Bool) :
    request ∈ (c.getContextList available).link.requests := by
  unfold ListClient.getContextList
  split
  · exact h
  · exact Link.mem_requests_send h

theorem mem_requests_receive {c : ListClient ContextList} {request : Request}
    (h : request ∈ c.link.requests) (available : Bool) :
    request ∈ (c.receive available).link.requests := by
  unfold ListClient.receive ListClient.msgProcessReply
  split
  · exact h
  · split
    · split
      · apply mem_requests_getContextList
        exact h
      · exact h
    · exact h
    · exact h

/-- The first reply is received: the list at the end is the same, and a request is on its way if one
is sent. -/
theorem receive_cases (c : ListClient ContextList) (available : Bool) :
    (c.receive available).link.connected = c.link.connected ∧
      lastList (c.receive available) = lastList c ∧
      ((c.receive available).requested = c.requested ∨ c.link.connected = false ∨
        .listContexts ∈ (c.receive available).link.requests) := by
  unfold ListClient.receive
  cases hreplies : c.link.replies with
  | nil => exact ⟨rfl, rfl, .inl rfl⟩
  | cons message rest =>
    have hlast : lastList c = rest.foldl hold (hold c.contextList message) := by
      rw [lastList, hreplies, List.foldl_cons]
    rw [hlast]
    dsimp only
    cases message with
    | listContexts list => exact ⟨rfl, rfl, .inl rfl⟩
    | error n => exact ⟨rfl, rfl, .inl rfl⟩
    | acknowledge n =>
      unfold ListClient.msgProcessReply ListClient.getContextList
      dsimp only
      split
      · split
        · exact ⟨rfl, rfl, .inl rfl⟩
        · refine ⟨by simp, ?_, .inr ?_⟩
          · rw [lastList, Link.replies_send]
            rfl
          · cases hconnected : c.link.connected with
            | false => exact .inl rfl
            | true => exact .inr (Link.mem_requests_send_self rfl _)
      · exact ⟨rfl, rfl, .inl rfl⟩

theorem Sound.receive (h : s.Sound) (i : ℕ) (available : Bool) :
    (s.updateClient i (·.receive available)).Sound := by
  obtain ⟨hconnected, hlast, hrequested⟩ := receive_cases (s.client i) available
  refine h.updateClient (mem_requests_receive · available) fun hwaits => ?_
  rcases hrequested with hrequested | hclosed | hsent
  · exact .inl ((waits_updateClient hconnected hrequested hlast).1 hwaits)
  · have hopen := hwaits.1
    simp [ProxyNetwork.updateClient, hconnected, hclosed] at hopen
  · refine .inr (.inr ⟨i, ?_⟩)
    simpa [ProxyNetwork.updateClient] using hsent

/-- **A safe event leaves something on its way to each client that waits.** -/
theorem Sound.step [DecidableEq ContextList] (h : s.Sound) {event : NetworkEvent Address ContextList}
    (hsafe : s.Safe event) : (step s event).Sound := by
  cases event with
  | daemonAnnounced a name => exact h
  | daemonConnected name n =>
    unfold ProxyNetwork.step
    dsimp only
    split
    · refine h.updateDaemon fun hbusy => hbusy.imp ?_ ?_
      · exact fun hmem => Link.mem_requests_connect hmem n
      · simp
    · exact h
  | daemonDisconnected name => exact fun i hwaits => hsafe i hwaits
  | daemonAnswers name k success list =>
    exact h.updateDaemon fun hbusy => busy_answer hbusy k success list
  | daemonReplies name => exact h.receiveReply hsafe
  | clientConnected i n =>
    have hrequests (hmem : .listContexts ∈ (s.client i).link.requests) :
        .listContexts ∈ ((s.client i).link.connect n).requests := Link.mem_requests_connect hmem n
    refine Sound.updateClient (i := i) (f := fun c => { c with link := c.link.connect n }) h
      hrequests fun hwaits => ?_
    -- a client that asked before
    obtain ⟨-, hrequested, hnot⟩ := hwaits
    have hlast : lastList ((s.updateClient i fun c =>
        { c with link := c.link.connect n }).client i) = lastList (s.client i) := by
      simp [ProxyNetwork.updateClient, lastList]
    simp only [Served, hlast] at hnot
    simp only [ProxyNetwork.updateClient, Function.update_self] at hrequested
    rcases hsafe hrequested with hserved | hupstream
    · exact absurd hserved hnot
    · exact .inr (upstream_updateClient hupstream hrequests)
  | clientDisconnected i =>
    intro j hj
    by_cases heq : j = i
    · subst heq
      have hopen := hj.1
      simp [ProxyNetwork.step, ProxyNetwork.updateClient, Link.disconnect] at hopen
    · have hsame : (s.step (.clientDisconnected i)).Waits j ↔ s.Waits j :=
        waits_congr rfl (Function.update_of_ne heq _ _)
      exact hsafe j heq (hsame.1 hj)
  | clientRequests i success => exact h.receiveRequest hsafe
  | clientReceives i => exact h.receive i _

/-! ### Runs -/

/-- Nothing is on its way when no message is in flight. -/
theorem Sound.propagated (h : s.Sound) : s.Propagated := by
  intro hquiescent i hconnected hrequested
  have hlast : lastList (s.client i) = (s.client i).contextList := by
    rw [lastList, (hquiescent.2 i).2, List.foldl_nil]
  by_contra hnot
  have hwaits : s.Waits i := by
    refine ⟨hconnected, hrequested, ?_⟩
    rw [Served, hlast]
    exact hnot
  rcases h i hwaits with ⟨name, hrequest | ⟨list, hreply⟩⟩ | ⟨j, hrequest⟩
  · rw [(hquiescent.1 name).1] at hrequest
    exact absurd hrequest List.not_mem_nil
  · rw [(hquiescent.1 name).2] at hreply
    exact absurd hreply List.not_mem_nil
  · rw [(hquiescent.2 j).1] at hrequest
    exact absurd hrequest List.not_mem_nil

/-- **In the runs of safe events the list is propagated**: in every state of the run in which no
message is in flight, each connected client that sent a request, after the proxy had its first list,
holds the list that the proxy saved last. -/
theorem propagated_of_safe [DecidableEq ContextList]
    (events : List (NetworkEvent Address ContextList))
    (h : Run.Each Safe step ({} : ProxyNetwork Address ContextList) events) :
    Run.Always Propagated step ({} : ProxyNetwork Address ContextList) events := by
  have hstart : ({} : ProxyNetwork Address ContextList).Sound := by
    rintro i ⟨hconnected, -⟩
    cases hconnected
  exact Run.always (fun _ hsound => hsound.propagated) (fun _ _ hsound hsafe => hsound.step hsafe)
    events _ hstart h

/-- The proxy has the list of its daemon; then a client is registered and asks for the list, and the
daemon sends one. -/
def askedAgain (list : ℕ) : List (NetworkEvent ℕ ℕ) :=
  [.daemonAnnounced 1 "d", .daemonConnected "d" 1, .daemonAnswers "d" 0 true 7, .daemonReplies "d",
    .daemonAnswers "d" 0 true 7, .daemonReplies "d", .clientConnected 0 1, .clientRequests 0 true,
    .clientReceives 0, .clientRequests 0 true, .daemonAnswers "d" 0 true list, .daemonReplies "d"]

/-- The list has changed, and the client receives it. -/
theorem propagated_askedAgain :
    Run.Always Propagated step ({} : ProxyNetwork ℕ ℕ) (askedAgain 8) := by
  refine propagated_of_safe (askedAgain 8) ?_
  simp [askedAgain, Run.Each, Safe, step, updateDaemon, updateClient, receiveReply, receiveRequest,
    msgForward, firstDaemon, saveContextList, sendMessageToAllClients, processAcknowledgment,
    msgProcessReply, DaemonConnections.connectToDaemon, Link.connect, Link.send, Link.answer,
    Link.reply, Request.reply, ListClient.receive, ListClient.msgProcessReply,
    ListClient.getContextList]

/-- The list has not changed: the client asked and has no list. -/
theorem run_askedAgain :
    (askedAgain 7).foldl step ({} : ProxyNetwork ℕ ℕ) =
      { daemonConnections := ⟨[("d", 1)]⟩
        daemon := Function.update (fun _ => {}) "d" { connected := true }
        daemonReady := true
        contextList := some 7
        client := Function.update (fun _ => {}) 0
          { link := { connected := true, expectedAcknowledgment := [1] }, requested := true } } := by
  simp [askedAgain, step, updateDaemon, updateClient, receiveReply, receiveRequest, msgForward,
    firstDaemon, saveContextList, sendMessageToAllClients, processAcknowledgment, msgProcessReply,
    DaemonConnections.connectToDaemon, Link.connect, Link.send, Link.answer, Link.reply,
    Request.reply, ListClient.receive, ListClient.msgProcessReply, ListClient.getContextList]

/-- The proxy does not send a list that has not changed, so a client that asks later has none. -/
theorem not_propagated :
    ¬ ∀ events : List (NetworkEvent ℕ ℕ), Run.Always Propagated step {} events := by
  intro h
  have hend := (h (askedAgain 7)).foldl
  rw [run_askedAgain] at hend
  refine absurd (hend ⟨?_, ?_⟩ 0 rfl rfl) ?_
  · intro name
    by_cases hname : name = "d"
    · subst hname
      exact ⟨rfl, rfl⟩
    · simp [hname]
  · intro i
    by_cases hi : i = 0
    · subst hi
      exact ⟨rfl, rfl⟩
    · simp [hi]
  · rintro ⟨list, -, hlist⟩
    cases hlist

end ProxyNetwork

end Prinbee
