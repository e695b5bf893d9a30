import Mathlib.Data.List.Nodup
import Mathlib.Data.List.Sort
import Mathlib.Data.String.Basic
import Prinbee.Network.PrinbeeConnection

/-!
# Connections and the addresses that are announced

A daemon announces its addresses with PRINBEE_CURRENT_STATUS messages, and a proxy with
PRINBEE_PROXY_CURRENT_STATUS messages.  On such a message, a daemon makes a connection to the other
daemon, a proxy makes one to the daemon, and a client makes one to the proxy.  The daemon finds its
connections by pointer, the proxy by name, and the client has one at most.

## Main definitions

* `Follows` — one connection per peer at most, to the address that was announced last.
* `NodeClients` — the connection references of `prinbeed`.
* `DaemonConnections` — the daemons of a proxy.
* `Announced` — a component and what was announced to it so far.
* `NodeClients.Safe`, `DaemonConnections.Safe`, `PrinbeeConnection.SafeStatus` — the announcements
  that the connections follow.

## Main results

* `follows_iff` — in which runs the connections of each component follow the announcements.
-/

namespace Prinbee

/-! ### Connections by the name of their peer -/

section Follows

variable {ι Address : Type} [DecidableEq ι] {connections : List (ι × Address)}
  {announced : ι → Option Address} {c : ι × Address}

/-- **A peer has one connection at most, to the address that was announced last.** -/
def Follows (connections : List (ι × Address)) (announced : ι → Option Address) : Prop :=
  (connections.map Prod.fst).Nodup ∧ ∀ c ∈ connections, announced c.1 = some c.2

omit [DecidableEq ι] in
theorem follows_nil (announced : ι → Option Address) : Follows [] announced :=
  ⟨List.nodup_nil, fun _ hc => absurd hc List.not_mem_nil⟩

omit [DecidableEq ι] in
theorem Follows.perm {connections' : List (ι × Address)} (h : connections.Perm connections') :
    Follows connections announced ↔ Follows connections' announced := by
  unfold Follows
  rw [(h.map Prod.fst).nodup_iff]
  simp only [h.mem_iff]

/-- A peer is announced: its connection, if any, has this address. -/
theorem Follows.announce_iff (h : Follows connections announced) :
    Follows connections (Function.update announced c.1 (some c.2)) ↔
      ∀ d ∈ connections, d.1 = c.1 → d.2 = c.2 := by
  constructor
  · intro hfollows d hd hname
    have hlast := hfollows.2 d hd
    rw [hname, Function.update_self] at hlast
    exact (Option.some.inj hlast).symm
  · intro hsame
    refine ⟨h.1, fun d hd => ?_⟩
    by_cases hname : d.1 = c.1
    · rw [hname, Function.update_self, hsame d hd hname]
    · rw [Function.update_of_ne hname]
      exact h.2 d hd

/-- A peer is announced, and a connection to it is made: there was none. -/
theorem Follows.connect_iff (h : Follows connections announced) :
    Follows (c :: connections) (Function.update announced c.1 (some c.2)) ↔
      ∀ d ∈ connections, d.1 ≠ c.1 := by
  have hnames : c.1 ∉ connections.map Prod.fst ↔ ∀ d ∈ connections, d.1 ≠ c.1 := by
    simp only [List.mem_map, not_exists, not_and, ne_eq]
  constructor
  · intro hfollows
    exact hnames.1 (List.nodup_cons.1 hfollows.1).1
  · intro hnone
    refine ⟨List.nodup_cons.2 ⟨hnames.2 hnone, h.1⟩, ?_⟩
    intro d hd
    rcases List.mem_cons.1 hd with rfl | hd
    · exact Function.update_self _ _ _
    · rw [Function.update_of_ne (hnone d hd)]
      exact h.2 d hd

end Follows

/-! ### What is announced -/

/-- The parameters of a PRINBEE_CURRENT_STATUS message that are looked at. -/
structure CurrentStatus where
  clusterName : Option String := none
  status : Option String := none
  nodeIp : Option String := none
  proxyIp : Option String := none
  nodeName : Option String := none
  deriving DecidableEq, Repr

/-- The default port of a node address. -/
def nodeBinaryPort : ℕ := 4011

/-- What `prinbeed` and the proxy are given: the name of their cluster and their own address. -/
structure NodeSettings (Address : Type) where
  clusterName : String
  myAddress : Address

section Components

variable {Address : Type} (lib : AddrLibrary Address) (settings : NodeSettings Address)

/-- The checks that `register_prinbee_daemon()` and `msg_prinbee_current_status()` both make, each
with its address parameter, up to `string_to_addr()`: the name and the address of a daemon that is
up. -/
def CurrentStatus.announcement (msg : CurrentStatus) (ip : Option String) :
    Option (String × Address) :=
  if msg.clusterName = some settings.clusterName ∧ msg.status = some "up" then
    ip.bind fun ip =>
      msg.nodeName.bind fun name =>
        (lib.stringToAddr ip "" nodeBinaryPort).map fun a => (name, a)
  else none

/-- The network types both accept. -/
def AddrLibrary.isNodeAddress (a : Address) : Bool :=
  match lib.getNetworkType a with
  | .networkTypePublic => true
  | .networkTypePrivate => true
  | .networkTypeLoopback => true
  | .other => false

/-- `connection_reference`: the object, and for a `node_client` its name and its address. -/
structure ConnectionReference (Address : Type) where
  pointer : ℕ
  nodeClient : Option (String × Address) := none
  deriving DecidableEq, Repr

/-- `f_connection_references` of `prinbeed`, and how many objects were made so far. -/
structure NodeClients (Address : Type) where
  connectionReferences : List (ConnectionReference Address) := []
  count : ℕ := 0

/-- What happens in `prinbeed`: a status is received, a listener accepts a connection, and such a
connection is lost. -/
inductive NodeEvent
  | currentStatus (msg : CurrentStatus)
  | processNewConnection
  | disconnected (pointer : ℕ)
  deriving DecidableEq, Repr

namespace NodeClients

variable (s : NodeClients Address)

/-- The key is the new object. -/
def registerConnection (nodeClient : Option (String × Address)) : NodeClients Address where
  connectionReferences := { pointer := s.count, nodeClient := nodeClient } :: s.connectionReferences
  count := s.count + 1

/-- The REG message is left out. -/
def connectToNode (a : Address) (name : String) : NodeClients Address :=
  s.registerConnection (some (name, a))

/-- A node address, smaller than the one of this daemon. -/
def accepts (a : Address) : Bool := lib.isNodeAddress a && lib.less a settings.myAddress

def registerPrinbeeDaemon (msg : CurrentStatus) : NodeClients Address :=
  match msg.announcement lib settings msg.nodeIp with
  | none => s
  | some c =>
    if accepts lib settings c.2 then s.connectToNode c.2 c.1 else s

def clientDisconnected (pointer : ℕ) : NodeClients Address :=
  { s with connectionReferences := s.connectionReferences.filter (·.pointer ≠ pointer) }

/-- A `node_client` has no callback for its end. -/
def step (s : NodeClients Address) (event : NodeEvent) : NodeClients Address :=
  match event with
  | .currentStatus msg => s.registerPrinbeeDaemon lib settings msg
  | .processNewConnection => s.registerConnection none
  | .disconnected pointer =>
    if s.connectionReferences.any fun r => r.pointer = pointer && r.nodeClient.isNone then
      s.clientDisconnected pointer
    else s

/-- The connections to other daemons. -/
def connections : List (String × Address) := s.connectionReferences.filterMap (·.nodeClient)

end NodeClients

/-- `f_daemon_connections` of the proxy, in the order of the names. -/
structure DaemonConnections (Address : Type) where
  daemonConnections : List (String × Address) := []

/-- What happens in the proxy. -/
inductive ProxyEvent
  | currentStatus (msg : CurrentStatus)
  | stop
  deriving DecidableEq, Repr

namespace DaemonConnections

variable (s : DaemonConnections Address)

def connectToDaemon (a : Address) (name : String) : DaemonConnections Address :=
  if s.daemonConnections.any fun d => d.1 = name then s
  else
    { s with
      daemonConnections := s.daemonConnections.orderedInsert (fun c d => c.1 ≤ d.1) (name, a) }

def msgPrinbeeCurrentStatus (msg : CurrentStatus) : DaemonConnections Address :=
  match msg.announcement lib settings msg.proxyIp with
  | none => s
  | some c => if lib.isNodeAddress c.2 then s.connectToDaemon c.2 c.1 else s

def step (s : DaemonConnections Address) (event : ProxyEvent) : DaemonConnections Address :=
  match event with
  | .currentStatus msg => s.msgPrinbeeCurrentStatus lib settings msg
  | .stop => { s with daemonConnections := [] }

end DaemonConnections

/-- The connection of a client, if any. -/
def PrinbeeConnection.connections [Inhabited Address] (s : PrinbeeConnection Address) :
    List (Unit × Address) :=
  s.proxyConnection.toList.map fun p => ((), p.remoteAddress)

/-! ### Runs with their announcements -/

/-- A component, and the address that was announced last as up for each peer. -/
structure Announced (σ ι Address : Type) where
  state : σ
  announced : ι → Option Address := fun _ => none

/-- An event, and what it announces. -/
def Announced.step {σ ι ε : Type} [DecidableEq ι] (step : σ → ε → σ)
    (announcement : ε → Option (ι × Address)) (s : Announced σ ι Address) (event : ε) :
    Announced σ ι Address where
  state := step s.state event
  announced :=
    match announcement event with
    | none => s.announced
    | some c => Function.update s.announced c.1 (some c.2)

def NodeEvent.announcement : NodeEvent → Option (String × Address)
  | .currentStatus msg => msg.announcement lib settings msg.nodeIp
  | _ => none

def ProxyEvent.announcement : ProxyEvent → Option (String × Address)
  | .currentStatus msg => msg.announcement lib settings msg.proxyIp
  | _ => none

def ClientEvent.announcement [DecidableEq Address] [Inhabited Address] :
    ClientEvent → Option (Unit × Address)
  | .proxyCurrentStatus status proxyIp =>
    if status = some "up" then
      (PrinbeeConnection.statusAddress lib proxyIp).map fun a => ((), a)
    else none
  | _ => none

/-- The daemon that is announced has no connection yet. -/
def NodeClients.Safe (s : Announced (NodeClients Address) String Address) (event : NodeEvent) :
    Prop :=
  ∀ c, event.announcement lib settings = some c → ∀ d ∈ s.state.connections, d.1 ≠ c.1

/-- The daemon that is announced has no connection to another address. -/
def DaemonConnections.Safe (s : Announced (DaemonConnections Address) String Address)
    (event : ProxyEvent) : Prop :=
  ∀ c, event.announcement lib settings = some c →
    ∀ d ∈ s.state.daemonConnections, d.1 = c.1 → d.2 = c.2

/-- The client has no connection to another address, or it may not have one any more. -/
def PrinbeeConnection.SafeStatus [DecidableEq Address] [Inhabited Address]
    (s : Announced (PrinbeeConnection Address) Unit Address) (event : ClientEvent) : Prop :=
  ∀ c, event.announcement lib = some c → ∀ p, s.state.proxyConnection = some p →
    p.remoteAddress = c.2 ∨
      { s.state with proxyStatus := "up", address := c.2 }.isProxyReady = false

/-! ### The daemon -/

variable {lib settings}

namespace NodeClients

variable {s : NodeClients Address}

/-- The keys are the objects, and the connections to other daemons have addresses that were
accepted. -/
structure Keyed (lib : AddrLibrary Address) (settings : NodeSettings Address)
    (s : NodeClients Address) : Prop where
  nodup : (s.connectionReferences.map (·.pointer)).Nodup
  lt_count : ∀ r ∈ s.connectionReferences, r.pointer < s.count
  accepted : ∀ c ∈ s.connections, accepts lib settings c.2 = true

theorem keyed_start : Keyed lib settings ({} : NodeClients Address) where
  nodup := List.nodup_nil
  lt_count _ hr := absurd hr List.not_mem_nil
  accepted _ hc := absurd hc List.not_mem_nil

theorem Keyed.registerConnection (h : s.Keyed lib settings) {nodeClient : Option (String × Address)}
    (haccepts : ∀ c, nodeClient = some c → accepts lib settings c.2 = true) :
    (s.registerConnection nodeClient).Keyed lib settings where
  nodup := by
    refine List.nodup_cons.2 ⟨fun hmem => ?_, h.nodup⟩
    obtain ⟨r, hr, hpointer⟩ := List.mem_map.1 hmem
    exact absurd (h.lt_count r hr) (by rw [hpointer]; exact Nat.lt_irrefl _)
  lt_count := by
    intro r hr
    rcases List.mem_cons.1 hr with rfl | hr
    · exact Nat.lt_succ_self _
    · exact Nat.lt_succ_of_lt (h.lt_count r hr)
  accepted := by
    intro c hc
    cases nodeClient with
    | none => exact h.accepted c hc
    | some d =>
      rcases List.mem_cons.1 hc with rfl | hc
      · exact haccepts _ rfl
      · exact h.accepted c hc

/-- A connection of a listener is lost: those to other daemons are still there. -/
theorem Keyed.connections_clientDisconnected (h : s.Keyed lib settings) {pointer : ℕ}
    (hlistener : ∃ r ∈ s.connectionReferences, r.pointer = pointer ∧ r.nodeClient = none) :
    (s.clientDisconnected pointer).connections = s.connections := by
  obtain ⟨r, hr, hpointer, hnone⟩ := hlistener
  unfold connections clientDisconnected
  rw [List.filterMap_filter]
  refine List.filterMap_congr fun r' hr' => ?_
  by_cases heq : r'.pointer = pointer
  · have hsame : r' = r := List.inj_on_of_nodup_map h.nodup hr' hr (heq.trans hpointer.symm)
    simp [hsame, hnone]
  · simp [heq]

theorem Keyed.clientDisconnected (h : s.Keyed lib settings) {pointer : ℕ}
    (hlistener : ∃ r ∈ s.connectionReferences, r.pointer = pointer ∧ r.nodeClient = none) :
    (s.clientDisconnected pointer).Keyed lib settings where
  nodup := h.nodup.sublist (List.filter_sublist.map _)
  lt_count _ hr := h.lt_count _ (List.mem_of_mem_filter hr)
  accepted := by
    rw [h.connections_clientDisconnected hlistener]
    exact h.accepted

/-- **The connections after an event**: there is one more when a daemon is announced at an address
that is accepted. -/
theorem Keyed.step (h : s.Keyed lib settings) (event : NodeEvent) :
    (step lib settings s event).Keyed lib settings ∧
      (step lib settings s event).connections =
        match event.announcement lib settings with
        | none => s.connections
        | some c => if accepts lib settings c.2 then c :: s.connections else s.connections := by
  cases event with
  | currentStatus msg =>
    simp only [NodeClients.step, registerPrinbeeDaemon, NodeEvent.announcement]
    cases msg.announcement lib settings msg.nodeIp with
    | none => exact ⟨h, rfl⟩
    | some c =>
      by_cases haccepts : accepts lib settings c.2 = true
      · simp only [haccepts, if_true]
        refine ⟨h.registerConnection ?_, rfl⟩
        intro d hd
        cases hd
        exact haccepts
      · simp only [if_neg haccepts]
        exact ⟨h, trivial⟩
  | processNewConnection =>
    refine ⟨h.registerConnection ?_, rfl⟩
    intro c hc
    cases hc
  | disconnected pointer =>
    simp only [NodeClients.step, NodeEvent.announcement]
    split
    · next hany =>
      have hlistener : ∃ r ∈ s.connectionReferences, r.pointer = pointer ∧ r.nodeClient = none := by
        simpa using hany
      exact ⟨h.clientDisconnected hlistener, h.connections_clientDisconnected hlistener⟩
    · exact ⟨h, rfl⟩

end NodeClients

/-- The connections to other daemons follow the announcements, and were accepted. -/
def NodeClients.Current (lib : AddrLibrary Address) (settings : NodeSettings Address)
    (s : Announced (NodeClients Address) String Address) : Prop :=
  Follows s.state.connections s.announced ∧ s.state.Keyed lib settings

theorem NodeClients.follows_step {s : Announced (NodeClients Address) String Address}
    (h : NodeClients.Current lib settings s) (event : NodeEvent) :
    Follows (s.step (NodeClients.step lib settings) (NodeEvent.announcement lib settings)
        event).state.connections
      (s.step (NodeClients.step lib settings) (NodeEvent.announcement lib settings)
        event).announced ↔ NodeClients.Safe lib settings s event := by
  simp only [Announced.step, (h.2.step event).2, NodeClients.Safe]
  cases hannounce : event.announcement lib settings with
  | none => simpa using h.1
  | some c =>
    simp only [Option.some.injEq, forall_eq']
    by_cases haccepts : NodeClients.accepts lib settings c.2 = true
    · rw [if_pos haccepts]
      exact h.1.connect_iff
    · rw [if_neg haccepts, h.1.announce_iff]
      -- it is not the address of a connection
      refine forall₂_congr fun d hd => ⟨fun hsame hname => haccepts ?_, fun hne hname => ?_⟩
      · rw [← hsame hname]
        exact h.2.accepted d hd
      · exact absurd hname hne

/-! ### The proxy -/

namespace DaemonConnections

variable {s : Announced (DaemonConnections Address) String Address}

/-- A daemon is announced: a new name is inserted. -/
theorem follows_connectToDaemon (h : Follows s.state.daemonConnections s.announced)
    (c : String × Address) :
    Follows (s.state.connectToDaemon c.2 c.1).daemonConnections
        (Function.update s.announced c.1 (some c.2)) ↔
      ∀ d ∈ s.state.daemonConnections, d.1 = c.1 → d.2 = c.2 := by
  unfold connectToDaemon
  split
  · exact h.announce_iff
  · next hnew =>
    have hnone : ∀ d ∈ s.state.daemonConnections, d.1 ≠ c.1 := by
      simpa only [List.any_eq_true, decide_eq_true_eq, not_exists, not_and] using hnew
    rw [Follows.perm (List.perm_orderedInsert _ _ _)]
    refine iff_of_true (h.connect_iff.2 hnone) fun d hd hname => ?_
    exact absurd hname (hnone d hd)

theorem follows_step (h : Follows s.state.daemonConnections s.announced) (event : ProxyEvent) :
    Follows (s.step (step lib settings) (ProxyEvent.announcement lib settings)
        event).state.daemonConnections
      (s.step (step lib settings) (ProxyEvent.announcement lib settings) event).announced ↔
      Safe lib settings s event := by
  unfold Safe Announced.step
  cases event with
  | currentStatus msg =>
    simp only [step, msgPrinbeeCurrentStatus, ProxyEvent.announcement]
    cases msg.announcement lib settings msg.proxyIp with
    | none => simpa using h
    | some c =>
      simp only [Option.some.injEq, forall_eq']
      split
      · exact follows_connectToDaemon h c
      · exact h.announce_iff
  | stop =>
    refine iff_of_true (follows_nil _) ?_
    intro c hc
    cases hc

end DaemonConnections

/-! ### The client -/

namespace PrinbeeConnection

variable [DecidableEq Address] [Inhabited Address]
  {s : Announced (PrinbeeConnection Address) Unit Address}

/-- The connection has the address that was announced, and so will a new one. -/
def Current (s : Announced (PrinbeeConnection Address) Unit Address) : Prop :=
  Follows s.state.connections s.announced ∧
    (s.state.proxyStatus = "up" → s.announced () = some s.state.address)

omit [DecidableEq Address] in
theorem follows_connections_iff {s : PrinbeeConnection Address} {announced : Unit → Option Address} :
    Follows s.connections announced ↔
      ∀ p, s.proxyConnection = some p → announced () = some p.remoteAddress := by
  unfold Follows connections
  cases s.proxyConnection with
  | none => simp
  | some p => simp

/-- An event that announces nothing: an address that is up was announced before. -/
theorem current_of_not_announced (h : Current s) {event : ClientEvent}
    (hevent : event.announcement lib = none) (hup : (step lib s.state event).proxyStatus = "up") :
    s.announced () = some (step lib s.state event).address := by
  have hsame (hs : SameStatus s.state (step lib s.state event)) :
      s.announced () = some (step lib s.state event).address := by
    rw [hs.2]
    exact h.2 (hs.1 ▸ hup)
  cases event with
  | proxyCurrentStatus status proxyIp =>
    simp only [step, msgPrinbeeProxyCurrentStatus] at hup hsame ⊢
    cases haddress : statusAddress lib proxyIp with
    | none =>
      rw [haddress] at hsame
      exact hsame ⟨rfl, rfl⟩
    | some a =>
      simp only [haddress, proxyStatus_setProxyStatusAndAddress] at hup
      cases status with
      | none => exact absurd hup (by decide)
      | some status =>
        obtain rfl : status = "up" := hup
        rw [ClientEvent.announcement, if_pos rfl, haddress] at hevent
        cases hevent
  | serviceStatus service status =>
    simp only [step, serviceStatus] at hup hsame ⊢
    split at hup
    · simp at hup
    · next hother =>
      rw [if_neg hother] at hsame ⊢
      exact hsame ⟨rfl, rfl⟩
  | messenger _ _ _ => exact hsame ⟨rfl, rfl⟩
  | fluidSettingsReady => exact hsame (sameStatus_processProxyStatus ⟨rfl, rfl⟩)
  | _ =>
    refine hsame ?_
    simp only [step]
    split
    · exact ⟨rfl, rfl⟩
    · exact sameStatus_proxyStep

theorem current_of_announced (h : Current s) {event : ClientEvent} {c : Unit × Address}
    (hevent : event.announcement lib = some c) :
    step lib s.state event = s.state.setProxyStatusAndAddress "up" c.2 ∧
      (Follows (step lib s.state event).connections (Function.update s.announced c.1 (some c.2)) ↔
        ∀ p, s.state.proxyConnection = some p → p.remoteAddress = c.2 ∨
          { s.state with proxyStatus := "up", address := c.2 }.isProxyReady = false) := by
  have hstep : step lib s.state event = s.state.setProxyStatusAndAddress "up" c.2 := by
    cases event with
    | proxyCurrentStatus status proxyIp =>
      rw [ClientEvent.announcement] at hevent
      by_cases hup : status = some "up"
      · rw [if_pos hup] at hevent
        obtain ⟨a, ha, rfl⟩ := Option.map_eq_some_iff.1 hevent
        simp only [step, msgPrinbeeProxyCurrentStatus, ha, hup, Option.getD_some]
      · rw [if_neg hup] at hevent
        cases hevent
    | _ => cases hevent
  refine ⟨hstep, ?_⟩
  rw [hstep, follows_connections_iff]
  simp only [Function.update_self]
  constructor
  · intro hfollows p hp
    by_contra hnot
    obtain ⟨hother, hready⟩ := not_or.1 hnot
    have hstay := proxyConnection_setProxyStatusAndAddress_of_ready hp (eq_true_of_ne_false hready)
    exact hother (Option.some.inj (hfollows p hstay)).symm
  · intro hsafe p hp
    rcases proxyConnection_setProxyStatusAndAddress hp with hsame | ⟨-, -, rfl⟩
    · rcases hsafe p hsame with haddress | hdown
      · rw [haddress]
      · -- a connection that is still there: nothing was done
        rcases isProxyReady_of_proxyConnection hp with ⟨hstatus, haddress⟩ | hready
        · rw [haddress, ← h.2 hstatus.symm]
          exact follows_connections_iff.1 h.1 p hsame
        · rw [hready] at hdown
          cases hdown
    · rfl

theorem follows_step (h : Current s) (event : ClientEvent) :
    Follows (s.step (step lib) (ClientEvent.announcement lib) event).state.connections
        (s.step (step lib) (ClientEvent.announcement lib) event).announced ↔
      SafeStatus lib s event := by
  unfold SafeStatus Announced.step
  cases hevent : event.announcement lib with
  | some c => simpa using (current_of_announced h hevent).2
  | none =>
    refine iff_of_true (follows_connections_iff.2 fun p hp => ?_) fun c hc => by cases hc
    rcases proxyConnection_step hp with ⟨p₀, hp₀, hkeeps⟩ | ⟨-, hup, rfl⟩
    · rw [hkeeps.1]
      exact follows_connections_iff.1 h.1 p₀ hp₀
    · exact current_of_not_announced h hevent hup

theorem current_step (h : Current s) {event : ClientEvent} (hsafe : SafeStatus lib s event) :
    Current (s.step (step lib) (ClientEvent.announcement lib) event) := by
  refine ⟨(follows_step h event).2 hsafe, fun hup => ?_⟩
  unfold Announced.step at hup ⊢
  cases hevent : event.announcement lib with
  | none => exact current_of_not_announced h hevent hup
  | some c =>
    simp only [Function.update_self, (current_of_announced h hevent).1,
      address_setProxyStatusAndAddress]

end PrinbeeConnection

end Components

/-- A library of addresses, which are the lengths of their texts. -/
def portAddresses : AddrLibrary ℕ where
  stringToAddr text _ _ := some text.length
  getNetworkType _ := .networkTypeLoopback
  less a b := a < b

section Runs

variable {Address : Type} [DecidableEq Address] [Inhabited Address]

/-- **Connections follow the announcements exactly in the runs of safe announcements.**  In every
run of `prinbeed`, of the proxy and of the client, a peer has one connection at most, to the address
that was announced last as up, if and only if: no daemon that `prinbeed` has a connection to is
announced again; no daemon that the proxy has a connection to is announced at another address; and
no other address of the proxy is announced to a client that has a connection and keeps it. -/
theorem follows_iff (lib : AddrLibrary Address) (settings : NodeSettings Address) :
    (∀ events,
      Run.Always (fun s => Follows s.state.connections s.announced)
          (Announced.step (NodeClients.step lib settings) (NodeEvent.announcement lib settings))
          ⟨{}, fun _ => none⟩ events ↔
        Run.Each (NodeClients.Safe lib settings)
          (Announced.step (NodeClients.step lib settings) (NodeEvent.announcement lib settings))
          ⟨{}, fun _ => none⟩ events) ∧
    (∀ events,
      Run.Always (fun s => Follows s.state.daemonConnections s.announced)
          (Announced.step (DaemonConnections.step lib settings)
            (ProxyEvent.announcement lib settings)) ⟨{}, fun _ => none⟩ events ↔
        Run.Each (DaemonConnections.Safe lib settings)
          (Announced.step (DaemonConnections.step lib settings)
            (ProxyEvent.announcement lib settings)) ⟨{}, fun _ => none⟩ events) ∧
    ∀ events,
      Run.Always (fun s => Follows s.state.connections s.announced)
          (Announced.step (PrinbeeConnection.step lib) (ClientEvent.announcement lib))
          ⟨{}, fun _ => none⟩ events ↔
        Run.Each (PrinbeeConnection.SafeStatus lib)
          (Announced.step (PrinbeeConnection.step lib) (ClientEvent.announcement lib))
          ⟨{}, fun _ => none⟩ events := by
  refine ⟨fun events => ?_, fun events => ?_, fun events => ?_⟩
  · refine Run.always_iff
      (fun s (h : NodeClients.Current lib settings s) => h.1)
      (fun _ event h hsafe => ?_) (fun _ event h => ?_) events _
      ⟨follows_nil _, NodeClients.keyed_start⟩
    · exact ⟨(NodeClients.follows_step h event).2 hsafe, (h.2.step event).1⟩
    · exact (NodeClients.follows_step h event).1
  · refine Run.always_iff (fun _ h => h) (fun _ event h hsafe => ?_) (fun _ event h => ?_)
      events _ (follows_nil _)
    · exact (DaemonConnections.follows_step h event).2 hsafe
    · exact (DaemonConnections.follows_step h event).1
  · refine Run.always_iff (fun s (h : PrinbeeConnection.Current s) => h.1)
      (fun _ event h hsafe => ?_) (fun _ event h => ?_) events _
      ⟨follows_nil _, fun (hup : "unknown" = "up") => absurd hup (by decide)⟩
    · exact PrinbeeConnection.current_step h hsafe
    · exact (PrinbeeConnection.follows_step h event).1

end Runs

/-- A daemon is announced twice; and the daemon and the proxy move to another address. -/
theorem not_follows :
    (¬ ∀ events, Run.Always (fun s => Follows s.state.connections s.announced)
        (Announced.step (NodeClients.step portAddresses ⟨"c", 9⟩)
          (NodeEvent.announcement portAddresses ⟨"c", 9⟩)) ⟨{}, fun _ => none⟩ events) ∧
      (¬ ∀ events, Run.Always (fun s => Follows s.state.daemonConnections s.announced)
        (Announced.step (DaemonConnections.step portAddresses ⟨"c", 9⟩)
          (ProxyEvent.announcement portAddresses ⟨"c", 9⟩)) ⟨{}, fun _ => none⟩ events) ∧
      ¬ ∀ events, Run.Always (fun s => Follows s.state.connections s.announced)
        (Announced.step (PrinbeeConnection.step portAddresses)
          (ClientEvent.announcement portAddresses)) ⟨{}, fun _ => none⟩ events := by
  refine ⟨fun h => ?_, fun h => ?_, fun h => ?_⟩
  · have hend := (h [.currentStatus ⟨"c", "up", "1", none, "n"⟩,
      .currentStatus ⟨"c", "up", "1", none, "n"⟩]).foldl
    exact absurd hend.1 (by decide)
  · have hend := (h [.currentStatus ⟨"c", "up", none, "1", "n"⟩,
      .currentStatus ⟨"c", "up", none, "22", "n"⟩]).foldl
    exact absurd (hend.2 ("n", 1) (by decide)) (by decide)
  · have hend := (h [.messenger true true true, .proxyCurrentStatus "up" "1",
      .proxyCurrentStatus "up" "22"]).foldl
    exact absurd (hend.2 ((), 1) (by decide)) (by decide)

end Prinbee
