import Mathlib
import Prinbee.Basic

/-!
# The state as JSON

`state.cpp`: the status of the journals, of the proxy and of the cluster, and the details of each
daemon, as a text that is sent to other systems.  `to_json()` puts the date and the statuses in the
member `prinbee` and the daemons beside it; `from_json()` looks for all of them at the root.

The reader and the writer of JSON and the text of a date belong to other libraries: `JsonLibrary`
gives them.

## Main definitions

* `Json`, `JsonLibrary` — a value, and its text.
* `nameOf`, `statusOf` — a status and its name, by the table of its type.
* `ClusterDetail`, `State` — `cluster_detail` and `state`.
* `State.toJson`, `State.fromJson` — the two functions.
* `State.Restores` — a new state reads what this one writes.

## Main results

* `statusOf_nameOf` — a status is known by its name.
* `State.restores_iff` — only a state whose selected statuses and date are the initial ones is
  read back, whatever its daemons are.
-/

namespace Prinbee

/-! ### JSON -/

/-- `as2js::json::json_value`. -/
inductive Json
  | null
  | string (value : String)
  | integer (value : ℤ)
  | array (elements : List Json)
  | object (members : List (String × Json))

/-- `find()` on the members of an object. -/
def Json.find (members : List (String × Json)) (name : String) : Option Json := members.lookup name

/-- The texts of a value and of a date, in nanoseconds, which can be read again. -/
structure JsonLibrary (Text : Type) where
  toText : Json → Text
  parse : Text → Except Failure Json
  dateToString : ℤ → String
  dateFromString : String → Except Failure ℤ
  parse_toText : ∀ value, parse (toText value) = .ok value
  dateFromString_dateToString : ∀ date, dateFromString (dateToString date) = .ok date

/-! ### Statuses -/

/-- `daemon_status_t`. -/
inductive DaemonStatus
  | unknown
  | healthy
  | full
  | error
  deriving DecidableEq, Repr

/-- `journal_status_t`. -/
inductive JournalStatus
  | unknown
  | off
  | healthy
  | full
  | error
  deriving DecidableEq, Repr

/-- `proxy_status_t`. -/
inductive ProxyStatus
  | unknown
  | notConnected
  | connecting
  | connected
  | noFirewall
  | daemon
  | cluster
  | complete
  | error
  deriving DecidableEq, Repr

/-- `cluster_status_t`. -/
inductive ClusterStatus
  | unknown
  | notConnected
  | connected
  | quorum
  | complete
  deriving DecidableEq, Repr

/-- `g_daemon_status_names`. -/
def daemonStatusNames : List (DaemonStatus × String) :=
  [(.unknown, "unknown"), (.healthy, "healthy"), (.full, "full"), (.error, "error")]

/-- `g_journal_status_names`. -/
def journalStatusNames : List (JournalStatus × String) :=
  [(.unknown, "unknown"), (.off, "off"), (.healthy, "healthy"), (.full, "full"), (.error, "error")]

/-- `g_proxy_status_names`. -/
def proxyStatusNames : List (ProxyStatus × String) :=
  [(.unknown, "unknown"), (.notConnected, "not-connected"), (.connecting, "connecting"),
    (.connected, "connected"), (.noFirewall, "no-firewall"), (.daemon, "daemon"),
    (.cluster, "cluster"), (.complete, "complete"), (.error, "error")]

/-- `g_cluster_status_names`. -/
def clusterStatusNames : List (ClusterStatus × String) :=
  [(.unknown, "unknown"), (.notConnected, "not-connected"), (.connected, "connected"),
    (.quorum, "quorum"), (.complete, "complete")]

section

variable {Status : Type} [DecidableEq Status]

/-- `to_string()` of a status: the first entry of its table. -/
def nameOf (names : List (Status × String)) (status : Status) : String :=
  match names.find? (·.1 = status) with
  | some entry => entry.2
  | none => ""

/-- `string_to_daemon_status()` and the others: the first entry with the name. -/
def statusOf (names : List (Status × String)) (unknown : Status) (name : String) : Status :=
  match names.find? (·.2 = name) with
  | some entry => entry.1
  | none => unknown

/-- **A status is known by its name**, when the table has it and no name twice. -/
theorem statusOf_nameOf {names : List (Status × String)} {unknown status : Status}
    (hnodup : (names.map Prod.snd).Nodup) (hmem : status ∈ names.map Prod.fst) :
    statusOf names unknown (nameOf names status) = status := by
  obtain ⟨entry, hentry, hstatus⟩ := List.mem_map.1 hmem
  cases hfind : names.find? (·.1 = status) with
  | none => exact absurd (decide_eq_true hstatus) (List.find?_eq_none.1 hfind entry hentry)
  | some found =>
    have hfound : found.1 = status := by
      have h := List.find?_some hfind
      exact of_decide_eq_true h
    have hname : nameOf names status = found.2 := by rw [nameOf, hfind]
    rw [hname, statusOf]
    cases hback : names.find? (·.2 = found.2) with
    | none =>
      have h := List.find?_eq_none.1 hback found (List.mem_of_find?_eq_some hfind)
      exact absurd (decide_eq_true rfl) h
    | some back =>
      -- an entry is known by its name
      have hsame : back.2 = found.2 := by
        have h := List.find?_some hback
        exact of_decide_eq_true h
      have heq := List.inj_on_of_nodup_map hnodup (List.mem_of_find?_eq_some hback)
        (List.mem_of_find?_eq_some hfind) hsame
      rw [heq]
      exact hfound

end

/-- A string up to its first null character. -/
def cString (value : String) : String := String.ofList (value.toList.takeWhile (· ≠ Char.ofNat 0))

/-- A status that is read; another type of value is ignored. -/
def readStatus {Status : Type} (names : List (Status × String)) (unknown : Status)
    (value : Option Json) (current : Status) : Status :=
  match value with
  | some (.string name) => statusOf names unknown (cString name)
  | _ => current

/-! ### The details of a daemon -/

/-- `cluster_detail`; 255 is `DISK_PERCENT_UNKNOWN`. -/
structure ClusterDetail where
  name : String := ""
  daemonStatus : DaemonStatus := .unknown
  diskUsed : UInt8 := 255
  deriving DecidableEq, Repr

namespace ClusterDetail

/-- `cluster_detail::to_json()`. -/
def toJson (d : ClusterDetail) : Json :=
  .object [("name", .string d.name),
    ("daemon_status", .string (nameOf daemonStatusNames d.daemonStatus)),
    ("disk_used", if d.diskUsed = 255 then .string "unknown" else .integer d.diskUsed.toNat)]

/-- `f_disk_used`; an integer is cut to 8 bits. -/
def readDiskUsed (value : Option Json) (current : UInt8) : UInt8 :=
  match value with
  | some (.string text) => if text = "unknown" then 255 else current
  | some (.integer used) => UInt8.ofNat (used % 256).toNat
  | _ => current

/-- `cluster_detail::from_json()`. -/
def fromJson (d : ClusterDetail) : Json → ClusterDetail
  | .object values =>
    { name := match Json.find values "name" with
        | some (.string name) => name
        | _ => d.name
      daemonStatus := readStatus daemonStatusNames .unknown (Json.find values "daemon_status")
        d.daemonStatus
      diskUsed := readDiskUsed (Json.find values "disk_used") d.diskUsed }
  | _ => d

/-- **The details of a daemon are read back.** -/
theorem fromJson_toJson (d d' : ClusterDetail) : d'.fromJson d.toJson = d := by
  have hstatus : readStatus daemonStatusNames .unknown
      (some (.string (nameOf daemonStatusNames d.daemonStatus))) d'.daemonStatus =
        d.daemonStatus := by
    have hname : cString (nameOf daemonStatusNames d.daemonStatus) =
        nameOf daemonStatusNames d.daemonStatus := by
      cases d.daemonStatus <;> decide
    rw [readStatus, hname]
    exact statusOf_nameOf (by decide) (by cases d.daemonStatus <;> decide)
  have hdisk : readDiskUsed (some (if d.diskUsed = 255 then .string "unknown"
      else .integer d.diskUsed.toNat)) d'.diskUsed = d.diskUsed := by
    split
    · next hunknown => exact hunknown.symm
    · have hlt := d.diskUsed.toNat_lt
      have hmod : ((d.diskUsed.toNat : ℤ) % 256).toNat = d.diskUsed.toNat := by omega
      rw [readDiskUsed, hmod, UInt8.ofNat_toNat]
  obtain ⟨name, status, used⟩ := d
  exact congrArg₂ (fun status used => (⟨name, status, used⟩ : ClusterDetail)) hstatus hdisk

end ClusterDetail

/-! ### The state -/

/-- `cluster_detail::map_t`. -/
abbrev ClusterDetails := Std.ExtTreeMap String ClusterDetail compare

/-- `state`. -/
structure State where
  lastUpdated : ℤ := 0
  journalApplicationStatus : JournalStatus := .unknown
  journalLocalStatus : JournalStatus := .unknown
  journalRemoteStatus : JournalStatus := .unknown
  proxyStatus : ProxyStatus := .unknown
  clusterStatus : ClusterStatus := .unknown
  clusterDetails : ClusterDetails := ∅

namespace State

/-- The bits of `state_t`. -/
def journalApplication : UInt32 := 0x01

@[inherit_doc journalApplication]
def journalLocal : UInt32 := 0x02

@[inherit_doc journalApplication]
def journalRemote : UInt32 := 0x04

@[inherit_doc journalApplication]
def proxy : UInt32 := 0x08

@[inherit_doc journalApplication]
def cluster : UInt32 := 0x10

@[inherit_doc journalApplication]
def daemons : UInt32 := 0x20

/-- A bit of the list of states is set. -/
def Has (states flag : UInt32) : Prop := states &&& flag ≠ 0

instance (states flag : UInt32) : Decidable (Has states flag) := inferInstanceAs (Decidable (_ ≠ _))

variable {Text : Type} (lib : JsonLibrary Text)

/-- A status that is written when it is selected. -/
def statusMember {Status : Type} [DecidableEq Status] (states flag : UInt32) (field : String)
    (names : List (Status × String)) (status : Status) : List (String × Json) :=
  if Has states flag then [(field, .string (nameOf names status))] else []

/-- The value that `to_json()` makes; an array without elements is not made. -/
def toValue (s : State) (states : UInt32) : Json :=
  let root :=
    [("last_updated", .string (lib.dateToString s.lastUpdated))]
      ++ statusMember states journalApplication "journal_application_status" journalStatusNames
        s.journalApplicationStatus
      ++ statusMember states journalLocal "journal_local_status" journalStatusNames
        s.journalLocalStatus
      ++ statusMember states journalRemote "journal_remote_status" journalStatusNames
        s.journalRemoteStatus
      ++ statusMember states proxy "proxy_status" proxyStatusNames s.proxyStatus
      ++ statusMember states cluster "cluster_status" clusterStatusNames s.clusterStatus
  let details := s.clusterDetails.toList.map fun e => e.2.toJson
  .object (("prinbee", .object root) ::
    if Has states daemons ∧ details ≠ [] then [("daemons", .array details)] else [])

/-- `to_json()`. -/
def toJson (s : State) (states : UInt32) : Text := lib.toText (s.toValue lib states)

/-- A status that is read when it is selected. -/
def statusFrom {Status : Type} (states flag : UInt32) (values : List (String × Json))
    (field : String) (names : List (Status × String)) (unknown current : Status) : Status :=
  if Has states flag then readStatus names unknown (Json.find values field) current else current

/-- The daemons of an array, each under its name. -/
def readDetails (details : ClusterDetails) (value : Option Json) : ClusterDetails :=
  match value with
  | some (.array elements) =>
    elements.foldl (fun details obj =>
      let d := ClusterDetail.fromJson { } obj
      details.insert d.name d) details
  | _ => details

/-- What `from_json()` does with the value that it parsed. -/
def fromValue (s : State) (states : UInt32) : Json → Except Failure State
  | .object values => do
    let lastUpdated ←
      match Json.find values "last_updated" with
      | some (.string date) => lib.dateFromString date
      | _ => .ok s.lastUpdated
    .ok {
      lastUpdated
      journalApplicationStatus := statusFrom states journalApplication values
        "journal_application_status" journalStatusNames .unknown s.journalApplicationStatus
      journalLocalStatus := statusFrom states journalLocal values "journal_local_status"
        journalStatusNames .unknown s.journalLocalStatus
      journalRemoteStatus := statusFrom states journalRemote values "journal_remote_status"
        journalStatusNames .unknown s.journalRemoteStatus
      proxyStatus := statusFrom states proxy values "proxy_status" proxyStatusNames .unknown
        s.proxyStatus
      clusterStatus := statusFrom states cluster values "cluster_status" clusterStatusNames
        .unknown s.clusterStatus
      clusterDetails := if Has states daemons then
          readDetails s.clusterDetails (Json.find values "daemons")
        else s.clusterDetails }
  | _ => .ok s

/-- `from_json()`. -/
def fromJson (s : State) (states : UInt32) (json : Text) : Except Failure State := do
  let value ← lib.parse json
  s.fromValue lib states value

/-- What a new state should read: the date, and what is selected. -/
def selected (s : State) (states : UInt32) : State where
  lastUpdated := s.lastUpdated
  journalApplicationStatus :=
    if Has states journalApplication then s.journalApplicationStatus else .unknown
  journalLocalStatus := if Has states journalLocal then s.journalLocalStatus else .unknown
  journalRemoteStatus := if Has states journalRemote then s.journalRemoteStatus else .unknown
  proxyStatus := if Has states proxy then s.proxyStatus else .unknown
  clusterStatus := if Has states cluster then s.clusterStatus else .unknown
  clusterDetails := if Has states daemons then s.clusterDetails else ∅

/-- **A new state reads what this one writes**: the date and what is selected. -/
def Restores (s : State) (states : UInt32) : Prop :=
  fromJson lib { } states (s.toJson lib states) = .ok (s.selected states)

/-- The date and the selected statuses are the initial ones, and each daemon is under its name. -/
structure Initial (s : State) (states : UInt32) : Prop where
  lastUpdated : s.lastUpdated = 0
  journalApplicationStatus : Has states journalApplication → s.journalApplicationStatus = .unknown
  journalLocalStatus : Has states journalLocal → s.journalLocalStatus = .unknown
  journalRemoteStatus : Has states journalRemote → s.journalRemoteStatus = .unknown
  proxyStatus : Has states proxy → s.proxyStatus = .unknown
  clusterStatus : Has states cluster → s.clusterStatus = .unknown
  clusterDetails : Has states daemons → ∀ e ∈ s.clusterDetails.toList, e.2.name = e.1

/-- The daemons, each under its name. -/
def byName (details : ClusterDetails) : ClusterDetails :=
  details.toList.foldl (fun details e => details.insert e.2.name e.2) ∅

/-- Daemons that were put under their name are there. -/
theorem name_of_mem_foldl {entries : List (String × ClusterDetail)} {details : ClusterDetails}
    (h : ∀ e ∈ details.toList, e.2.name = e.1) :
    ∀ e ∈ (entries.foldl (fun details e => details.insert e.2.name e.2) details).toList,
      e.2.name = e.1 := by
  induction entries generalizing details with
  | nil => exact h
  | cons entry entries ih =>
    apply ih
    intro e he
    rw [Std.ExtTreeMap.mem_toList_iff_getElem?_eq_some, Std.ExtTreeMap.getElem?_insert] at he
    split at he
    · next heq =>
      rw [← Option.some.inj he]
      exact Std.LawfulEqCmp.eq_of_compare heq
    · exact h e (Std.ExtTreeMap.mem_toList_iff_getElem?_eq_some.2 he)

/-- A map is the same under the names when these are its keys. -/
theorem byName_eq_iff (details : ClusterDetails) :
    byName details = details ↔ ∀ e ∈ details.toList, e.2.name = e.1 := by
  constructor
  · intro heq
    rw [← heq]
    exact name_of_mem_foldl (by simp)
  · intro hnames
    have hfold : byName details = Std.ExtTreeMap.ofList details.toList compare := by
      rw [Std.ExtTreeMap.ofList_eq_foldl]
      refine List.foldl_ext _ _ _ fun acc e he => ?_
      rw [hnames e he]
    rw [hfold]
    apply Std.ExtTreeMap.ext_getElem?
    intro name
    cases hfind : details[name]? with
    | some d =>
      have hmem := Std.ExtTreeMap.mem_toList_iff_getElem?_eq_some.2 hfind
      exact Std.ExtTreeMap.getElem?_ofList_of_mem (Std.ReflCmp.compare_self)
        Std.ExtTreeMap.distinct_keys_toList hmem
    | none =>
      refine Std.ExtTreeMap.getElem?_ofList_of_contains_eq_false ?_
      rw [Std.ExtTreeMap.map_fst_toList_eq_keys, Bool.eq_false_iff, Ne, List.contains_iff_mem,
        Std.ExtTreeMap.mem_keys, Std.ExtTreeMap.mem_iff_isSome_getElem?, hfind]
      exact Bool.false_ne_true

/-- The daemons that are read from the array that was written. -/
theorem readDetails_written (details : ClusterDetails) :
    readDetails ∅ (if details.toList.map (fun e => e.2.toJson) ≠ [] then
      some (.array (details.toList.map fun e => e.2.toJson)) else none) = byName details := by
  split
  · rw [readDetails, List.foldl_map, byName]
    refine List.foldl_ext _ _ _ fun acc e _ => ?_
    rw [ClusterDetail.fromJson_toJson]
  · next hempty =>
    have hnil := List.map_eq_nil_iff.1 (not_not.1 hempty)
    have hread : readDetails ∅ none = ∅ := rfl
    rw [hread, byName, hnil]
    rfl

/-- The members at the root of what was written. -/
theorem find_written (root details : Json) (c : Prop) [Decidable c] (field : String) :
    Json.find (("prinbee", root) :: if c then [("daemons", details)] else []) field =
      if field = "prinbee" then some root
      else if c ∧ field = "daemons" then some details else none := by
  rw [Json.find]
  by_cases hroot : field = "prinbee"
  · rw [if_pos hroot, hroot]
    rfl
  · have hne : (field == "prinbee") = false := beq_false_of_ne hroot
    rw [if_neg hroot, List.lookup_cons, hne]
    by_cases hc : c
    · by_cases hdaemons : field = "daemons"
      · rw [if_pos hc, if_pos ⟨hc, hdaemons⟩, hdaemons]
        rfl
      · rw [if_pos hc, if_neg (fun hboth => hdaemons hboth.2)]
        simp [hdaemons]
    · rw [if_neg hc, if_neg (fun hboth => hc hboth.1)]
      rfl

/-- A status that is not at the root keeps its value. -/
theorem statusFrom_of_none {Status : Type} {states flag : UInt32} {values : List (String × Json)}
    {field : String} {names : List (Status × String)} {unknown current : Status}
    (hfind : Json.find values field = none) :
    statusFrom states flag values field names unknown current = current := by
  rw [statusFrom, hfind]
  exact ite_self _

/-- **What a new state reads**: only the daemons are where they are looked for. -/
theorem fromJson_toJson (s : State) (states : UInt32) :
    fromJson lib { } states (s.toJson lib states) =
      .ok { clusterDetails := if Has states daemons then byName s.clusterDetails else ∅ } := by
  rw [fromJson, toJson, lib.parse_toText, ok_bind, toValue]
  -- nothing but the two members is at the root
  have hnone : ∀ {field : String}, field ≠ "prinbee" → field ≠ "daemons" →
      ∀ (root details : Json) (c : Prop) [Decidable c],
        Json.find (("prinbee", root) :: if c then [("daemons", details)] else []) field = none := by
    intro field hroot hdaemons root details c hdec
    rw [find_written, if_neg hroot, if_neg fun hboth => hdaemons hboth.2]
  rw [fromValue, hnone (by decide) (by decide)]
  dsimp only
  rw [ok_bind, statusFrom_of_none (hnone (by decide) (by decide) _ _ _),
    statusFrom_of_none (hnone (by decide) (by decide) _ _ _),
    statusFrom_of_none (hnone (by decide) (by decide) _ _ _),
    statusFrom_of_none (hnone (by decide) (by decide) _ _ _),
    statusFrom_of_none (hnone (by decide) (by decide) _ _ _)]
  refine congrArg (fun details => Except.ok (({ clusterDetails := details } : State))) ?_
  by_cases hdaemons : Has states daemons
  · rw [if_pos hdaemons, if_pos hdaemons, find_written, if_neg (by decide),
      ← readDetails_written]
    simp only [hdaemons, true_and, and_true]
  · rw [if_neg hdaemons, if_neg hdaemons]

/-- **Only a state whose date and selected statuses are the initial ones**, and whose daemons are
under their names when they are selected, is read back by a new state. -/
theorem restores_iff (s : State) (states : UInt32) :
    Restores lib s states ↔ Initial s states := by
  have hstatus : ∀ {Status : Type} (flag : UInt32) (status unknown : Status),
      unknown = (if Has states flag then status else unknown) ↔
        (Has states flag → status = unknown) := by
    intro Status flag status unknown
    by_cases hflag : Has states flag
    · rw [if_pos hflag]
      exact ⟨fun heq _ => heq.symm, fun heq => (heq hflag).symm⟩
    · rw [if_neg hflag]
      exact iff_of_true rfl fun h => absurd h hflag
  have hdetails : (if Has states daemons then byName s.clusterDetails else ∅) =
      (if Has states daemons then s.clusterDetails else ∅) ↔
        (Has states daemons → ∀ e ∈ s.clusterDetails.toList, e.2.name = e.1) := by
    rw [← byName_eq_iff]
    by_cases hflag : Has states daemons
    · rw [if_pos hflag, if_pos hflag]
      exact ⟨fun heq _ => heq, fun heq => heq hflag⟩
    · rw [if_neg hflag, if_neg hflag]
      exact iff_of_true rfl fun h => absurd h hflag
  rw [Restores, fromJson_toJson, selected, Except.ok.injEq, State.mk.injEq, hstatus, hstatus,
    hstatus, hstatus, hstatus, hdetails]
  constructor
  · rintro ⟨hdate, happlication, hlocal, hremote, hproxy, hcluster, hdaemons⟩
    exact ⟨hdate.symm, happlication, hlocal, hremote, hproxy, hcluster, hdaemons⟩
  · intro h
    exact ⟨h.lastUpdated.symm, h.journalApplicationStatus, h.journalLocalStatus,
      h.journalRemoteStatus, h.proxyStatus, h.clusterStatus, h.clusterDetails⟩

/-- Values that are their own text, and dates in decimal. -/
def plainLibrary : JsonLibrary Json where
  toText value := value
  parse value := .ok value
  dateToString date := date.repr
  dateFromString text :=
    match text.toInt? with
    | some date => .ok date
    | none => .error (.thrown .invalidParameter "not a date.")
  parse_toText _ := rfl
  dateFromString_dateToString date := by rw [Int.toInt?_repr]

/-- A proxy that is connected: a new state reads that its status is unknown. -/
theorem not_restores : ¬ ∀ (s : State) (states : UInt32), Restores plainLibrary s states := by
  intro h
  have hread := h { proxyStatus := .connected } proxy
  rw [Restores, fromJson_toJson, Except.ok.injEq, selected, State.mk.injEq] at hread
  have hselected : Has proxy proxy := by decide
  rw [if_pos hselected] at hread
  exact absurd hread.2.2.2.2.1 (by decide)

end State

end Prinbee
