import Gaoming.HostStoreIdentity
import Gaoming.MetricWindowStore

/-!
# One digest on all read paths

The sixteen summary values are copied by hand from place to place: the digest into
the status row, the row into a snapshot, the snapshot into another digest, and
from there into maps keyed by metric. Elsewhere in this development these records
share their metrics; here each copy is written out as the source has it, shown to
be the copy that the model makes, and followed from `ReportMetrics` to every
reader.
-/

namespace Gaoming
open Relational Transaction

/-- The assignments of `upsertDigestStatus`. -/
def HostStatusRow.assignDigest (statusRow : HostStatusRow) (digest : AgentDigest) :
    HostStatusRow :=
  { statusRow with
    cpuUsagePct := digest.cpuUsagePct
    memUsedPct := digest.memUsedPct
    memAvailableBytes := digest.memAvailableBytes
    swapUsedPct := digest.swapUsedPct
    diskUsedPct := digest.diskUsedPct
    diskFreeBytes := digest.diskFreeBytes
    diskInodesUsedPct := digest.diskInodesUsedPct
    diskReadBPS := digest.diskReadBPS
    diskWriteBPS := digest.diskWriteBPS
    diskReadIOPS := digest.diskReadIOPS
    diskWriteIOPS := digest.diskWriteIOPS
    load1 := digest.load1
    netRxBPS := digest.netRxBPS
    netTxBPS := digest.netTxBPS
    netRxPacketsPS := digest.netRxPacketsPS
    netTxPacketsPS := digest.netTxPacketsPS }

/-- The assignments of `hostSnapshotFromModel`. -/
def HostSnapshot.assignStatus (item : HostSnapshot) (statusRow : HostStatusRow) : HostSnapshot :=
  { item with
    cpuUsagePct := statusRow.cpuUsagePct
    memUsedPct := statusRow.memUsedPct
    memAvailableBytes := statusRow.memAvailableBytes
    swapUsedPct := statusRow.swapUsedPct
    diskUsedPct := statusRow.diskUsedPct
    diskFreeBytes := statusRow.diskFreeBytes
    diskInodesUsedPct := statusRow.diskInodesUsedPct
    diskReadBPS := statusRow.diskReadBPS
    diskWriteBPS := statusRow.diskWriteBPS
    diskReadIOPS := statusRow.diskReadIOPS
    diskWriteIOPS := statusRow.diskWriteIOPS
    load1 := statusRow.load1
    netRxBPS := statusRow.netRxBPS
    netTxBPS := statusRow.netTxBPS
    netRxPacketsPS := statusRow.netRxPacketsPS
    netTxPacketsPS := statusRow.netTxPacketsPS }

/-- The literal of `digestFromSnapshot`. -/
def digestOfSnapshot (h : HostSnapshot) : AgentDigest where
  cpuUsagePct := h.cpuUsagePct
  memUsedPct := h.memUsedPct
  memAvailableBytes := h.memAvailableBytes
  swapUsedPct := h.swapUsedPct
  diskUsedPct := h.diskUsedPct
  diskFreeBytes := h.diskFreeBytes
  diskInodesUsedPct := h.diskInodesUsedPct
  diskReadBPS := h.diskReadBPS
  diskWriteBPS := h.diskWriteBPS
  diskReadIOPS := h.diskReadIOPS
  diskWriteIOPS := h.diskWriteIOPS
  load1 := h.load1
  netRxBPS := h.netRxBPS
  netTxBPS := h.netTxBPS
  netRxPacketsPS := h.netRxPacketsPS
  netTxPacketsPS := h.netTxPacketsPS

/-- The map literal of `DigestMetricValues`. -/
def digestMetricMap (digest : AgentDigest) : List (MetricKey × Float) :=
  [(.cpuUsagePct, digest.cpuUsagePct),
    (.memUsedPct, digest.memUsedPct),
    (.memAvailableBytes, FloatInteger.ofInt64 digest.memAvailableBytes),
    (.swapUsedPct, digest.swapUsedPct),
    (.diskUsedPct, digest.diskUsedPct),
    (.diskFreeBytes, FloatInteger.ofInt64 digest.diskFreeBytes),
    (.diskInodesUsedPct, digest.diskInodesUsedPct),
    (.diskReadBPS, FloatInteger.ofInt64 digest.diskReadBPS),
    (.diskWriteBPS, FloatInteger.ofInt64 digest.diskWriteBPS),
    (.diskReadIOPS, FloatInteger.ofInt64 digest.diskReadIOPS),
    (.diskWriteIOPS, FloatInteger.ofInt64 digest.diskWriteIOPS),
    (.load1, digest.load1),
    (.netRxBPS, FloatInteger.ofInt64 digest.netRxBPS),
    (.netTxBPS, FloatInteger.ofInt64 digest.netTxBPS),
    (.netRxPacketsPS, FloatInteger.ofInt64 digest.netRxPacketsPS),
    (.netTxPacketsPS, FloatInteger.ofInt64 digest.netTxPacketsPS)]

/-- The map literal of `latestMetricPointsFromSnapshot`. -/
def latestMetricPointMap (snapshot : HostSnapshot) : Option (List (MetricKey × HistoryPoint)) :=
  if Time.isZero snapshot.lastMetricAt then none
  else
    let ts := snapshot.lastMetricAt
    some [(.cpuUsagePct, ⟨ts, snapshot.cpuUsagePct⟩),
      (.memUsedPct, ⟨ts, snapshot.memUsedPct⟩),
      (.memAvailableBytes, ⟨ts, FloatInteger.ofInt64 snapshot.memAvailableBytes⟩),
      (.swapUsedPct, ⟨ts, snapshot.swapUsedPct⟩),
      (.diskUsedPct, ⟨ts, snapshot.diskUsedPct⟩),
      (.diskFreeBytes, ⟨ts, FloatInteger.ofInt64 snapshot.diskFreeBytes⟩),
      (.diskInodesUsedPct, ⟨ts, snapshot.diskInodesUsedPct⟩),
      (.diskReadBPS, ⟨ts, FloatInteger.ofInt64 snapshot.diskReadBPS⟩),
      (.diskWriteBPS, ⟨ts, FloatInteger.ofInt64 snapshot.diskWriteBPS⟩),
      (.diskReadIOPS, ⟨ts, FloatInteger.ofInt64 snapshot.diskReadIOPS⟩),
      (.diskWriteIOPS, ⟨ts, FloatInteger.ofInt64 snapshot.diskWriteIOPS⟩),
      (.load1, ⟨ts, snapshot.load1⟩),
      (.netRxBPS, ⟨ts, FloatInteger.ofInt64 snapshot.netRxBPS⟩),
      (.netTxBPS, ⟨ts, FloatInteger.ofInt64 snapshot.netTxBPS⟩),
      (.netRxPacketsPS, ⟨ts, FloatInteger.ofInt64 snapshot.netRxPacketsPS⟩),
      (.netTxPacketsPS, ⟨ts, FloatInteger.ofInt64 snapshot.netTxPacketsPS⟩)]

/-- The fields of `state.HostSnapshot` by their JSON names, integers taken as `float64`. -/
def HostSnapshot.taggedField (h : HostSnapshot) : MetricKey → Float
  | .cpuUsagePct => h.cpuUsagePct
  | .memUsedPct => h.memUsedPct
  | .memAvailableBytes => FloatInteger.ofInt64 h.memAvailableBytes
  | .swapUsedPct => h.swapUsedPct
  | .diskUsedPct => h.diskUsedPct
  | .diskFreeBytes => FloatInteger.ofInt64 h.diskFreeBytes
  | .diskInodesUsedPct => h.diskInodesUsedPct
  | .diskReadBPS => FloatInteger.ofInt64 h.diskReadBPS
  | .diskWriteBPS => FloatInteger.ofInt64 h.diskWriteBPS
  | .diskReadIOPS => FloatInteger.ofInt64 h.diskReadIOPS
  | .diskWriteIOPS => FloatInteger.ofInt64 h.diskWriteIOPS
  | .load1 => h.load1
  | .netRxBPS => FloatInteger.ofInt64 h.netRxBPS
  | .netTxBPS => FloatInteger.ofInt64 h.netTxBPS
  | .netRxPacketsPS => FloatInteger.ofInt64 h.netRxPacketsPS
  | .netTxPacketsPS => FloatInteger.ofInt64 h.netTxPacketsPS

theorem assignDigest_eq (statusRow : HostStatusRow) (digest : AgentDigest) :
    statusRow.assignDigest digest =
      { statusRow with toSummaryMetrics := digest.toSummaryMetrics } :=
  rfl

theorem assignStatus_eq (item : HostSnapshot) (statusRow : HostStatusRow) :
    item.assignStatus statusRow = { item with toSummaryMetrics := statusRow.toSummaryMetrics } :=
  rfl

theorem digestOfSnapshot_eq (h : HostSnapshot) : digestOfSnapshot h = digestFromSnapshot h := rfl

theorem taggedField_eq (h : HostSnapshot) : h.taggedField = h.toSummaryMetrics.value := by
  funext key
  cases key <;> rfl

theorem digestMetricMap_eq (digest : AgentDigest) :
    digestMetricMap digest = metricKeys.map fun key => (key, digestMetricValues digest key) := rfl

theorem latestMetricPointMap_eq (snapshot : HostSnapshot) :
    latestMetricPointMap snapshot = (latestMetricPointsFromSnapshot snapshot).map fun points =>
      metricKeys.map fun key => (key, points key) := by
  unfold latestMetricPointMap latestMetricPointsFromSnapshot
  split_ifs <;> rfl

theorem Store.upsertDigestStatus_eq (s : Store) (d : Draws) (hostID : Serial)
    (digest : AgentDigest) (now : Time) :
    s.upsertDigestStatus d hostID digest now = (do
      let found ← findHostStatus hostID
      let statusRow : HostStatusRow :=
        { (found.getD (.initial hostID)).assignDigest digest with
          agentState := .up, overallState := .up
          lastAgentSeenAt := some now, lastMetricAt := some now, updatedAt := now }
      if statusRow.version = 0 then insertHostStatus s.columns { statusRow with version := 1 }
      else saveHostStatus s.columns { statusRow with
        version := statusRow.version + 1, updatedAt := d.clock }) := rfl

theorem hostSnapshotFromModel_eq (host : HostRow) (tenant : Option TenantRow)
    (row : HostStatusRow) (labels : List HostLabelRow) :
    hostSnapshotFromModel host tenant (some row) labels =
      { (hostSnapshotFromModel host tenant none labels).assignStatus row with
        agentState := row.agentState, reachabilityState := row.reachabilityState
        serviceState := row.serviceState, overallState := row.overallState
        openAlertCount := row.openAlertCount, version := row.version
        lastAgentSeenAt := row.lastAgentSeenAt.getD 0, lastMetricAt := row.lastMetricAt.getD 0
        lastProbeAt := row.lastProbeAt.getD 0 } := rfl

theorem insertMetrics_eq (host : HostSnapshot) (view : FieldMap) :
    insertMetrics host view = (digestMetricMap (digestOfSnapshot host)).foldl
      (fun view entry => view.insert entry.1.text (.number entry.2))
      (view.insert "last_metric_at" (.time host.lastMetricAt)) := rfl

@[simp] theorem digestMetricMap_lookup (digest : AgentDigest) (key : MetricKey) :
    (digestMetricMap digest).lookup key = some (digest.toSummaryMetrics.value key) := by
  rw [digestMetricMap_eq, lookup_metricKeys]
  rfl

/-- The floating-point values of a view by their JSON name. A full view is the snapshot itself,
so its names are those of the struct tags, and its integers are taken as numbers of JSON. -/
def HostView.number : HostView → String → Option Float
  | .full host, name => (metricKeys.find? fun key => key.text = name).map host.taggedField
  | .shared view, name =>
    match view[name]? with
    | some (.number x) => some x
    | _ => none

def HostView.metricTime : HostView → Option Time
  | .full host => some host.lastMetricAt
  | .shared view =>
    match view["last_metric_at"]? with
    | some (.time t) => some t
    | _ => none

section Views
variable {keys : List MetricKey} {f : MetricKey → Float} {view : FieldMap}

theorem getElem?_insertNumbers_of_ne {n : String} (h : ∀ key ∈ keys, key.text ≠ n) :
    (keys.foldl (fun view key => view.insert key.text (.number (f key))) view)[n]? =
      view[n]? := by
  induction keys generalizing view with
  | nil => rfl
  | cons key keys ih =>
    rw [List.foldl_cons, ih fun k hk => h k (List.mem_cons_of_mem _ hk),
      Std.ExtTreeMap.getElem?_insert, if_neg]
    simpa using h key List.mem_cons_self

theorem getElem?_insertNumbers_of_mem {key : MetricKey} (hkey : key ∈ keys) :
    (keys.foldl (fun view key => view.insert key.text (.number (f key))) view)[key.text]? =
      some (.number (f key)) := by
  induction keys generalizing view with
  | nil => cases hkey
  | cons k keys ih =>
    by_cases hmem : key ∈ keys
    · exact ih hmem
    · have hk : key = k := (List.mem_cons.mp hkey).resolve_right hmem
      rw [List.foldl_cons, getElem?_insertNumbers_of_ne, hk, Std.ExtTreeMap.getElem?_insert_self]
      intro x hx htext
      exact hmem (text_injective htext ▸ hx)

def NoNumbers (view : FieldMap) : Prop :=
  ∀ (name : String) (x : Float), view[name]? ≠ some (FieldValue.number x)

theorem NoNumbers.insert (h : NoNumbers view) (name : String) {v : FieldValue}
    (hv : ∀ x, v ≠ .number x) : NoNumbers (view.insert name v) := by
  intro n x hx
  rw [Std.ExtTreeMap.getElem?_insert] at hx
  split_ifs at hx
  · exact hv x (Option.some.inj hx)
  · exact h n x hx

theorem noNumbers_empty : NoNumbers ∅ := by simp [NoNumbers]

theorem NoNumbers.insertStatus (h : NoNumbers view) (host : HostSnapshot) :
    NoNumbers (insertStatus host view) := by
  unfold Gaoming.insertStatus
  refine NoNumbers.insert (.insert (.insert (.insert (.insert (.insert (.insert
    (.insert h _ ?_) _ ?_) _ ?_) _ ?_) _ ?_) _ ?_) _ ?_) _ ?_ <;> simp

theorem number_insertMetrics (h : NoNumbers view) (host : HostSnapshot) (name : String)
    (x : Float) :
    (HostView.shared (insertMetrics host view)).number name = some x ↔
      ∃ key ∈ metricKeys, key.text = name ∧ host.toSummaryMetrics.value key = x := by
  by_cases hname : ∃ key : MetricKey, key.text = name
  · obtain ⟨key, rfl⟩ := hname
    have hget : (insertMetrics host view)[key.text]? =
        some (.number (host.toSummaryMetrics.value key)) :=
      getElem?_insertNumbers_of_mem (mem_metricKeys key)
    simp only [HostView.number, hget, Option.some.injEq]
    constructor
    · intro hx
      exact ⟨key, mem_metricKeys key, rfl, hx⟩
    · rintro ⟨k, -, hk, hx⟩
      rw [← text_injective hk, hx]
  · have hne : ∀ key ∈ metricKeys, key.text ≠ name := fun key _ hkey => hname ⟨key, hkey⟩
    have hget : (insertMetrics host view)[name]? =
        (view.insert "last_metric_at" (.time host.lastMetricAt))[name]? :=
      getElem?_insertNumbers_of_ne hne
    have hnone := (h.insert "last_metric_at" (v := .time host.lastMetricAt) (by simp)) name
    constructor
    · intro hx
      simp only [HostView.number, hget, reduceCtorEq] at hx
    · rintro ⟨key, -, hkey, -⟩
      exact absurd ⟨key, hkey⟩ hname

theorem metricTime_insertMetrics (host : HostSnapshot) :
    (HostView.shared (insertMetrics host view)).metricTime = some host.lastMetricAt := by
  have hget : (insertMetrics host view)["last_metric_at"]? = some (.time host.lastMetricAt) := by
    refine (getElem?_insertNumbers_of_ne (n := "last_metric_at") ?_).trans
      Std.ExtTreeMap.getElem?_insert_self
    intro key _
    cases key <;> decide
  simp only [HostView.metricTime, hget]

theorem find?_metricKeys (key : MetricKey) :
    metricKeys.find? (fun k => k.text = key.text) = some key := by
  cases key <;> rfl

theorem projectHost_shared {p : Principal} (hp : p.allowsField "metrics" = true)
    (huser : p.isUser ≠ true) {host : HostSnapshot}
    (hat : Time.isZero host.lastMetricAt = false) :
    ∃ view, NoNumbers view ∧ projectHost p host = .shared (insertMetrics host view) := by
  rw [projectHost, if_neg huser]
  dsimp only
  rw [if_pos (by simp [hp, hat])]
  refine ⟨_, ?_, rfl⟩
  have huid : NoNumbers ((∅ : FieldMap).insert "host_uid" (.text host.hostUID)) :=
    noNumbers_empty.insert _ (by simp)
  have hname := huid.insert "hostname" (v := .text host.hostname) (by simp)
  split_ifs
  · exact hname.insertStatus host
  · exact huid.insertStatus host
  · exact hname
  · exact huid

theorem projectHost_numbers {p : Principal} (hp : p.allowsField "metrics" = true)
    {host : HostSnapshot} (hat : Time.isZero host.lastMetricAt = false) :
    (projectHost p host).metricTime = some host.lastMetricAt ∧
      ∀ name x, (projectHost p host).number name = some x ↔
        ∃ key ∈ metricKeys, key.text = name ∧ host.toSummaryMetrics.value key = x := by
  by_cases huser : p.isUser = true
  · rw [projectHost, if_pos huser]
    refine ⟨rfl, fun name x => ?_⟩
    simp only [HostView.number, Option.map_eq_some_iff, taggedField_eq]
    constructor
    · rintro ⟨key, hkey, hx⟩
      exact ⟨key, mem_metricKeys key, by simpa using List.find?_some hkey, hx⟩
    · rintro ⟨key, -, rfl, hx⟩
      exact ⟨key, find?_metricKeys key, hx⟩
  · obtain ⟨view, hview, hproject⟩ := projectHost_shared hp huser hat
    rw [hproject]
    exact ⟨metricTime_insertMetrics host, number_insertMetrics hview host⟩

end Views

section History
variable {w : MetricWindowStore} {json : Json}

theorem newest_of_append (order : KeyOrder) (hostUID : String) (now : Time)
    (digest : AgentDigest) (calls : List WindowCall)
    (hok : (w.appendHeartbeatMetrics json order hostUID now digest
      (w.run json (fun _ => none) calls)).2 = none) :
    ∃ history, w.getHostMetricHistory json hostUID
        (w.appendHeartbeatMetrics json order hostUID now digest
          (w.run json (fun _ => none) calls)).1 = .ok history ∧
      ∀ key, (history key).bind List.getLast? =
        some ⟨now, digest.toSummaryMetrics.value key⟩ := by
  have hrep := run_represents calls (represents_empty w json)
  obtain ⟨hnext, hencodable⟩ := call_represents (.append order hostUID now digest) hrep
  refine ⟨_, hnext.getHostMetricHistory hostUID, fun key => ?_⟩
  obtain ⟨n, hn⟩ := Nat.exists_eq_add_one_of_ne_zero w.positive.ne'
  -- the point is the head of the list, which is read from its end
  have hhead : ((calls.foldl (MetricWindow.step w.maxPoints json) {}).step w.maxPoints json
      (.append order hostUID now digest)).lists hostUID key =
      ⟨now, digestMetricValues digest key⟩ ::
        ((calls.foldl (MetricWindow.step w.maxPoints json) {}).lists hostUID key).take n := by
    change ((WindowCall.appended json hostUID key _).toList ++ _).take _ = _
    rw [WindowCall.appended, if_pos ⟨rfl, hencodable.mp hok⟩, hn]
    rfl
  rw [MetricWindow.getHostMetricHistory, hhead, List.reverse_cons]
  simp [digestMetricValues]

end History

/-- The sixteen values of a digest, stamped with the time of the report, on every path: the
map of `DigestMetricValues`, the latest points, the views of all who may see metrics, and the
newest points of the history. Of a full view, which is the snapshot, this says that its fields
convert to the values of the digest; which names a view has is in question for shared ones. -/
structure ReadPathsAgree (digest : AgentDigest) (now : Time) (hostUID : String)
    (snapshot : HostSnapshot) : Prop where
  digestKeys : (digestMetricMap digest).map Prod.fst = metricKeys
  latest : ∃ points, latestMetricPointMap snapshot = some points ∧
    points.map Prod.fst = metricKeys ∧
    ∀ key, points.lookup key = ((digestMetricMap digest).lookup key).map (HistoryPoint.mk now)
  projected : ∀ p : Principal, p.allowsField "metrics" = true →
    (projectHost p snapshot).metricTime = some now ∧
    ∀ name x, (projectHost p snapshot).number name = some x ↔
      ∃ key ∈ metricKeys, key.text = name ∧ (digestMetricMap digest).lookup key = some x
  history : ∀ (w : MetricWindowStore) (json : Json) (order : KeyOrder) (calls : List WindowCall),
    (w.appendHeartbeatMetrics json order hostUID now digest
      (w.run json (fun _ => none) calls)).2 = none →
    ∃ history, w.getHostMetricHistory json hostUID
        (w.appendHeartbeatMetrics json order hostUID now digest
          (w.run json (fun _ => none) calls)).1 = .ok history ∧
      ∀ key, (history key).bind List.getLast? =
        ((digestMetricMap digest).lookup key).map (HistoryPoint.mk now)

theorem readPathsAgree_iff {digest : AgentDigest} {now : Time} {hostUID : String}
    {snapshot : HostSnapshot} (hnow : Time.isZero now = false) :
    ReadPathsAgree digest now hostUID snapshot ↔
      snapshot.toSummaryMetrics.value = digest.toSummaryMetrics.value ∧
        snapshot.lastMetricAt = now := by
  constructor
  · rintro ⟨-, ⟨points, hpoints, -, hlookup⟩, -, -⟩
    rw [latestMetricPointMap_eq, latestMetricPointsFromSnapshot] at hpoints
    split_ifs at hpoints
    · cases hpoints
    obtain rfl := Option.some.inj hpoints
    have hpoint : ∀ key, (⟨snapshot.lastMetricAt, snapshot.toSummaryMetrics.value key⟩ :
        HistoryPoint) = ⟨now, digest.toSummaryMetrics.value key⟩ := by
      intro key
      have hkey := hlookup key
      rw [lookup_metricKeys, digestMetricMap_lookup] at hkey
      exact Option.some.inj hkey
    exact ⟨funext fun key => congrArg HistoryPoint.value (hpoint key),
      congrArg HistoryPoint.ts (hpoint .load1)⟩
  · rintro ⟨hvalues, hat⟩
    have hzero : Time.isZero snapshot.lastMetricAt = false := hat ▸ hnow
    refine ⟨rfl, ?_, fun p hp => ?_, fun w json order calls hok => ?_⟩
    · rw [latestMetricPointMap_eq, latestMetricPointsFromSnapshot, hzero]
      refine ⟨_, rfl, rfl, fun key => ?_⟩
      rw [lookup_metricKeys, digestMetricMap_lookup, hat, hvalues]
      rfl
    · obtain ⟨htime, hnumbers⟩ := projectHost_numbers hp hzero
      refine ⟨htime.trans (congrArg some hat), fun name x => ?_⟩
      simp only [hnumbers, hvalues, digestMetricMap_lookup, Option.some.injEq]
    · simpa only [digestMetricMap_lookup, Option.map_some] using
        newest_of_append order hostUID now digest calls hok

/-- The host with this UID already has the digest's values, stamped with the same time. -/
def Database.ReportedBefore (db : Database) (hostUID : String) (digest : AgentDigest)
    (now : Time) : Prop :=
  ∃ g ∈ db.hosts.rows, g.hostUID = hostUID ∧
    ∃ r, db.hostStatusCurrent.get? g.id = some r ∧
      r.toSummaryMetrics.value = digest.toSummaryMetrics.value ∧ r.lastMetricAt = some now

section Report
variable {s : Store} {d : Draws} {req : PushMetricBatchRequest} {digest : AgentDigest}
  {now : Time} {db db' : Database} {snapshot : HostSnapshot}

theorem values_of_no_status {g : HostRow} (hnow : Time.isZero now = false)
    (h : (db.snapshotOf g).lastMetricAt = now) :
    ∃ r, db.hostStatusCurrent.get? g.id = some r := by
  cases hr : db.hostStatusCurrent.get? g.id with
  | some r => exact ⟨r, rfl⟩
  | none =>
    have hzero : (db.snapshotOf g).lastMetricAt = 0 := by
      simp [Database.snapshotOf, hostSnapshotFromModel, hr]
    rw [← h, hzero] at hnow
    cases hnow

theorem snapshotOf_reported_iff {g : HostRow} (hnow : Time.isZero now = false) :
    ((db.snapshotOf g).toSummaryMetrics.value = digest.toSummaryMetrics.value ∧
      (db.snapshotOf g).lastMetricAt = now) ↔
      ∃ r, db.hostStatusCurrent.get? g.id = some r ∧
        r.toSummaryMetrics.value = digest.toSummaryMetrics.value ∧ r.lastMetricAt = some now := by
  constructor
  · rintro ⟨hvalues, hat⟩
    obtain ⟨r, hr⟩ := values_of_no_status hnow hat
    obtain ⟨hsum, hlast⟩ := snapshotOf_status hr
    refine ⟨r, hr, hsum ▸ hvalues, ?_⟩
    rw [hlast] at hat
    cases hm : r.lastMetricAt with
    | some t =>
      rw [hm] at hat
      exact congrArg some hat
    | none =>
      rw [hm] at hat
      subst hat
      cases hnow
  · rintro ⟨r, hr, hvalues, hat⟩
    obtain ⟨hsum, hlast⟩ := snapshotOf_status hr
    exact ⟨by rw [hsum, hvalues], by rw [hlast, hat, Option.getD_some]⟩

/-- After a report of an unknown agent under a UID with white space around it, the snapshot read
back is that of another host, as it was. -/
theorem snapshot_unchanged {uid : String} {g : HostRow} (hconf : ConfinedTo uid db db')
    (hg : g ∈ db'.hosts.rows) (hguid : g.hostUID ≠ uid) :
    g ∈ db.hosts.rows ∧ db'.hostStatusCurrent.get? g.id = db.hostStatusCurrent.get? g.id := by
  refine ⟨(hconf.hosts g hguid).mp hg, hconf.hostStatus g.id ?_⟩
  rintro ⟨g', hg', hid, huid⟩
  have hgg : g' = g := db'.hosts.eq_of_key_eq hg' hg hid
  exact hguid (hgg ▸ huid)

/-- For a batch whose identities agree, all read paths show its digest exactly when the batch
was filed under the UID it names, or that host showed the same before. -/
theorem read_paths_agree_iff (hc : db.Consistent) (hnow : Time.isZero now = false)
    (hexact : digest.toSummaryMetrics.stored s.columns = some digest.toSummaryMetrics)
    (hstamp : timestamptz now = now)
    (hhost : req.hostUID ≠ "") (_hagent : req.agentID ≠ "")
    (hhosts : req.host.hostUID = req.hostUID) (_hagents : req.agent.agentID = req.agentID)
    (h : (s.reportMetrics d req digest now).transact db = (.ok snapshot, db')) :
    ReadPathsAgree digest now req.hostUID snapshot ↔
      (∃ g, s.KnownAgent db req.hostUID req.agentID g) ∨ trimSpace req.hostUID = req.hostUID ∨
        db.ReportedBefore req.hostUID digest now := by
  have hrun := Tx.run_of_transact h
  obtain ⟨uid, hostID, hcase, ⟨g, hg, hgid, hguid⟩, hconf, ⟨r, hr, hm, hseen⟩, -⟩ :=
    Store.reportMetrics_target hhost hrun
  obtain ⟨-, -, -, -, -, g', hg', hz, hsnap⟩ := Store.reportMetrics_ok hrun
  have hg'uid : g'.hostUID = req.hostUID := ((zeroOrEq_iff hhost).mp hz).symm
  have huniq := (Store.consistent_reportMetrics hc hrun).hostUID_inj
  rw [readPathsAgree_iff hnow, hsnap, snapshotOf_reported_iff hnow]
  by_cases huid : uid = req.hostUID
  · -- the status row written is that of the host read back
    have hgg : g = g' := huniq g hg g' hg' (hguid.trans (huid.trans hg'uid.symm))
    have hagree : ∃ r, db'.hostStatusCurrent.get? g'.id = some r ∧
        r.toSummaryMetrics.value = digest.toSummaryMetrics.value ∧ r.lastMetricAt = some now := by
      refine ⟨r, by rw [← hgg, hgid, hr], ?_, by rw [hseen, hstamp]⟩
      rw [hexact] at hm
      rw [← Option.some.inj hm]
    refine ⟨fun _ => ?_, fun _ => hagree⟩
    rcases hcase with ⟨hk, -⟩ | ⟨-, hboot⟩
    · exact .inl hk
    · have htrim : (Store.bootstrapRequest req).host.hostUID = trimSpace req.hostUID := by
        simp [Store.bootstrapRequest, orElse, hhosts]
      exact .inr (.inl (htrim.symm.trans (hboot.symm.trans huid)))
  · obtain ⟨hno, hboot⟩ : (¬ ∃ g, s.KnownAgent db req.hostUID req.agentID g) ∧
        uid = (Store.bootstrapRequest req).host.hostUID := by
      rcases hcase with ⟨-, hsame⟩ | hother
      · exact absurd hsame huid
      · exact hother
    have htrim : trimSpace req.hostUID ≠ req.hostUID := by
      intro heq
      refine huid (hboot.trans ?_)
      simp [Store.bootstrapRequest, orElse, hhosts, heq]
    obtain ⟨hbefore, hstatus⟩ := snapshot_unchanged hconf hg'
      (fun heq => huid (heq.symm.trans hg'uid))
    rw [hstatus]
    constructor
    · intro hreported
      exact .inr (.inr ⟨g', hbefore, hg'uid, hreported⟩)
    · rintro (hk | heq | ⟨x, hx, hxuid, hreported⟩)
      · exact absurd hk hno
      · exact absurd heq htrim
      · rwa [← hc.hostUID_inj x hx g' hbefore (hxuid.trans hg'uid.symm)]

end Report

def sampleDigest : AgentDigest := { cpuUsagePct := 12.5, memAvailableBytes := 4096 }

def agreeingBatch (hostUID agentID : String) : PushMetricBatchRequest where
  hostUID := hostUID
  agentID := agentID
  host := { hostUID := hostUID, tenantCode := "acme", primaryIP := "10.0.0.2" }
  agent := { agentID := agentID }

def agreeingReport (hostUID agentID : String) : StoreTx HostSnapshot :=
  sampleStore.reportMetrics (sampleDraws 4) (agreeingBatch hostUID agentID) sampleDigest 3000

theorem read_paths_agree_acme : ∃ snapshot db',
    (agreeingReport "h1" "a9").transact acmeDatabase = (.ok snapshot, db') ∧
      ReadPathsAgree sampleDigest 3000 "h1" snapshot := by
  have hok : ((agreeingReport "h1" "a9").run acmeDatabase).isOk = true := by decide
  cases hr : (agreeingReport "h1" "a9").run acmeDatabase with
  | error e => simp [hr, Except.isOk, Except.toBool] at hok
  | ok out =>
    have hcall : (agreeingReport "h1" "a9").transact acmeDatabase = (.ok out.1, out.2) :=
      Tx.transact_of_ok hr
    have hc : acmeDatabase.Consistent := Store.consistent_call _ _ consistent_sampleStart
    exact ⟨out.1, out.2, hcall, (read_paths_agree_iff hc (by decide) rfl (by decide) (by decide)
      (by decide) rfl rfl hcall).mpr (.inr (.inl (by decide)))⟩

/-- A host registered as ` h1`, beside `h1`. -/
def spacedHostDatabase : Database :=
  (sampleStore.call (sampleRegister 3 " h1" "a1" "acme" 2000) acmeDatabase).2

/-- A second agent of ` h1` reports, twice under that UID: the digest goes to `h1`, and the
snapshot of ` h1` that is read back has never seen a metric. -/
theorem read_paths_miss_spaced_host : ∃ snapshot db',
    (agreeingReport " h1" "a9").transact spacedHostDatabase = (.ok snapshot, db') ∧
      snapshot.lastMetricAt = 0 ∧ ¬ ReadPathsAgree sampleDigest 3000 " h1" snapshot := by
  have hok : ((agreeingReport " h1" "a9").run spacedHostDatabase).isOk = true := by decide
  have hat : ∀ out, (agreeingReport " h1" "a9").run spacedHostDatabase = .ok out →
      out.1.lastMetricAt = 0 := by
    intro out hout
    have hmap : ((agreeingReport " h1" "a9").run spacedHostDatabase).toOption.map
        (fun out => out.1.lastMetricAt) = some 0 := by decide
    rw [hout] at hmap
    exact Option.some.inj hmap
  cases hr : (agreeingReport " h1" "a9").run spacedHostDatabase with
  | error e => simp [hr, Except.isOk, Except.toBool] at hok
  | ok out =>
    refine ⟨out.1, out.2, Tx.transact_of_ok hr, hat out hr, fun hagree => ?_⟩
    have hstamp := ((readPathsAgree_iff (by decide)).mp hagree).2
    rw [hat out hr] at hstamp
    exact absurd hstamp (by decide)

end Gaoming
