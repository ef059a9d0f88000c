import Gaoming.HostStoreTenants
import Gaoming.FloatInteger
import Gaoming.Principals

/-!
# The read side of the master

The host list, the single host, the latest metrics and the host stream, from the
principal to the value that is handed to the JSON encoder. The generated
`request_id` of an error is left out, and a JSON array that is filled from a map
iteration is a multiset.
-/

namespace Gaoming
open Relational Transaction

inductive MetricKey
  | cpuUsagePct
  | memUsedPct
  | memAvailableBytes
  | swapUsedPct
  | diskUsedPct
  | diskFreeBytes
  | diskInodesUsedPct
  | diskReadBPS
  | diskWriteBPS
  | diskReadIOPS
  | diskWriteIOPS
  | load1
  | netRxBPS
  | netTxBPS
  | netRxPacketsPS
  | netTxPacketsPS
  deriving DecidableEq, Repr

def MetricKey.text : MetricKey → String
  | .cpuUsagePct => "cpu_usage_pct"
  | .memUsedPct => "mem_used_pct"
  | .memAvailableBytes => "mem_available_bytes"
  | .swapUsedPct => "swap_used_pct"
  | .diskUsedPct => "disk_used_pct"
  | .diskFreeBytes => "disk_free_bytes"
  | .diskInodesUsedPct => "disk_inodes_used_pct"
  | .diskReadBPS => "disk_read_bps"
  | .diskWriteBPS => "disk_write_bps"
  | .diskReadIOPS => "disk_read_iops"
  | .diskWriteIOPS => "disk_write_iops"
  | .load1 => "load1"
  | .netRxBPS => "net_rx_bps"
  | .netTxBPS => "net_tx_bps"
  | .netRxPacketsPS => "net_rx_packets_ps"
  | .netTxPacketsPS => "net_tx_packets_ps"

def metricKeys : List MetricKey :=
  [.cpuUsagePct, .memUsedPct, .memAvailableBytes, .swapUsedPct, .diskUsedPct, .diskFreeBytes,
    .diskInodesUsedPct, .diskReadBPS, .diskWriteBPS, .diskReadIOPS, .diskWriteIOPS, .load1,
    .netRxBPS, .netTxBPS, .netRxPacketsPS, .netTxPacketsPS]

/-- The map of `DigestMetricValues`, which `latestMetricPointsFromSnapshot` writes out again. -/
def SummaryMetrics.value (m : SummaryMetrics) : MetricKey → Float
  | .cpuUsagePct => m.cpuUsagePct
  | .memUsedPct => m.memUsedPct
  | .memAvailableBytes => FloatInteger.ofInt64 m.memAvailableBytes
  | .swapUsedPct => m.swapUsedPct
  | .diskUsedPct => m.diskUsedPct
  | .diskFreeBytes => FloatInteger.ofInt64 m.diskFreeBytes
  | .diskInodesUsedPct => m.diskInodesUsedPct
  | .diskReadBPS => FloatInteger.ofInt64 m.diskReadBPS
  | .diskWriteBPS => FloatInteger.ofInt64 m.diskWriteBPS
  | .diskReadIOPS => FloatInteger.ofInt64 m.diskReadIOPS
  | .diskWriteIOPS => FloatInteger.ofInt64 m.diskWriteIOPS
  | .load1 => m.load1
  | .netRxBPS => FloatInteger.ofInt64 m.netRxBPS
  | .netTxBPS => FloatInteger.ofInt64 m.netTxBPS
  | .netRxPacketsPS => FloatInteger.ofInt64 m.netRxPacketsPS
  | .netTxPacketsPS => FloatInteger.ofInt64 m.netTxPacketsPS

def digestMetricValues (digest : AgentDigest) : MetricKey → Float := digest.toSummaryMetrics.value

def digestFromSnapshot (h : HostSnapshot) : AgentDigest :=
  { toSummaryMetrics := h.toSummaryMetrics }

/-- `state.MetricPoint`. -/
structure HistoryPoint where
  ts : Time
  value : Float
  deriving DecidableEq

abbrev MetricHistory := MetricKey → Option (List HistoryPoint)

def MetricHistory.isEmpty (history : MetricHistory) : Bool :=
  metricKeys.all fun key => (history key).isNone

/-- The lists of the window, newest first, and the last batch, by host UID. -/
structure MetricWindow where
  lists : String → MetricKey → List HistoryPoint := fun _ _ => []
  snapshots : String → Option MetricSnapshot := fun _ => none

namespace MetricWindow

def getHostMetricHistory (m : MetricWindow) (hostUID : String) : MetricHistory := fun key =>
  match (m.lists hostUID key).reverse with
  | [] => none
  | points => some points

def getAllHostMetricHistory (m : MetricWindow) (hostUIDs : List String) :
    Std.ExtTreeMap String MetricHistory :=
  hostUIDs.foldl (fun result hostUID =>
    let history := m.getHostMetricHistory hostUID
    if history.isEmpty then result else result.insert hostUID history) ∅

end MetricWindow

/-- What the reads of one request see. -/
structure ReadState where
  db : Database
  consistent : db.Consistent
  window : MetricWindow := {}

inductive ReadError
  | unauthorized
  | forbidden
  | notFound
  | missingHostUID
  | store (e : StoreError)
  deriving DecidableEq

def validReader (p : Principal) : Bool :=
  p.tenantCode ≠ "" && (p.isUser ||
    ((p.kind = .share || p.kind = .demo) && !p.allowedHosts.isEmpty && !p.fields.isEmpty))

def readHosts (σ : ReadState) (p : Principal) : Except ReadError (List HostSnapshot) :=
  if !validReader p then .error .unauthorized
  else
    match (listHosts "" p.tenantCode).run σ.db with
    | .error e => .error (.store e)
    | .ok (items, _) => .ok (items.filter fun item => p.allowsHost item.tenantCode item.hostUID)

def readHost (σ : ReadState) (p : Principal) (uid : String) :
    Except ReadError (Option HostSnapshot) :=
  if !validReader p then .error .unauthorized
  else if !p.allowsHost p.tenantCode uid then .ok none
  else
    match (getHostByUID uid p.tenantCode).run σ.db with
    | .error e => .error (.store e)
    | .ok (none, _) => .ok none
    | .ok (some host, _) =>
      if !p.allowsHost host.tenantCode host.hostUID then .ok none else .ok (some host)

inductive FieldValue
  | text (value : String)
  | code (value : Code)
  | time (value : Time)
  | count (value : Int64)
  | number (value : Float)
  deriving DecidableEq

abbrev FieldMap := Std.ExtTreeMap String FieldValue

/-- The result of `ProjectHost`: the snapshot, or a map from JSON names. -/
inductive HostView
  | full (host : HostSnapshot)
  | shared (view : FieldMap)

def insertStatus (host : HostSnapshot) (view : FieldMap) : FieldMap :=
  view.insert "agent_state" (.code host.agentState)
    |>.insert "reachability_state" (.code host.reachabilityState)
    |>.insert "service_state" (.code host.serviceState)
    |>.insert "overall_state" (.code host.overallState)
    |>.insert "last_agent_seen_at" (.time host.lastAgentSeenAt)
    |>.insert "last_probe_at" (.time host.lastProbeAt)
    |>.insert "open_alert_count" (.count host.openAlertCount)
    |>.insert "version" (.count host.version)

def insertMetrics (host : HostSnapshot) (view : FieldMap) : FieldMap :=
  metricKeys.foldl (fun view key =>
      view.insert key.text (.number (digestMetricValues (digestFromSnapshot host) key)))
    (view.insert "last_metric_at" (.time host.lastMetricAt))

def projectHost (p : Principal) (host : HostSnapshot) : HostView :=
  if p.isUser then .full host
  else
    let view := (∅ : FieldMap).insert "host_uid" (.text host.hostUID)
    let view :=
      if p.allowsField "hostname" then view.insert "hostname" (.text host.hostname) else view
    let view := if p.allowsField "status" then insertStatus host view else view
    .shared <|
      if p.allowsField "metrics" && !Time.isZero host.lastMetricAt then insertMetrics host view
      else view

def projectHosts (p : Principal) (hosts : List HostSnapshot) : List HostView :=
  hosts.map (projectHost p)

inductive Response (α : Type)
  | ok (body : α)
  /-- `gin.H{"error": …}`. -/
  | plain (status : ℕ) (error : String)
  | failed (status : ℕ) (code message : String)

def Response.map {α β : Type} (f : α → β) : Response α → Response β
  | .ok body => .ok (f body)
  | .plain status error => .plain status error
  | .failed status code message => .failed status code message

def writeError {α : Type} : ReadError → Response α
  | .unauthorized => .failed 401 "unauthorized" "unauthorized"
  | .forbidden => .failed 403 "forbidden" "forbidden"
  | .notFound => .failed 404 "not_found" "resource not found"
  | .store .database => .failed 500 "internal_error" "storage unavailable"
  | .missingHostUID => .failed 400 "invalid_request" "missing host uid"
  | .store .hostNotFound => .failed 400 "invalid_request" "host not found"
  | .store .tenantNotFound => .failed 400 "invalid_request" "tenant not found"

def handleListHosts (σ : ReadState) (p : Principal) : Response (List HostView) :=
  match readHosts σ p with
  | .error e => writeError e
  | .ok items => .ok (projectHosts p items)

def handleGetHost (σ : ReadState) (p : Principal) (param : String) : Response HostView :=
  if trimSpace param = "" then writeError .missingHostUID
  else
    match readHost σ p (trimSpace param) with
    | .error e => writeError e
    | .ok none => .plain 404 "host not found"
    | .ok (some host) => .ok (projectHost p host)

def latestMetricPointsFromSnapshot (snapshot : HostSnapshot) : Option (MetricKey → HistoryPoint) :=
  if Time.isZero snapshot.lastMetricAt then none
  else some fun key => ⟨snapshot.lastMetricAt, snapshot.toSummaryMetrics.value key⟩

def latestMetricPointsByHost (items : List HostSnapshot) :
    Option (Std.ExtTreeMap String (MetricKey → HistoryPoint)) :=
  let latest := items.foldl (fun latest item =>
    match latestMetricPointsFromSnapshot item with
    | none => latest
    | some points => latest.insert item.hostUID points) ∅
  if latest.isEmpty then none else some latest

/-- The `contracts.MetricSnapshot` of the public endpoint. -/
structure SummarySnapshot where
  collectedAt : Time
  points : Multiset MetricPoint

def handlePublicLatestMetrics (σ : ReadState) (p : Principal) (param : String) :
    Response (Option SummarySnapshot) :=
  if !p.allowsField "metrics" then writeError .forbidden
  else
    match readHost σ p (trimSpace param) with
    | .error e => writeError e
    | .ok none => writeError .notFound
    | .ok (some host) =>
      match latestMetricPointsFromSnapshot host with
      | none => .ok none
      | some latest => .ok (some {
          collectedAt := host.lastMetricAt
          points := Multiset.ofList <| metricKeys.map fun key =>
            { name := key.text, value := (latest key).value, ts := (latest key).ts } })

/-- The endpoint behind a session, for the tenant of its user. -/
def handleGetLatestMetricSnapshot (σ : ReadState) (tenantCode param : String) :
    Response (Option MetricSnapshot) :=
  if trimSpace param = "" then writeError .missingHostUID
  else if tenantCode = "" then .failed 400 "invalid_request" "missing tenant"
  else
    match (getHostByUID (trimSpace param) tenantCode).run σ.db with
    | .error _ => .plain 500 "failed to verify host"
    | .ok (none, _) => .plain 404 "host not found"
    | .ok (some _, _) => .ok (σ.window.snapshots (trimSpace param))

structure SyncBody where
  items : List HostView
  histories : Option (Std.ExtTreeMap String MetricHistory)
  latest : Option (Std.ExtTreeMap String (MetricKey → HistoryPoint))

structure SyncPayload extends SyncBody where
  serverTime : Time

structure UpsertBody where
  item : HostView
  latest : Option (MetricKey → HistoryPoint)

structure UpsertPayload extends UpsertBody where
  serverTime : Time

inductive HostEventType
  | upsert
  | delete
  | other (name : String)
  deriving DecidableEq

structure HostEvent where
  type : HostEventType
  hostUID : String
  snapshot : Option HostSnapshot := none
  deriving DecidableEq

/-- What one round of the `select` finds; `access` is the answer of `recheckReadAccess`. -/
inductive StreamInput
  | done
  | recheck (access : Bool)
  | update (event : HostEvent) (now : Time) (access : Bool)
  | keepAlive

def hostUIDsFromSnapshots (items : List HostSnapshot) : List String :=
  (items.map HostSnapshot.hostUID).filter (· ≠ "")

/-- The loop over the items of the sync, by their UIDs. -/
def filterHistories (histories : Std.ExtTreeMap String MetricHistory) (hostUIDs : List String) :
    Std.ExtTreeMap String MetricHistory :=
  hostUIDs.foldl (fun filtered hostUID =>
    match histories[hostUID]? with
    | none => filtered
    | some history => filtered.insert hostUID fun key =>
        if metricKeys.contains key then history key else none) ∅

def syncHistories (σ : ReadState) (p : Principal) (items : List HostSnapshot) :
    Option (Std.ExtTreeMap String MetricHistory) :=
  if p.allowsField "metrics" && !items.isEmpty then
    some (filterHistories (σ.window.getAllHostMetricHistory (hostUIDsFromSnapshots items))
      (items.map HostSnapshot.hostUID))
  else none

def upsertPayload (p : Principal) (snapshot : HostSnapshot) (now : Time) : UpsertPayload where
  item := projectHost p snapshot
  latest := if p.allowsField "metrics" then latestMetricPointsFromSnapshot snapshot else none
  serverTime := now

/-- The payloads of the `host_upsert` events. -/
def streamUpdates (p : Principal) : List StreamInput → List UpsertPayload
  | [] | .done :: _ => []
  | .keepAlive :: rest => streamUpdates p rest
  | .recheck access :: rest => if !access then [] else streamUpdates p rest
  | .update event now access :: rest =>
    if !access then []
    else
      match event.type, event.snapshot with
      | .upsert, some snapshot =>
        if !p.allowsHost snapshot.tenantCode snapshot.hostUID then streamUpdates p rest
        else upsertPayload p snapshot now :: streamUpdates p rest
      -- Deletions carry no tenant and are dropped.
      | _, _ => streamUpdates p rest

def handleHostStream (σ : ReadState) (p : Principal) (access : Bool) (now : Time)
    (inputs : List StreamInput) : Response (SyncPayload × List UpsertPayload) :=
  match readHosts σ p with
  | .error _ => .plain 500 "host state unavailable"
  | .ok items =>
    if !access then writeError .unauthorized
    else .ok ({
      items := projectHosts p items
      histories := syncHistories σ p items
      latest := if p.allowsField "metrics" then latestMetricPointsByHost items else none
      serverTime := now }, streamUpdates p inputs)

end Gaoming
