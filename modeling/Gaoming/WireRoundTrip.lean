import Gaoming.MetricCodec

/-!
# The wire codec on Go's own values

`toProtoPushMetricBatchRequest` and `fromProtoPushMetricBatchRequest` once more, on values that
keep apart what `MetricCodec` does not: a nil slice or map and an empty one, strings that need
not be UTF-8, a time's zone and monotonic reading, and timestamps as seconds and nanoseconds.
Decoding what was encoded gives a normal form of the request. Forgetting the
differences leads back to `MetricCodec`.
-/

namespace Gaoming
namespace Native

/-- A Go string. -/
abbrev Bytes := List UInt8

/-- A slice, which may be nil. -/
abbrev Slice (α : Type) := Option (List α)

/-- A `map[string]string`, which may be nil. -/
abbrev BytesMap := Option (Std.ExtTreeMap Bytes Bytes)

/-- A `time.Time`: the instant, the zone it is shown in (none for UTC), and the monotonic
reading that `time.Now` adds. -/
structure GoTime where
  instant : Time
  zone : Option Bytes := none
  monotonic : Option ℤ := none
  deriving DecidableEq

def GoTime.utc (t : GoTime) : GoTime := { instant := t.instant }

structure HostIdentity where
  hostUID : Bytes
  tenantCode : Bytes
  hostname : Bytes
  primaryIP : Bytes
  ips : Slice Bytes
  osType : Bytes
  arch : Bytes
  region : Bytes
  az : Bytes
  env : Bytes
  role : Bytes
  labels : BytesMap

structure AgentMetadata where
  agentID : Bytes
  version : Bytes
  capabilities : Slice Bytes
  bootTime : GoTime

structure MetricPoint where
  name : Bytes
  value : Float
  ts : GoTime
  labels : BytesMap

structure CollectorStatus where
  name : Bytes
  state : Int32
  metricNames : Slice Bytes
  durationMicros : Int64
  timedOut : Bool

structure PushMetricBatchRequest where
  hostUID : Bytes
  agentID : Bytes
  batchSeq : Int64
  collectedAt : GoTime
  host : HostIdentity
  agent : AgentMetadata
  points : Slice MetricPoint
  collectors : Slice CollectorStatus
  digest : AgentDigest

-- The messages. Pointers to messages may be nil.

namespace Pb

structure Timestamp where
  seconds : ℤ
  nanos : ℤ

structure HostIdentity where
  hostUid : Bytes := []
  hostname : Bytes := []
  primaryIp : Bytes := []
  ips : Slice Bytes := none
  osType : Bytes := []
  arch : Bytes := []
  region : Bytes := []
  az : Bytes := []
  env : Bytes := []
  role : Bytes := []
  labels : BytesMap := none
  tenantCode : Bytes := []

structure AgentMetadata where
  agentId : Bytes := []
  version : Bytes := []
  capabilities : Slice Bytes := none
  bootTime : Option Timestamp := none

structure MetricPoint where
  name : Bytes := []
  value : Float := 0
  ts : Option Timestamp := none
  labels : BytesMap := none

structure CollectorStatus where
  name : Bytes := []
  state : Int32 := 0
  metricNames : Slice Bytes := none
  durationMicros : Int64 := 0
  timedOut : Bool := false

structure AgentDigest where
  cpuUsagePct : Float := 0
  memUsedPct : Float := 0
  memAvailableBytes : Int64 := 0
  swapUsedPct : Float := 0
  diskUsedPct : Float := 0
  diskFreeBytes : Int64 := 0
  diskInodesUsedPct : Float := 0
  diskReadBps : Int64 := 0
  diskWriteBps : Int64 := 0
  diskReadIops : Int64 := 0
  diskWriteIops : Int64 := 0
  load1 : Float := 0
  netRxBps : Int64 := 0
  netTxBps : Int64 := 0
  netRxPacketsPs : Int64 := 0
  netTxPacketsPs : Int64 := 0
  queueDepth : Int64 := 0
  lastMetricBatchSeq : Int64 := 0

structure PushMetricBatchRequest where
  hostUid : Bytes := []
  agentId : Bytes := []
  batchSeq : Int64 := 0
  collectedAt : Option Timestamp := none
  host : Option HostIdentity := none
  agent : Option AgentMetadata := none
  points : Slice (Option MetricPoint) := none
  collectors : Slice (Option CollectorStatus) := none
  digest : Option AgentDigest := none

end Pb

/-- From the zero time to 1970. -/
def unixEpoch : Time := 62135596800 * second

/-- `timestamppb.New`: whole seconds since 1970, rounded down, and the rest. -/
def Pb.Timestamp.new (t : GoTime) : Pb.Timestamp where
  seconds := (t.instant - unixEpoch) / second
  nanos := (t.instant - unixEpoch) % second

def Pb.Timestamp.asTime (ts : Pb.Timestamp) : GoTime where
  instant := unixEpoch + ts.seconds * second + ts.nanos

def asTime (ts : Option Pb.Timestamp) : GoTime :=
  match ts with
  | none => { instant := 0 }
  | some ts => ts.asTime

/-- `append([]string(nil), values...)`. -/
def appendToNil (values : Slice Bytes) : Slice Bytes :=
  match values with
  | none | some [] => none
  | some (x :: xs) => some (x :: xs)

def cloneStringMap (input : BytesMap) : BytesMap :=
  match input with
  | none => none
  | some m =>
    if m.isEmpty then none
    else some (m.toList.foldl (fun out entry => out.insert entry.1 entry.2) ∅)

/-- `make([]T, 0, len(values))` and an append for each element. -/
def collect {α β : Type} (f : α → β) (values : Slice α) : Slice β := some ((values.getD []).map f)

def toProtoPushMetricBatchRequest (req : PushMetricBatchRequest) : Pb.PushMetricBatchRequest where
  hostUid := req.hostUID
  agentId := req.agentID
  batchSeq := req.batchSeq
  collectedAt := some (.new req.collectedAt)
  host := some {
    hostUid := req.host.hostUID
    hostname := req.host.hostname
    primaryIp := req.host.primaryIP
    ips := appendToNil req.host.ips
    osType := req.host.osType
    arch := req.host.arch
    region := req.host.region
    az := req.host.az
    env := req.host.env
    role := req.host.role
    labels := cloneStringMap req.host.labels
    tenantCode := req.host.tenantCode }
  agent := some {
    agentId := req.agent.agentID
    version := req.agent.version
    capabilities := appendToNil req.agent.capabilities
    bootTime := some (.new req.agent.bootTime) }
  points := collect (fun point => some {
    name := point.name
    value := point.value
    ts := some (.new point.ts)
    labels := cloneStringMap point.labels }) req.points
  collectors := collect (fun collector => some {
    name := collector.name
    state := collector.state
    metricNames := appendToNil collector.metricNames
    durationMicros := collector.durationMicros
    timedOut := collector.timedOut }) req.collectors
  digest := some {
    cpuUsagePct := req.digest.cpuUsagePct
    memUsedPct := req.digest.memUsedPct
    memAvailableBytes := req.digest.memAvailableBytes
    swapUsedPct := req.digest.swapUsedPct
    diskUsedPct := req.digest.diskUsedPct
    diskFreeBytes := req.digest.diskFreeBytes
    diskInodesUsedPct := req.digest.diskInodesUsedPct
    diskReadBps := req.digest.diskReadBPS
    diskWriteBps := req.digest.diskWriteBPS
    diskReadIops := req.digest.diskReadIOPS
    diskWriteIops := req.digest.diskWriteIOPS
    load1 := req.digest.load1
    netRxBps := req.digest.netRxBPS
    netTxBps := req.digest.netTxBPS
    netRxPacketsPs := req.digest.netRxPacketsPS
    netTxPacketsPs := req.digest.netTxPacketsPS
    queueDepth := req.digest.queueDepth
    lastMetricBatchSeq := req.digest.lastMetricBatchSeq }

/-- The outer identifier, or the nested one where it is empty. -/
def firstSet (outer nested : Bytes) : Bytes := if outer = [] then nested else outer

/-- The getters of a nil message return zero values, as those of an empty one do. -/
def fromProtoPushMetricBatchRequest (req : Pb.PushMetricBatchRequest) : PushMetricBatchRequest :=
  let host := req.host.getD {}
  let agent := req.agent.getD {}
  { hostUID := firstSet req.hostUid host.hostUid
    agentID := firstSet req.agentId agent.agentId
    batchSeq := req.batchSeq
    collectedAt := asTime req.collectedAt
    host := {
      hostUID := host.hostUid
      tenantCode := host.tenantCode
      hostname := host.hostname
      primaryIP := host.primaryIp
      ips := appendToNil host.ips
      osType := host.osType
      arch := host.arch
      region := host.region
      az := host.az
      env := host.env
      role := host.role
      labels := cloneStringMap host.labels }
    agent := {
      agentID := agent.agentId
      version := agent.version
      capabilities := appendToNil agent.capabilities
      bootTime := asTime agent.bootTime }
    points := collect (fun message =>
      let point := message.getD {}
      { name := point.name
        value := point.value
        ts := asTime point.ts
        labels := cloneStringMap point.labels }) req.points
    collectors := collect (fun message =>
      let collector := message.getD {}
      { name := collector.name
        state := collector.state
        metricNames := appendToNil collector.metricNames
        durationMicros := collector.durationMicros
        timedOut := collector.timedOut }) req.collectors
    digest := {} }

/-- A slice or a map without elements becomes nil. -/
def nonemptySlice (values : Slice Bytes) : Slice Bytes := values.filter fun l => !l.isEmpty

def nonemptyMap (m : BytesMap) : BytesMap := m.filter fun m => !m.isEmpty

/-- What a request is on the other side: no digest, the identifiers filled in from the nested
records, times in UTC, empty slices and maps in one form. Every other field is as it was. -/
def PushMetricBatchRequest.normalise (r : PushMetricBatchRequest) : PushMetricBatchRequest :=
  { r with
    hostUID := if r.hostUID.isEmpty then r.host.hostUID else r.hostUID
    agentID := if r.agentID.isEmpty then r.agent.agentID else r.agentID
    collectedAt := r.collectedAt.utc
    host := { r.host with ips := nonemptySlice r.host.ips, labels := nonemptyMap r.host.labels }
    agent := { r.agent with
      capabilities := nonemptySlice r.agent.capabilities, bootTime := r.agent.bootTime.utc }
    points := some ((r.points.getD []).map fun p =>
      { p with ts := p.ts.utc, labels := nonemptyMap p.labels })
    collectors := some ((r.collectors.getD []).map fun c =>
      { c with metricNames := nonemptySlice c.metricNames })
    digest := {} }

theorem asTime_new (t : GoTime) : asTime (some (.new t)) = t.utc := by
  have hsplit := Int.ediv_mul_add_emod (t.instant - unixEpoch) second
  have hinstant : unixEpoch + (t.instant - unixEpoch) / second * second +
      (t.instant - unixEpoch) % second = t.instant := by
    rw [add_assoc, hsplit, add_sub_cancel]
  simp only [asTime, Pb.Timestamp.asTime, Pb.Timestamp.new, GoTime.utc, hinstant]

theorem appendToNil_eq (values : Slice Bytes) : appendToNil values = nonemptySlice values := by
  match values with
  | none | some [] | some (x :: xs) => rfl

theorem foldl_insert_toList (m : Std.ExtTreeMap Bytes Bytes) :
    m.toList.foldl (fun out entry => out.insert entry.1 entry.2) ∅ = m := by
  have hmany : ∀ (l : List (Bytes × Bytes)) (start : Std.ExtTreeMap Bytes Bytes),
      l.foldl (fun out entry => out.insert entry.1 entry.2) start = start.insertMany l := by
    intro l
    induction l with
    | nil => exact fun start => Std.ExtTreeMap.insertMany_nil.symm
    | cons entry l ih =>
      intro start
      rw [List.foldl_cons, ih, Std.ExtTreeMap.insertMany_cons]
  rw [hmany, ← Std.ExtTreeMap.ofList_eq_insertMany_empty]
  refine Std.ExtTreeMap.ext_getElem? fun k => ?_
  cases hk : m[k]? with
  | some v =>
    exact Std.ExtTreeMap.getElem?_ofList_of_mem Std.ReflCmp.compare_self
      Std.ExtTreeMap.distinct_keys_toList (Std.ExtTreeMap.mem_toList_iff_getElem?_eq_some.mpr hk)
  | none =>
    refine Std.ExtTreeMap.getElem?_ofList_of_contains_eq_false ?_
    rw [← Bool.not_eq_true, List.contains_iff_mem, List.mem_map]
    rintro ⟨⟨k', v⟩, hmem, rfl⟩
    rw [Std.ExtTreeMap.mem_toList_iff_getElem?_eq_some, hk] at hmem
    cases hmem

theorem cloneStringMap_eq (m : BytesMap) : cloneStringMap m = nonemptyMap m := by
  cases m with
  | none => rfl
  | some m =>
    rw [cloneStringMap, foldl_insert_toList, nonemptyMap, Option.filter_some]
    cases m.isEmpty <;> rfl

theorem nonemptySlice_idem (values : Slice Bytes) :
    nonemptySlice (nonemptySlice values) = nonemptySlice values := by
  match values with
  | none | some [] | some (x :: xs) => rfl

theorem nonemptyMap_idem (m : BytesMap) : nonemptyMap (nonemptyMap m) = nonemptyMap m := by
  simp [nonemptyMap, Option.filter_filter]

theorem firstSet_eq (outer nested : Bytes) :
    firstSet outer nested = if outer.isEmpty then nested else outer := by
  cases outer <;> rfl

theorem fromProto_toProto (r : PushMetricBatchRequest) :
    fromProtoPushMetricBatchRequest (toProtoPushMetricBatchRequest r) = r.normalise := by
  simp only [fromProtoPushMetricBatchRequest, toProtoPushMetricBatchRequest, collect, firstSet_eq,
    Option.getD_some, asTime_new, appendToNil_eq, cloneStringMap_eq, nonemptySlice_idem,
    nonemptyMap_idem, List.map_map, PushMetricBatchRequest.normalise, Function.comp_def]

theorem normalise_idem (r : PushMetricBatchRequest) : r.normalise.normalise = r.normalise := by
  cases hhost : r.hostUID.isEmpty <;> cases hagent : r.agentID.isEmpty <;>
    simp [PushMetricBatchRequest.normalise, nonemptySlice_idem, nonemptyMap_idem, GoTime.utc,
      Function.comp_def, hhost, hagent]

/-- What the server decodes is the normal form of what the agent encoded, and another round
changes nothing. -/
theorem wire_roundtrip (r : PushMetricBatchRequest) :
    fromProtoPushMetricBatchRequest (toProtoPushMetricBatchRequest r) = r.normalise ∧
    fromProtoPushMetricBatchRequest (toProtoPushMetricBatchRequest
      (fromProtoPushMetricBatchRequest (toProtoPushMetricBatchRequest r))) =
      fromProtoPushMetricBatchRequest (toProtoPushMetricBatchRequest r) := by
  refine ⟨fromProto_toProto r, ?_⟩
  rw [fromProto_toProto, fromProto_toProto, normalise_idem]

def bytes (s : String) : Bytes := s.toUTF8.data.toList

def slice (l : List String) : Slice Bytes := if l = [] then none else some (l.map bytes)

def bytesMap (m : StringMap) : BytesMap :=
  if m.isEmpty then none
  else some (Std.ExtTreeMap.ofList (m.toList.map fun entry => (bytes entry.1, bytes entry.2)))

def utcTime (t : Time) : GoTime := { instant := t }

end Native

open Native

def HostIdentity.native (h : HostIdentity) : Native.HostIdentity where
  hostUID := bytes h.hostUID
  tenantCode := bytes h.tenantCode
  hostname := bytes h.hostname
  primaryIP := bytes h.primaryIP
  ips := slice h.ips
  osType := bytes h.osType
  arch := bytes h.arch
  region := bytes h.region
  az := bytes h.az
  env := bytes h.env
  role := bytes h.role
  labels := bytesMap h.labels

def AgentMetadata.native (a : AgentMetadata) : Native.AgentMetadata where
  agentID := bytes a.agentID
  version := bytes a.version
  capabilities := slice a.capabilities
  bootTime := utcTime a.bootTime

def MetricPoint.native (p : MetricPoint) : Native.MetricPoint where
  name := bytes p.name
  value := p.value
  ts := utcTime p.ts
  labels := bytesMap p.labels

def CollectorStatus.native (c : CollectorStatus) : Native.CollectorStatus where
  name := bytes c.name
  state := c.state
  metricNames := slice c.metricNames
  durationMicros := c.durationMicros
  timedOut := c.timedOut

/-- A request of `MetricCodec`, as the server's decoder would build it. -/
def PushMetricBatchRequest.native (r : PushMetricBatchRequest) : Native.PushMetricBatchRequest where
  hostUID := bytes r.hostUID
  agentID := bytes r.agentID
  batchSeq := r.batchSeq
  collectedAt := utcTime r.collectedAt
  host := r.host.native
  agent := r.agent.native
  points := some (r.points.map MetricPoint.native)
  collectors := some (r.collectors.map CollectorStatus.native)
  digest := r.digest

def AgentDigest.native (d : AgentDigest) : Pb.AgentDigest where
  cpuUsagePct := d.cpuUsagePct
  memUsedPct := d.memUsedPct
  memAvailableBytes := d.memAvailableBytes
  swapUsedPct := d.swapUsedPct
  diskUsedPct := d.diskUsedPct
  diskFreeBytes := d.diskFreeBytes
  diskInodesUsedPct := d.diskInodesUsedPct
  diskReadBps := d.diskReadBPS
  diskWriteBps := d.diskWriteBPS
  diskReadIops := d.diskReadIOPS
  diskWriteIops := d.diskWriteIOPS
  load1 := d.load1
  netRxBps := d.netRxBPS
  netTxBps := d.netTxBPS
  netRxPacketsPs := d.netRxPacketsPS
  netTxPacketsPs := d.netTxPacketsPS
  queueDepth := d.queueDepth
  lastMetricBatchSeq := d.lastMetricBatchSeq

def Wire.HostIdentity.native (h : Wire.HostIdentity) : Pb.HostIdentity where
  hostUid := bytes h.hostUid
  hostname := bytes h.hostname
  primaryIp := bytes h.primaryIp
  ips := slice h.ips
  osType := bytes h.osType
  arch := bytes h.arch
  region := bytes h.region
  az := bytes h.az
  env := bytes h.env
  role := bytes h.role
  labels := bytesMap h.labels
  tenantCode := bytes h.tenantCode

def Wire.AgentMetadata.native (a : Wire.AgentMetadata) : Pb.AgentMetadata where
  agentId := bytes a.agentId
  version := bytes a.version
  capabilities := slice a.capabilities
  bootTime := a.bootTime.map fun t => .new (utcTime t)

def Wire.MetricPoint.native (p : Wire.MetricPoint) : Pb.MetricPoint where
  name := bytes p.name
  value := p.value
  ts := p.ts.map fun t => .new (utcTime t)
  labels := bytesMap p.labels

def CollectorStatus.message (c : CollectorStatus) : Pb.CollectorStatus where
  name := bytes c.name
  state := c.state
  metricNames := slice c.metricNames
  durationMicros := c.durationMicros
  timedOut := c.timedOut

def Wire.PushMetricBatchRequest.native (m : Wire.PushMetricBatchRequest) :
    Pb.PushMetricBatchRequest where
  hostUid := bytes m.hostUid
  agentId := bytes m.agentId
  batchSeq := m.batchSeq
  collectedAt := m.collectedAt.map fun t => .new (utcTime t)
  host := m.host.map Wire.HostIdentity.native
  agent := m.agent.map Wire.AgentMetadata.native
  points := some (m.points.map fun p => some p.native)
  collectors := some (m.collectors.map fun c => some c.message)
  digest := m.digest.map AgentDigest.native

namespace Native

theorem nonemptySlice_slice (l : List String) : nonemptySlice (slice l) = slice l := by
  cases l with
  | nil => rfl
  | cons s l => rfl

theorem nonemptyMap_bytesMap (m : StringMap) : nonemptyMap (bytesMap m) = bytesMap m := by
  unfold bytesMap
  split_ifs with h
  · rfl
  · rw [nonemptyMap, Option.filter_some, if_pos]
    rw [Bool.not_eq_true', ← Bool.not_eq_true, Std.ExtTreeMap.isEmpty_iff,
      Std.ExtTreeMap.ofList_eq_empty_iff, List.map_eq_nil_iff, Std.ExtTreeMap.toList_eq_nil_iff]
    exact fun hm => h (Std.ExtTreeMap.isEmpty_iff.mpr hm)

theorem bytes_eq_nil_iff (s : String) : bytes s = [] ↔ s = "" := by
  constructor
  · intro h
    have hsize : s.toUTF8.size = 0 := by
      rw [ByteArray.size, Array.toList_eq_nil_iff.mp h]
      rfl
    simpa using hsize
  · rintro rfl
    rfl

theorem firstSet_bytes (outer nested : String) :
    firstSet (bytes outer) (bytes nested) = bytes (orElse outer nested) := by
  unfold firstSet orElse
  by_cases h : outer = ""
  · rw [if_pos ((bytes_eq_nil_iff outer).mpr h), if_pos h]
  · rw [if_neg fun hnil => h ((bytes_eq_nil_iff outer).mp hnil), if_neg h]

theorem toProto_native (r : Gaoming.PushMetricBatchRequest) :
    toProtoPushMetricBatchRequest r.native = (Gaoming.toProtoPushMetricBatchRequest r).native := by
  simp only [toProtoPushMetricBatchRequest, Gaoming.toProtoPushMetricBatchRequest, collect,
    PushMetricBatchRequest.native, Wire.PushMetricBatchRequest.native, HostIdentity.native,
    Wire.HostIdentity.native, AgentMetadata.native, Wire.AgentMetadata.native, MetricPoint.native,
    Wire.MetricPoint.native, CollectorStatus.native, CollectorStatus.message, AgentDigest.native,
    appendToNil_eq, cloneStringMap_eq, nonemptySlice_slice, nonemptyMap_bytesMap, Option.map_some,
    Option.getD_some, List.map_map, Function.comp_def]

theorem asTime_native (ts : Option Time) :
    asTime (ts.map fun t => .new (utcTime t)) = utcTime (Gaoming.asTime ts) := by
  cases ts with
  | none => rfl
  | some t => exact asTime_new (utcTime t)

theorem fromProto_native (m : Wire.PushMetricBatchRequest) :
    fromProtoPushMetricBatchRequest m.native =
      (Gaoming.fromProtoPushMetricBatchRequest m).native := by
  have hhost : (m.host.map Wire.HostIdentity.native).getD {} = (m.host.getD {}).native := by
    cases m.host <;> rfl
  have hagent : (m.agent.map Wire.AgentMetadata.native).getD {} = (m.agent.getD {}).native := by
    cases m.agent <;> rfl
  simp only [fromProtoPushMetricBatchRequest, Gaoming.fromProtoPushMetricBatchRequest, collect,
    Wire.PushMetricBatchRequest.native, hhost, hagent, PushMetricBatchRequest.native,
    Wire.HostIdentity.native, Wire.AgentMetadata.native, Wire.MetricPoint.native,
    fromProtoHostIdentity, fromProtoAgentMetadata, HostIdentity.native, AgentMetadata.native,
    MetricPoint.native, CollectorStatus.message, appendToNil_eq, cloneStringMap_eq,
    nonemptySlice_slice, nonemptyMap_bytesMap, asTime_native, firstSet_bytes, Option.getD_some,
    List.map_map, Function.comp_def]
  rfl

end Native
end Gaoming
