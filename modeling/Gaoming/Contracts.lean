import Gaoming.GoRuntime

/-!
# Requests, digests and snapshots

The value types that the agent, the ingest service and the store exchange. The
sixteen summary metrics occur in digests, in status rows and in snapshots under
the same names; they form one structure that the others extend.
-/

namespace Gaoming

structure SummaryMetrics where
  cpuUsagePct : Float := 0
  memUsedPct : Float := 0
  memAvailableBytes : Int64 := 0
  swapUsedPct : Float := 0
  diskUsedPct : Float := 0
  diskFreeBytes : Int64 := 0
  diskInodesUsedPct : Float := 0
  diskReadBPS : Int64 := 0
  diskWriteBPS : Int64 := 0
  diskReadIOPS : Int64 := 0
  diskWriteIOPS : Int64 := 0
  load1 : Float := 0
  netRxBPS : Int64 := 0
  netTxBPS : Int64 := 0
  netRxPacketsPS : Int64 := 0
  netTxPacketsPS : Int64 := 0
  deriving DecidableEq

structure AgentDigest extends SummaryMetrics where
  queueDepth : Int64 := 0
  lastMetricBatchSeq : Int64 := 0
  deriving DecidableEq

structure AgentConfig where
  configVersion : Int64
  heartbeatIntervalSec : Int64
  metricIntervalSec : Int64
  staticLabels : StringMap
  deriving DecidableEq

structure HostIdentity where
  hostUID : String := ""
  tenantCode : String := ""
  hostname : String := ""
  primaryIP : String := ""
  ips : List String := []
  osType : String := ""
  arch : String := ""
  region : String := ""
  az : String := ""
  env : String := ""
  role : String := ""
  labels : StringMap := ∅
  deriving DecidableEq

structure AgentMetadata where
  agentID : String := ""
  version : String := ""
  capabilities : List String := []
  bootTime : Time := 0
  deriving DecidableEq

structure RegisterAgentRequest where
  host : HostIdentity
  agent : AgentMetadata
  deriving DecidableEq

structure HeartbeatRequest where
  hostUID : String
  agentID : String
  seq : Int64
  ts : Time
  digest : AgentDigest
  deriving DecidableEq

structure MetricPoint where
  name : String
  value : Float
  ts : Time := 0
  labels : StringMap := ∅
  deriving DecidableEq

/-- `CollectorState` is an `int32` on the wire; the named states are 0 to 3. -/
abbrev CollectorState := Int32

def CollectorState.unspecified : CollectorState := 0
def CollectorState.available : CollectorState := 1
def CollectorState.unavailable : CollectorState := 2
def CollectorState.degraded : CollectorState := 3

structure CollectorStatus where
  name : String
  state : CollectorState
  metricNames : List String := []
  durationMicros : Int64 := 0
  timedOut : Bool := false
  deriving DecidableEq

structure MetricSnapshot where
  collectedAt : Time
  points : List MetricPoint
  collectors : List CollectorStatus := []
  deriving DecidableEq

structure PushMetricBatchRequest where
  hostUID : String := ""
  agentID : String := ""
  batchSeq : Int64 := 0
  collectedAt : Time := 0
  host : HostIdentity := {}
  agent : AgentMetadata := {}
  points : List MetricPoint := []
  collectors : List CollectorStatus := []
  digest : AgentDigest := {}
  deriving DecidableEq

/-- The states of `pkg/state`. -/
inductive Code
  | unknown
  | up
  | warning
  | critical
  | offline
  | maintenance
  | disabled
  deriving DecidableEq, Repr

structure HostSnapshot extends SummaryMetrics where
  hostUID : String := ""
  tenantCode : String := ""
  hostname : String := ""
  primaryIP : String := ""
  groupID : String := ""
  agentState : Code := .unknown
  reachabilityState : Code := .unknown
  serviceState : Code := .unknown
  overallState : Code := .unknown
  lastAgentSeenAt : Time := 0
  lastMetricAt : Time := 0
  lastProbeAt : Time := 0
  openAlertCount : Int64 := 0
  labels : StringMap := ∅
  version : Int64 := 0
  deriving DecidableEq

end Gaoming
