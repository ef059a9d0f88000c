import Gaoming.Contracts

/-!
# Metric batches on the wire

The protobuf messages of a metric batch, and the two functions that translate to
and from them: the agent's `toProtoPushMetricBatchRequest` and the server's
`fromProtoPushMetricBatchRequest`. A message field may be absent; its getters
then return zero values. A timestamp message is the instant it denotes.
-/

namespace Gaoming
namespace Wire

structure HostIdentity where
  hostUid : String := ""
  hostname : String := ""
  primaryIp : String := ""
  ips : List String := []
  osType : String := ""
  arch : String := ""
  region : String := ""
  az : String := ""
  env : String := ""
  role : String := ""
  labels : StringMap := ∅
  tenantCode : String := ""
  deriving DecidableEq

structure AgentMetadata where
  agentId : String := ""
  version : String := ""
  capabilities : List String := []
  bootTime : Option Time := none
  deriving DecidableEq

structure MetricPoint where
  name : String := ""
  value : Float := 0
  ts : Option Time := none
  labels : StringMap := ∅
  deriving DecidableEq

structure PushMetricBatchRequest where
  hostUid : String := ""
  agentId : String := ""
  batchSeq : Int64 := 0
  collectedAt : Option Time := none
  host : Option HostIdentity := none
  agent : Option AgentMetadata := none
  points : List MetricPoint := []
  collectors : List CollectorStatus := []
  digest : Option AgentDigest := none
  deriving DecidableEq

end Wire

def asTime (ts : Option Time) : Time := ts.getD 0

def toProtoPushMetricBatchRequest (req : PushMetricBatchRequest) : Wire.PushMetricBatchRequest where
  hostUid := req.hostUID
  agentId := req.agentID
  batchSeq := req.batchSeq
  collectedAt := some req.collectedAt
  host := some {
    hostUid := req.host.hostUID, hostname := req.host.hostname
    primaryIp := req.host.primaryIP, ips := req.host.ips, osType := req.host.osType
    arch := req.host.arch, region := req.host.region, az := req.host.az, env := req.host.env
    role := req.host.role, labels := req.host.labels, tenantCode := req.host.tenantCode }
  agent := some {
    agentId := req.agent.agentID, version := req.agent.version
    capabilities := req.agent.capabilities, bootTime := some req.agent.bootTime }
  points := req.points.map fun p => ⟨p.name, p.value, some p.ts, p.labels⟩
  collectors := req.collectors
  digest := some req.digest

def fromProtoHostIdentity (m : Wire.HostIdentity) : HostIdentity where
  hostUID := m.hostUid
  tenantCode := m.tenantCode
  hostname := m.hostname
  primaryIP := m.primaryIp
  ips := m.ips
  osType := m.osType
  arch := m.arch
  region := m.region
  az := m.az
  env := m.env
  role := m.role
  labels := m.labels

def fromProtoAgentMetadata (m : Wire.AgentMetadata) : AgentMetadata where
  agentID := m.agentId
  version := m.version
  capabilities := m.capabilities
  bootTime := asTime m.bootTime

def fromProtoPushMetricBatchRequest (m : Wire.PushMetricBatchRequest) :
    PushMetricBatchRequest where
  hostUID := orElse m.hostUid (m.host.getD {}).hostUid
  agentID := orElse m.agentId (m.agent.getD {}).agentId
  batchSeq := m.batchSeq
  collectedAt := asTime m.collectedAt
  host := fromProtoHostIdentity (m.host.getD {})
  agent := fromProtoAgentMetadata (m.agent.getD {})
  points := m.points.map fun p => ⟨p.name, p.value, asTime p.ts, p.labels⟩
  collectors := m.collectors

/-- A batch without a host UID has none in its nested host either. -/
theorem fromProto_hostUID_empty {m : Wire.PushMetricBatchRequest}
    (h : (fromProtoPushMetricBatchRequest m).hostUID = "") :
    (fromProtoPushMetricBatchRequest m).host.hostUID = "" := by
  simp only [fromProtoPushMetricBatchRequest, orElse] at h ⊢
  split_ifs at h with h0
  · exact h
  · exact absurd h h0

theorem fromProto_agentID_empty {m : Wire.PushMetricBatchRequest}
    (h : (fromProtoPushMetricBatchRequest m).agentID = "") :
    (fromProtoPushMetricBatchRequest m).agent.agentID = "" := by
  simp only [fromProtoPushMetricBatchRequest, orElse] at h ⊢
  split_ifs at h with h0
  · exact h
  · exact absurd h h0

end Gaoming
