import Gaoming.HostStoreTenants
import Gaoming.MetricValidation
import Gaoming.FloatInteger

/-!
# The ingest service

`digestFromMetricBatch` and `processMetricBatch`: a batch is checked, folded into
a digest, recorded in PostgreSQL, and then written to the metric window and
published. The effects after the transaction are listed in the order in which
the service performs them, up to the first that fails.
-/

namespace Gaoming
open Relational Transaction

/-- The `switch` on a point's name; the last point of a name wins. -/
def AgentDigest.record (digest : AgentDigest) (point : MetricPoint) : AgentDigest :=
  match point.name with
  | "host_cpu_usage_pct" => { digest with cpuUsagePct := point.value }
  | "host_mem_used_pct" => { digest with memUsedPct := point.value }
  | "host_mem_available_bytes" =>
    { digest with memAvailableBytes := FloatInteger.toInt64 point.value }
  | "host_swap_used_pct" => { digest with swapUsedPct := point.value }
  | "host_disk_used_pct" => { digest with diskUsedPct := point.value }
  | "host_disk_free_bytes" => { digest with diskFreeBytes := FloatInteger.toInt64 point.value }
  | "host_disk_inodes_used_pct" => { digest with diskInodesUsedPct := point.value }
  | "host_disk_read_bps" => { digest with diskReadBPS := FloatInteger.toInt64 point.value }
  | "host_disk_write_bps" => { digest with diskWriteBPS := FloatInteger.toInt64 point.value }
  | "host_disk_read_iops" => { digest with diskReadIOPS := FloatInteger.toInt64 point.value }
  | "host_disk_write_iops" => { digest with diskWriteIOPS := FloatInteger.toInt64 point.value }
  | "host_load1" => { digest with load1 := point.value }
  | "host_net_rx_bps" => { digest with netRxBPS := FloatInteger.toInt64 point.value }
  | "host_net_tx_bps" => { digest with netTxBPS := FloatInteger.toInt64 point.value }
  | "host_net_rx_packets_ps" => { digest with netRxPacketsPS := FloatInteger.toInt64 point.value }
  | "host_net_tx_packets_ps" => { digest with netTxPacketsPS := FloatInteger.toInt64 point.value }
  | _ => digest

def digestFromMetricBatch (req : PushMetricBatchRequest) : AgentDigest :=
  req.points.foldl AgentDigest.record { queueDepth := 0, lastMetricBatchSeq := req.batchSeq }

/-- What the service does outside PostgreSQL for one batch. -/
inductive MetricEffect
  | appendHeartbeatMetrics (hostUID : String) (now : Time) (digest : AgentDigest)
  | saveMetricSnapshot (hostUID : String) (snapshot : MetricSnapshot)
  | publishHostUpsert (snapshot : HostSnapshot)
  deriving DecidableEq

def MetricEffect.hostUID : MetricEffect → String
  | .appendHeartbeatMetrics hostUID _ _ => hostUID
  | .saveMetricSnapshot hostUID _ => hostUID
  | .publishHostUpsert snapshot => snapshot.hostUID

def metricEffects (req : PushMetricBatchRequest) (digest : AgentDigest) (now : Time)
    (snapshot : HostSnapshot) : List MetricEffect :=
  [.appendHeartbeatMetrics req.hostUID now digest,
    .saveMetricSnapshot req.hostUID {
      collectedAt := if Time.isZero req.collectedAt then now else req.collectedAt
      points := req.points, collectors := req.collectors },
    .publishHostUpsert snapshot]

inductive IngestError
  | invalid (e : InvalidMetricBatch)
  | store (e : StoreError)
  | unavailable
  deriving DecidableEq

structure IngestOutcome where
  result : Except IngestError String
  db : Database
  effects : List MetricEffect

/-- `processMetricBatch`; `available` says which of the later effects succeed. -/
def processMetricBatch (u : Unicode) (s : Store) (available : MetricEffect → Bool) (d : Draws)
    (req : PushMetricBatchRequest) (now : Time) (db : Database) : IngestOutcome :=
  match validateMetricBatch u req with
  | .error e => ⟨.error (.invalid e), db, []⟩
  | .ok () =>
    let digest := digestFromMetricBatch req
    match (s.reportMetrics d req digest now).transact db with
    | (.error e, db') => ⟨.error (.store e), db', []⟩
    | (.ok snapshot, db') =>
      let effects := metricEffects req digest now snapshot
      if effects.all available then ⟨.ok "metrics accepted", db', effects⟩
      else ⟨.error .unavailable, db', effects.takeWhile available⟩

end Gaoming
