import Gaoming.AgentSampler
import Gaoming.FirstOccurrence

/-!
# The batch that the agent uploads

`digestFromMetrics`, the de-duplication of the points by name and labels, and the
payload that `pushMetrics` builds. The uptime, which the code takes from the
clock, is a parameter.
-/

namespace Gaoming

structure Agent where
  host : HostIdentity
  agentID : String
  hostUID : String
  bootTime : Time
  metricSeq : Int64 := 0

def metricPointIdentity (point : MetricPoint) : String :=
  point.labels.toList.foldl (fun identity (key, value) =>
    identity ++ ("\x00" ++ key ++ "=" ++ value))
    point.name

/-- The loop over the extra points, with the identities already seen. -/
def appendExtraPoints (now : Time) : List String → List MetricPoint → List MetricPoint →
    List MetricPoint
  | _, dst, [] => dst
  | seen, dst, point :: rest =>
    let point := if point.ts.isZero then { point with ts := now } else point
    if metricPointIdentity point ∈ seen then appendExtraPoints now seen dst rest
    else appendExtraPoints now (metricPointIdentity point :: seen) (dst ++ [point]) rest

def appendMetricPoints (dst extra : List MetricPoint) (now : Time) : List MetricPoint :=
  appendExtraPoints now (dst.map metricPointIdentity) dst extra

def stamped (now : Time) (point : MetricPoint) : MetricPoint :=
  if point.ts.isZero then { point with ts := now } else point

theorem appendExtraPoints_eq (now : Time) (seen : List String) (dst extra : List MetricPoint) :
    appendExtraPoints now seen dst extra =
      dst ++ FirstOccurrence.keep metricPointIdentity seen (extra.map (stamped now)) := by
  induction extra generalizing seen dst with
  | nil => simp [appendExtraPoints, FirstOccurrence.keep]
  | cons point rest ih =>
    have hstamp : (if point.ts.isZero then { point with ts := now } else point) =
        stamped now point := rfl
    rw [appendExtraPoints, List.map_cons, FirstOccurrence.keep]
    simp only [hstamp]
    split_ifs with hseen
    · exact ih _ _
    · rw [ih, List.append_assoc, List.singleton_append]

/-- The points of the summary, in the order of the code. -/
def summaryPoints (digest : AgentDigest) (now : Time) : List MetricPoint := [
  { name := "host_cpu_usage_pct", value := digest.cpuUsagePct, ts := now },
  { name := "host_mem_used_pct", value := digest.memUsedPct, ts := now },
  { name := "host_mem_available_bytes",
    value := FloatInteger.ofInt64 digest.memAvailableBytes, ts := now },
  { name := "host_swap_used_pct", value := digest.swapUsedPct, ts := now },
  { name := "host_disk_used_pct", value := digest.diskUsedPct, ts := now },
  { name := "host_disk_free_bytes", value := FloatInteger.ofInt64 digest.diskFreeBytes, ts := now },
  { name := "host_disk_inodes_used_pct", value := digest.diskInodesUsedPct, ts := now },
  { name := "host_disk_read_bps", value := FloatInteger.ofInt64 digest.diskReadBPS, ts := now },
  { name := "host_disk_write_bps", value := FloatInteger.ofInt64 digest.diskWriteBPS, ts := now },
  { name := "host_disk_read_iops", value := FloatInteger.ofInt64 digest.diskReadIOPS, ts := now },
  { name := "host_disk_write_iops", value := FloatInteger.ofInt64 digest.diskWriteIOPS, ts := now },
  { name := "host_load1", value := digest.load1, ts := now },
  { name := "host_net_rx_bps", value := FloatInteger.ofInt64 digest.netRxBPS, ts := now },
  { name := "host_net_tx_bps", value := FloatInteger.ofInt64 digest.netTxBPS, ts := now },
  { name := "host_net_rx_packets_ps",
    value := FloatInteger.ofInt64 digest.netRxPacketsPS, ts := now },
  { name := "host_net_tx_packets_ps",
    value := FloatInteger.ofInt64 digest.netTxPacketsPS, ts := now }]

namespace Agent

def digestFromMetrics (a : Agent) (metrics : SystemMetrics) : AgentDigest where
  toSummaryMetrics := metrics.toSummaryMetrics
  queueDepth := 0
  lastMetricBatchSeq := a.metricSeq

/-- The agent after `pushMetrics` has counted the batch, and the payload. -/
def pushMetrics (a : Agent) (now : Time) (uptime : Float) (digest : AgentDigest)
    (metrics : SystemMetrics) : Agent × PushMetricBatchRequest :=
  let a := { a with metricSeq := a.metricSeq + 1 }
  (a, {
    hostUID := a.hostUID, agentID := a.agentID, batchSeq := a.metricSeq, collectedAt := now
    host := a.host
    agent := {
      agentID := a.agentID, version := "v0.1.0", bootTime := a.bootTime
      capabilities := ["metrics", "stream_metrics", "adaptive_collectors"] ++ metrics.capabilities }
    points := appendMetricPoints
      ({ name := "runtime_uptime_seconds", value := uptime, ts := now } :: summaryPoints digest now)
      metrics.extraPoints now
    collectors := metrics.collectors
    digest := digest })

/-- The payload of `sendCycle` for one sample. -/
def sendCycle (a : Agent) (now : Time) (uptime : Float) (metrics : SystemMetrics) :
    Agent × PushMetricBatchRequest :=
  a.pushMetrics now uptime (a.digestFromMetrics metrics) metrics

end Agent
end Gaoming
