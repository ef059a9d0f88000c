import Gaoming.AgentCollectors

/-!
# The sampler of the agent

`Sample` reduces the structured metrics to the sixteen summary values. Counters
become rates against the counters of the previous sample, which the sampler
keeps; the counters of a disk and of its partitions are folded into one device.
-/

namespace Gaoming

/-- The `systemMetrics` of the agent, without the structured copy that it sends along. -/
structure SystemMetrics extends SummaryMetrics where
  extraPoints : List MetricPoint := []
  capabilities : List String := []
  collectors : List CollectorStatus := []

structure SamplerState where
  prevNetRx : UInt64 := 0
  prevNetTx : UInt64 := 0
  prevNetPacketsIn : UInt64 := 0
  prevNetPacketsOut : UInt64 := 0
  prevDiskRead : UInt64 := 0
  prevDiskWrite : UInt64 := 0
  prevDiskReadOps : UInt64 := 0
  prevDiskWriteOps : UInt64 := 0
  prevNetAt : Time := 0
  prevDiskAt : Time := 0

/-- `Duration.Seconds`. -/
def durationSeconds (d : Int64) : Float :=
  FloatInteger.ofInt64 (d / 1000000000) + FloatInteger.ofInt64 (d % 1000000000) / 1e9

def calculateRate (prevA prevB curA curB : UInt64) (prevAt now : Time) :
    Int64 × Int64 × UInt64 × UInt64 :=
  if prevAt.isZero || now < prevAt || curA < prevA || curB < prevB then (0, 0, curA, curB)
  else
    let seconds := durationSeconds (now.sub prevAt)
    if seconds ≤ 0 then (0, 0, curA, curB)
    else (FloatInteger.toInt64 ((curA - prevA).toFloat / seconds),
      FloatInteger.toInt64 ((curB - prevB).toFloat / seconds), curA, curB)

def isAsciiDigit (c : Char) : Bool := '0' ≤ c && c ≤ '9'

def isAllDigits (value : List Char) : Bool := !value.isEmpty && value.all isAsciiDigit

/-- `filepath.Base` of a Unix build. -/
def basePath (path : String) : String :=
  if path = "" then "."
  else
    let trimmed := path.toList.rdropWhile (· = '/')
    if trimmed.isEmpty then "/" else String.ofList (trimmed.rtakeWhile (· ≠ '/'))

section Disks
variable (P : Platform)

def normalizeDiskName (name : String) : String :=
  let name := String.ofList ((trimSpace (basePath name)).toList.map P.letters.toLower)
  if !P.linux then name
  else if name.startsWith "nvme" || name.startsWith "mmcblk" then
    let suffix := name.toList.rtakeWhile (· ≠ 'p')
    let base := (name.toList.rdropWhile (· ≠ 'p')).dropLast
    if !base.isEmpty && isAllDigits suffix then String.ofList base else name
  else if name.startsWith "sd" || name.startsWith "vd" || name.startsWith "xvd" ||
      name.startsWith "hd" then
    String.ofList (name.toList.rdropWhile isAsciiDigit)
  else name

def skipDiskCounter (name : String) : Bool :=
  name = "" || name.startsWith "loop" || name.startsWith "ram" || name.startsWith "fd"

structure DiskTotals where
  readBytes : UInt64 := 0
  writeBytes : UInt64 := 0
  readOps : UInt64 := 0
  writeOps : UInt64 := 0

def DiskTotals.raise (t : DiskTotals) (stat : DiskIOMetrics) : DiskTotals where
  readBytes := if t.readBytes < stat.readBytesTotal then stat.readBytesTotal else t.readBytes
  writeBytes := if t.writeBytes < stat.writeBytesTotal then stat.writeBytesTotal else t.writeBytes
  readOps := if t.readOps < stat.readsTotal then stat.readsTotal else t.readOps
  writeOps := if t.writeOps < stat.writesTotal then stat.writesTotal else t.writeOps

def sumStructuredDiskCounters (stats : List DiskIOMetrics) : DiskTotals :=
  let byDevice : Std.ExtTreeMap String DiskTotals := stats.foldl (fun byDevice stat =>
    let name := normalizeDiskName P stat.device
    if skipDiskCounter name then byDevice
    else byDevice.insert name ((byDevice[name]?.getD {}).raise stat)) ∅
  byDevice.toList.foldl (fun sum (_, t) => {
    readBytes := sum.readBytes + t.readBytes, writeBytes := sum.writeBytes + t.writeBytes
    readOps := sum.readOps + t.readOps, writeOps := sum.writeOps + t.writeOps }) {}

def clampUint64ToInt64 (value : UInt64) : Int64 :=
  if 2 ^ 63 - 1 < value.toNat then Int64.maxValue else Int64.ofNat value.toNat

def sampleNetwork (s : SamplerState) (m : SystemMetrics) (now : Time)
    (interfaces : List NetworkInterfaceMetrics) : SystemMetrics × SamplerState :=
  if interfaces.isEmpty then (m, s)
  else
    let sum (f : NetworkInterfaceMetrics → UInt64) := interfaces.foldl (fun n i => n + f i) 0
    let (rx, tx, prevRx, prevTx) := calculateRate s.prevNetRx s.prevNetTx
      (sum (·.bytesReceivedTotal)) (sum (·.bytesSentTotal)) s.prevNetAt now
    let (packetsIn, packetsOut, prevIn, prevOut) := calculateRate s.prevNetPacketsIn
      s.prevNetPacketsOut (sum (·.packetsReceivedTotal)) (sum (·.packetsSentTotal)) s.prevNetAt now
    ({ m with
        netRxBPS := rx, netTxBPS := tx
        netRxPacketsPS := packetsIn, netTxPacketsPS := packetsOut },
      { s with
        prevNetRx := prevRx, prevNetTx := prevTx
        prevNetPacketsIn := prevIn, prevNetPacketsOut := prevOut, prevNetAt := now })

def sampleDisks (s : SamplerState) (m : SystemMetrics) (now : Time)
    (disks : List DiskIOMetrics) : SystemMetrics × SamplerState :=
  if disks.isEmpty then (m, s)
  else
    let totals := sumStructuredDiskCounters P disks
    let (read, write, prevRead, prevWrite) := calculateRate s.prevDiskRead s.prevDiskWrite
      totals.readBytes totals.writeBytes s.prevDiskAt now
    let (readOps, writeOps, prevReadOps, prevWriteOps) := calculateRate s.prevDiskReadOps
      s.prevDiskWriteOps totals.readOps totals.writeOps s.prevDiskAt now
    ({ m with
        diskReadBPS := read, diskWriteBPS := write
        diskReadIOPS := readOps, diskWriteIOPS := writeOps },
      { s with
        prevDiskRead := prevRead, prevDiskWrite := prevWrite
        prevDiskReadOps := prevReadOps, prevDiskWriteOps := prevWriteOps, prevDiskAt := now })

/-- `Sample`, on the results that reached `collectExtendedMetrics` in time. -/
def SamplerState.sample (s : SamplerState) (received : List CollectorResult) (now : Time) :
    SystemMetrics × SamplerState :=
  let collected := collectExtendedMetrics received
  let structured := collected.structured
  let root := structured.filesystems.find? fun filesystem =>
    cleanPath filesystem.mountpoint = cleanPath P.rootPath
  let metrics : SystemMetrics := {
    extraPoints := collected.points, collectors := collected.statuses
    capabilities := collected.capabilities
    cpuUsagePct := (structured.cpuUsagePct.map clampPercent).getD 0
    memUsedPct := (structured.memory.map fun m => clampPercent m.usedPct).getD 0
    memAvailableBytes := (structured.memory.map fun m => clampUint64ToInt64 m.availableBytes).getD 0
    swapUsedPct := (structured.swapUsedPct.map clampPercent).getD 0
    load1 := (structured.load1.filter fun l => 0 < l).getD 0
    diskUsedPct := (root.map fun f => clampPercent f.usedPct).getD 0
    diskFreeBytes := (root.map fun f => clampUint64ToInt64 f.freeBytes).getD 0
    diskInodesUsedPct := (root.map fun f => clampPercent f.inodesUsedPct).getD 0 }
  let (metrics, s) := sampleNetwork s metrics now structured.networkInterfaces
  sampleDisks P s metrics now structured.disks

end Disks
end Gaoming
