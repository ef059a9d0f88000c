import Gaoming.Contracts
import Gaoming.FloatInteger

/-!
# The collectors of the agent

The nine collectors, as functions of what the metrics library answers them, and
`collectExtendedMetrics`, as a function of the results that arrive before the
deadline. The structs of that library are not part of the repository: a struct is
the list of its fields, as reflection shows them, with the fields that the code
reads by name. An answer of `none` is an error. Of the structured metrics, which
the server does not read, only what the sampler reads is kept.
-/

namespace Gaoming

/-- `unicode.IsUpper` and `unicode.ToLower`. -/
structure LetterCase where
  isUpper : Char → Bool
  toLower : Char → Char

inductive FieldKind
  | int (value : Int64)
  | uint (value : UInt64)
  | float (value : Float)
  | other

structure StructField where
  name : String
  tag : String
  value : FieldKind

def numericValue : FieldKind → Option Float
  | .int value => some (FloatInteger.ofInt64 value)
  | .uint value => some value.toFloat
  | .float value => some value
  | .other => none

def camelToSnake (u : LetterCase) (name : String) : String :=
  match name.toList with
  | [] => ""
  | first :: rest => String.ofList (u.toLower first :: rest.flatMap fun char =>
      if u.isUpper char then ['_', u.toLower char] else [u.toLower char])

def jsonFieldName (u : LetterCase) (field : StructField) : String :=
  let name := (field.tag.splitOn ",").headD ""
  camelToSnake u (if name = "" || name = "-" then field.name else name)

def appendPoint (points : List MetricPoint) (name : String) (value : Float) (labels : StringMap) :
    List MetricPoint :=
  if name = "" || value.isNaN || value.isInf then points
  else points ++ [{ name := name, value := value, labels := labels }]

/-- With the naming function applied; without one it puts a text in front of the name. -/
def appendNumericFields (u : LetterCase) (points : List MetricPoint) (fields : List StructField)
    (labels : StringMap) (nameFunc : String → String) : List MetricPoint :=
  fields.foldl (fun points field =>
    match numericValue field.value with
    | none => points
    | some value => appendPoint points (nameFunc (jsonFieldName u field)) value labels) points

def label (key value : String) : StringMap := (∅ : StringMap).insert key value

def clampPercent (value : Float) : Float :=
  if value < 0 then 0 else if 100 < value then 100 else value

structure MemoryMetrics where
  usedPct : Float
  availableBytes : UInt64

structure FilesystemMetrics where
  mountpoint : String
  usedPct : Float
  freeBytes : UInt64
  inodesUsedPct : Float

structure DiskIOMetrics where
  device : String
  readsTotal : UInt64
  writesTotal : UInt64
  readBytesTotal : UInt64
  writeBytesTotal : UInt64

structure NetworkInterfaceMetrics where
  bytesSentTotal : UInt64 := 0
  bytesReceivedTotal : UInt64 := 0
  packetsSentTotal : UInt64 := 0
  packetsReceivedTotal : UInt64 := 0

structure StructuredMetrics where
  cpuUsagePct : Option Float := none
  memory : Option MemoryMetrics := none
  swapUsedPct : Option Float := none
  load1 : Option Float := none
  filesystems : List FilesystemMetrics := []
  disks : List DiskIOMetrics := []
  networkInterfaces : List NetworkInterfaceMetrics := []

structure CollectorResult where
  name : String
  points : List MetricPoint := []
  failures : ℕ := 0
  duration : ℤ := 0
  timedOut : Bool := false
  apply : StructuredMetrics → StructuredMetrics := id

structure CPUTimes where
  cpu : String
  fields : List StructField

structure CPUInfo where
  cpu : Int32
  mhz : Float
  cacheSize : Int32

structure CPUReadings where
  logicalCount : Option Int64 := none
  physicalCount : Option Int64 := none
  percent : Option (List Float) := none
  times : Option (List CPUTimes) := none
  info : Option (List CPUInfo) := none

structure VirtualMemory where
  fields : List StructField
  usedPercent : Float
  available : UInt64

structure SwapMemory where
  fields : List StructField
  usedPercent : Float

structure LoadAverage where
  load1 : Float
  load5 : Float
  load15 : Float

structure LoadReadings where
  avg : Option LoadAverage := none
  misc : Option (List StructField) := none

structure Partition where
  device : String := ""
  mountpoint : String
  fstype : String := ""

structure DiskUsage where
  total : UInt64
  used : UInt64
  free : UInt64
  usedPercent : Float
  inodesTotal : UInt64
  inodesUsed : UInt64
  inodesFree : UInt64
  inodesUsedPercent : Float

structure FilesystemReadings where
  partitions : Option (List Partition) := none
  usage : String → Option DiskUsage := fun _ => none

structure DiskCounters where
  fields : List StructField
  readCount : UInt64
  writeCount : UInt64
  readBytes : UInt64
  writeBytes : UInt64

structure NetCounters where
  name : String
  fields : List StructField
  bytesSent : UInt64
  bytesRecv : UInt64
  packetsSent : UInt64
  packetsRecv : UInt64

structure NetInterface where
  name : String
  index : Int64
  mtu : Int64

/-- The counters are listed in the order of a map iteration. -/
structure NetProtocol where
  protocol : String
  stats : List (String × Int64)

structure NetworkReadings where
  counters : Option (List NetCounters) := none
  interfaces : Option (List NetInterface) := none
  protocols : Option (List NetProtocol) := none
  filters : Option (List (List StructField)) := none
  conntrack : Option (List (List StructField)) := none

structure Temperature where
  sensorKey : String
  fields : List StructField

/-- The disk counters too are in the order of a map iteration. -/
structure Readings where
  host : Option (List StructField) := none
  cpu : CPUReadings := {}
  memory : Option VirtualMemory := none
  swap : Option SwapMemory := none
  load : LoadReadings := {}
  filesystem : FilesystemReadings := {}
  diskIo : Option (List (String × DiskCounters)) := none
  network : NetworkReadings := {}
  sensors : Option (List Temperature) := none

/-- One more failure if the library answered with an error. -/
def failed {α : Type} (answer : Option α) : ℕ := if answer.isNone then 1 else 0

/-- `filepath.Clean` of a Unix build. -/
def cleanPath (path : String) : String :=
  let rooted := path.startsWith "/"
  let parts := (path.splitOn "/").foldl (fun out part =>
    if part = "" || part = "." then out
    else if part = ".." then
      if out.getLast?.any (· ≠ "..") then out.dropLast
      else if rooted then out
      else out ++ [part]
    else out ++ [part]) []
  let joined := (if rooted then "/" else "") ++ "/".intercalate parts
  if joined = "" then "." else joined

/-- The build target and the letter tables. -/
structure Platform where
  letters : LetterCase
  linux : Bool
  rootPath : String

section Collectors
variable (P : Platform)

def hostInfoName (name : String) : String :=
  if name = "uptime" then "host_uptime_seconds"
  else if name = "boot_time" then "host_boot_time_seconds"
  else if name = "procs" then "host_processes"
  else "host_info_" ++ name

def collectHostMetrics (answer : Option (List StructField)) : CollectorResult :=
  match answer with
  | none => { name := "host", failures := 1 }
  | some stats => {
      name := "host", points := appendNumericFields P.letters [] stats ∅ hostInfoName }

def countPoints (name : String) (points : List MetricPoint) (answer : Option Int64) :
    List MetricPoint :=
  match answer with
  | none => points
  | some count => appendPoint points name (FloatInteger.ofInt64 count) ∅

/-- The loop over the cores, from the given index. -/
def usagePoints : ℕ → List MetricPoint → List Float → List MetricPoint
  | _, points, [] => points
  | index, points, value :: rest =>
    usagePoints (index + 1) (appendPoint points "host_cpu_usage_pct" (clampPercent value)
      (label "cpu" ("cpu" ++ toString index))) rest

def meanUsage (values : List Float) : Float :=
  if values.isEmpty then 0
  else values.foldl (fun total value => total + clampPercent value) 0 /
    FloatInteger.ofInt64 (Int64.ofNat values.length)

def timesPoints (points : List MetricPoint) (values : List CPUTimes) : List MetricPoint :=
  values.foldl (fun points value => appendNumericFields P.letters points value.fields
    (label "cpu" value.cpu) fun name => "host_cpu_time_" ++ name ++ "_seconds") points

def infoPoints (points : List MetricPoint) (values : List CPUInfo) : List MetricPoint :=
  values.foldl (fun points value =>
    let labels := label "cpu" ("cpu" ++ toString value.cpu.toInt)
    let points :=
      if 0 ≤ value.mhz then appendPoint points "host_cpu_frequency_mhz" value.mhz labels else points
    if 0 < value.cacheSize then
      appendPoint points "host_cpu_cache_size_kib"
        (FloatInteger.ofInt64 value.cacheSize.toInt64) labels
    else points) points

def collectCPUMetrics (r : CPUReadings) : CollectorResult where
  name := "cpu"
  points :=
    let points := countPoints "host_cpu_logical_count" [] r.logicalCount
    let points := countPoints "host_cpu_physical_count" points r.physicalCount
    let points := usagePoints 0 points (r.percent.getD [])
    let points := timesPoints P points (r.times.getD [])
    infoPoints points (r.info.getD [])
  failures := failed r.logicalCount + failed r.physicalCount + failed r.percent + failed r.times +
    failed r.info
  apply := fun system => { system with cpuUsagePct := some (meanUsage (r.percent.getD [])) }

def memoryName (name : String) : String :=
  if name = "used_percent" then "host_mem_used_pct" else "host_mem_" ++ name ++ "_bytes"

def collectMemoryMetrics (answer : Option VirtualMemory) : CollectorResult :=
  match answer with
  | none => { name := "memory", failures := 1 }
  | some stats => {
      name := "memory", points := appendNumericFields P.letters [] stats.fields ∅ memoryName
      apply := fun system => { system with memory := some ⟨stats.usedPercent, stats.available⟩ } }

def swapName (name : String) : String :=
  if name = "used_percent" then "host_swap_used_pct"
  else if name ∈ ["total", "used", "free", "sin", "sout"] then "host_swap_" ++ name ++ "_bytes"
  else "host_swap_" ++ name ++ "_total"

def collectSwapMetrics (answer : Option SwapMemory) : CollectorResult :=
  match answer with
  | none => { name := "swap", failures := 1 }
  | some stats => {
      name := "swap", points := appendNumericFields P.letters [] stats.fields ∅ swapName
      apply := fun system => { system with swapUsedPct := some stats.usedPercent } }

def loadPoints (stats : LoadAverage) : List MetricPoint :=
  let points := appendPoint [] "host_load1" stats.load1 ∅
  let points := appendPoint points "host_load5" stats.load5 ∅
  appendPoint points "host_load15" stats.load15 ∅

def collectLoadMetrics (r : LoadReadings) : CollectorResult where
  name := "load"
  points :=
    let points := match r.avg with
      | none => []
      | some stats => loadPoints stats
    appendNumericFields P.letters points (r.misc.getD []) ∅ ("host_scheduler_" ++ ·)
  failures := failed r.avg + failed r.misc
  apply := fun system => { system with load1 := some ((r.avg.map LoadAverage.load1).getD 0) }

def appendFilesystemUsage (points : List MetricPoint) (stats : DiskUsage) (labels : StringMap) :
    List MetricPoint :=
  let points := appendPoint points "host_filesystem_total_bytes" stats.total.toFloat labels
  let points := appendPoint points "host_filesystem_used_bytes" stats.used.toFloat labels
  let points := appendPoint points "host_filesystem_free_bytes" stats.free.toFloat labels
  let points := appendPoint points "host_filesystem_used_pct" stats.usedPercent labels
  let points := appendPoint points "host_filesystem_inodes_total" stats.inodesTotal.toFloat labels
  let points := appendPoint points "host_filesystem_inodes_used" stats.inodesUsed.toFloat labels
  let points := appendPoint points "host_filesystem_inodes_free" stats.inodesFree.toFloat labels
  appendPoint points "host_filesystem_inodes_used_pct" stats.inodesUsedPercent labels

/-- The loop over the partitions, with the mount points already seen. -/
def filesystemLoop (usage : String → Option DiskUsage) :
    List String → List Partition → List MetricPoint × List FilesystemMetrics × ℕ →
    List MetricPoint × List FilesystemMetrics × ℕ
  | _, [], out => out
  | seen, partition :: rest, (points, metrics, failures) =>
    if partition.mountpoint ∈ seen then filesystemLoop usage seen rest (points, metrics, failures)
    else
      filesystemLoop usage (partition.mountpoint :: seen) rest <|
        match usage partition.mountpoint with
        | none => (points, metrics, failures + 1)
        | some stats =>
          (appendFilesystemUsage points stats (((label "device" partition.device).insert
            "mountpoint" partition.mountpoint).insert "fstype" partition.fstype),
          metrics ++ [⟨partition.mountpoint, stats.usedPercent, stats.free,
            stats.inodesUsedPercent⟩], failures)

def collectFilesystemMetrics (r : FilesystemReadings) : CollectorResult :=
  match r.partitions with
  | none => { name := "filesystem", failures := 1 }
  | some partitions =>
    let hasRoot := partitions.any fun partition =>
      cleanPath partition.mountpoint = cleanPath P.rootPath
    let partitions := if hasRoot then partitions else partitions ++ [{ mountpoint := P.rootPath }]
    let (points, metrics, failures) := filesystemLoop r.usage [] partitions ([], [], 0)
    { name := "filesystem", points := points, failures := failures
      apply := fun system => { system with filesystems := metrics } }

def diskIOName (field : String) : String :=
  if field.endsWith "_bytes" then "host_disk_io_" ++ field ++ "_total"
  else if field.endsWith "_time" || field = "io_time" || field = "weighted_io" then
    "host_disk_io_" ++ field ++ "_milliseconds_total"
  else "host_disk_io_" ++ field ++ "_total"

def collectDiskIOMetrics (answer : Option (List (String × DiskCounters))) : CollectorResult :=
  match answer with
  | none => { name := "disk_io", failures := 1 }
  | some stats =>
    let metrics : List DiskIOMetrics := stats.map fun (name, value) => {
      device := name, readsTotal := value.readCount, writesTotal := value.writeCount
      readBytesTotal := value.readBytes, writeBytesTotal := value.writeBytes }
    { name := "disk_io"
      points := stats.foldl (fun points (name, value) => appendNumericFields P.letters points
        value.fields (label "device" name) diskIOName) []
      apply := fun system =>
        { system with disks := metrics.insertionSort fun a b => a.device ≤ b.device } }

def netCounterPoints (points : List MetricPoint) (stats : List NetCounters) : List MetricPoint :=
  stats.foldl (fun points value => appendNumericFields P.letters points value.fields
    (label "interface" value.name) fun field => "host_net_" ++ field ++ "_total") points

def netInterfacePoints (points : List MetricPoint) (interfaces : List NetInterface) :
    List MetricPoint :=
  interfaces.foldl (fun points value =>
    let labels := label "interface" value.name
    appendPoint (appendPoint points "host_net_interface_index"
      (FloatInteger.ofInt64 value.index) labels) "host_net_interface_mtu_bytes"
      (FloatInteger.ofInt64 value.mtu) labels) points

def netProtocolPoints (points : List MetricPoint) (protocols : List NetProtocol) :
    List MetricPoint :=
  protocols.foldl (fun points protocol => protocol.stats.foldl (fun points (name, value) =>
    appendPoint points ("host_net_protocol_" ++ camelToSnake P.letters name ++ "_total")
      (FloatInteger.ofInt64 value) (label "protocol" protocol.protocol)) points) points

/-- The structs of the counters, and an empty one for an interface without counters. -/
def interfaceMetrics (r : NetworkReadings) (stats : List NetCounters) :
    List NetworkInterfaceMetrics :=
  let byName : Std.ExtTreeMap String NetworkInterfaceMetrics := stats.foldl (fun byName value =>
    byName.insert value.name {
      bytesSentTotal := value.bytesSent, bytesReceivedTotal := value.bytesRecv
      packetsSentTotal := value.packetsSent, packetsReceivedTotal := value.packetsRecv }) ∅
  let byName := (r.interfaces.getD []).foldl (fun byName value =>
    if byName.contains value.name then byName else byName.insert value.name {}) byName
  byName.toList.map Prod.snd

def collectNetworkMetrics (r : NetworkReadings) : CollectorResult :=
  match r.counters with
  | none => { name := "network", failures := 1 }
  | some stats => {
      name := "network"
      points :=
        let points := netCounterPoints P [] stats
        let points := netInterfacePoints points (r.interfaces.getD [])
        let points := netProtocolPoints P points (r.protocols.getD [])
        let points := (r.filters.getD []).foldl (fun points value => appendNumericFields P.letters
          points value ∅ ("host_net_filter_" ++ ·)) points
        (r.conntrack.getD []).foldl (fun points value => appendNumericFields P.letters points value
          ∅ fun field => "host_net_conntrack_" ++ field ++ "_total") points
      failures := failed r.interfaces + failed r.protocols + failed r.filters + failed r.conntrack
      apply := fun system => { system with networkInterfaces := interfaceMetrics r stats } }

def sensorName (field : String) : String :=
  if field = "temperature" then "host_sensor_temperature_celsius"
  else if field = "sensor_high" then "host_sensor_temperature_high_celsius"
  else if field = "sensor_critical" then "host_sensor_temperature_critical_celsius"
  else "host_sensor_" ++ field

def collectSensorMetrics (answer : Option (List Temperature)) : CollectorResult :=
  match answer with
  | none => { name := "sensors", failures := 1 }
  | some stats => {
      name := "sensors"
      points := stats.foldl (fun points value => appendNumericFields P.letters points value.fields
        (label "sensor" value.sensorKey) sensorName) [] }

inductive Collector
  | host
  | cpu
  | memory
  | swap
  | load
  | filesystem
  | diskIo
  | network
  | sensors
  deriving DecidableEq, Repr

def Collector.name : Collector → String
  | .host => "host"
  | .cpu => "cpu"
  | .memory => "memory"
  | .swap => "swap"
  | .load => "load"
  | .filesystem => "filesystem"
  | .diskIo => "disk_io"
  | .network => "network"
  | .sensors => "sensors"

def collectors : List Collector :=
  [.host, .cpu, .memory, .swap, .load, .filesystem, .diskIo, .network, .sensors]

def Collector.run (r : Readings) : Collector → CollectorResult
  | .host => collectHostMetrics P r.host
  | .cpu => collectCPUMetrics P r.cpu
  | .memory => collectMemoryMetrics P r.memory
  | .swap => collectSwapMetrics P r.swap
  | .load => collectLoadMetrics P r.load
  | .filesystem => collectFilesystemMetrics P r.filesystem
  | .diskIo => collectDiskIOMetrics P r.diskIo
  | .network => collectNetworkMetrics P r.network
  | .sensors => collectSensorMetrics P r.sensors

end Collectors

def uniqueMetricNames (points : List MetricPoint) : List String :=
  (points.map MetricPoint.name).dedup.insertionSort (· ≤ ·)

structure Collected where
  points : List MetricPoint := []
  statuses : List CollectorStatus := []
  capabilities : List String := []
  structured : StructuredMetrics := {}

/-- The body of the loop over the collectors, on the result that has arrived. -/
def Collected.add (c : Collected) (name : String) (arrived : Option CollectorResult) : Collected :=
  let result := arrived.getD { name := "" }
  let state :=
    if arrived.isNone || result.points.isEmpty then CollectorState.unavailable
    else if 0 < result.failures then CollectorState.degraded
    else CollectorState.available
  let c := { c with statuses := c.statuses ++ [{
    name := name, state := state, metricNames := uniqueMetricNames result.points
    durationMicros := Int64.ofInt (result.duration.tdiv 1000)
    timedOut := arrived.isNone || result.timedOut }] }
  if state = CollectorState.unavailable then c
  else { c with
    capabilities := c.capabilities ++ ["collector:" ++ result.name]
    points := c.points ++ result.points
    structured := result.apply c.structured }

/-- Over the results received before the deadline, in the order of their arrival. -/
def collectExtendedMetrics (received : List CollectorResult) : Collected :=
  let byName : Std.ExtTreeMap String CollectorResult :=
    received.foldl (fun byName result => byName.insert result.name result) ∅
  collectors.foldl (fun c collector => c.add collector.name byName[collector.name]?) {}

/-- A collector whose result arrives before the deadline. -/
structure Arrival where
  collector : Collector
  duration : ℤ := 0
  timedOut : Bool := false

def Arrival.result (P : Platform) (r : Readings) (a : Arrival) : CollectorResult :=
  { a.collector.run P r with duration := a.duration, timedOut := a.timedOut }

end Gaoming
