import Gaoming.AgentUpload

/-!
# What the readings give

The points of every collector written as comprehensions over the answers of the
metrics library: one point for each finite number with a name, in the order of the
readings. The loops of the collectors build exactly these, and
`collectExtendedMetrics` joins those of the collectors whose result has arrived.
-/

namespace Gaoming

/-- The point of one number, unless it has no name or is not finite. -/
def given (name : String) (value : Float) (labels : StringMap) : List MetricPoint :=
  if name ≠ "" ∧ value.isNaN = false ∧ value.isInf = false then
    [{ name := name, value := value, labels := labels }]
  else []

def givenFields (u : LetterCase) (fields : List StructField) (labels : StringMap)
    (nameFunc : String → String) : List MetricPoint :=
  fields.flatMap fun field => (numericValue field.value).toList.flatMap fun value =>
    given (nameFunc (jsonFieldName u field)) value labels

def givenCount (name : String) (answer : Option Int64) : List MetricPoint :=
  answer.toList.flatMap fun count => given name (FloatInteger.ofInt64 count) ∅

section Given
variable (P : Platform)

def CPUInfo.given (info : CPUInfo) : List MetricPoint :=
  let labels := label "cpu" ("cpu" ++ toString info.cpu.toInt)
  (if 0 ≤ info.mhz then Gaoming.given "host_cpu_frequency_mhz" info.mhz labels else []) ++
    if 0 < info.cacheSize then
      Gaoming.given "host_cpu_cache_size_kib" (FloatInteger.ofInt64 info.cacheSize.toInt64) labels
    else []

def CPUReadings.given (r : CPUReadings) : List MetricPoint :=
  givenCount "host_cpu_logical_count" r.logicalCount ++
  givenCount "host_cpu_physical_count" r.physicalCount ++
  (((r.percent.getD []).zipIdx).flatMap fun core => Gaoming.given "host_cpu_usage_pct"
    (clampPercent core.1) (label "cpu" ("cpu" ++ toString core.2))) ++
  ((r.times.getD []).flatMap fun times => givenFields P.letters times.fields
    (label "cpu" times.cpu) fun name => "host_cpu_time_" ++ name ++ "_seconds") ++
  (r.info.getD []).flatMap CPUInfo.given

def LoadReadings.given (r : LoadReadings) : List MetricPoint :=
  (r.avg.toList.flatMap fun avg => Gaoming.given "host_load1" avg.load1 ∅ ++
    Gaoming.given "host_load5" avg.load5 ∅ ++ Gaoming.given "host_load15" avg.load15 ∅) ++
  givenFields P.letters (r.misc.getD []) ∅ ("host_scheduler_" ++ ·)

def Partition.labels (partition : Partition) : StringMap :=
  ((label "device" partition.device).insert "mountpoint" partition.mountpoint).insert
    "fstype" partition.fstype

def DiskUsage.given (usage : DiskUsage) (labels : StringMap) : List MetricPoint :=
  Gaoming.given "host_filesystem_total_bytes" usage.total.toFloat labels ++
  Gaoming.given "host_filesystem_used_bytes" usage.used.toFloat labels ++
  Gaoming.given "host_filesystem_free_bytes" usage.free.toFloat labels ++
  Gaoming.given "host_filesystem_used_pct" usage.usedPercent labels ++
  Gaoming.given "host_filesystem_inodes_total" usage.inodesTotal.toFloat labels ++
  Gaoming.given "host_filesystem_inodes_used" usage.inodesUsed.toFloat labels ++
  Gaoming.given "host_filesystem_inodes_free" usage.inodesFree.toFloat labels ++
  Gaoming.given "host_filesystem_inodes_used_pct" usage.inodesUsedPercent labels

/-- The partitions that are asked for their usage: the first of each mount point, and the root
where the library does not list it. -/
def FilesystemReadings.asked (r : FilesystemReadings) : List Partition :=
  r.partitions.toList.flatMap fun partitions =>
    FirstOccurrence.keep Partition.mountpoint [] <|
      if partitions.any fun partition => cleanPath partition.mountpoint = cleanPath P.rootPath then
        partitions
      else partitions ++ [{ mountpoint := P.rootPath }]

def FilesystemReadings.given (r : FilesystemReadings) : List MetricPoint :=
  (r.asked P).flatMap fun partition => (r.usage partition.mountpoint).toList.flatMap fun usage =>
    usage.given partition.labels

def NetInterface.given (interface : NetInterface) : List MetricPoint :=
  let labels := label "interface" interface.name
  Gaoming.given "host_net_interface_index" (FloatInteger.ofInt64 interface.index) labels ++
    Gaoming.given "host_net_interface_mtu_bytes" (FloatInteger.ofInt64 interface.mtu) labels

/-- Nothing without the counters of the interfaces. -/
def NetworkReadings.given (r : NetworkReadings) : List MetricPoint :=
  r.counters.toList.flatMap fun counters =>
    (counters.flatMap fun stats => givenFields P.letters stats.fields
      (label "interface" stats.name) fun field => "host_net_" ++ field ++ "_total") ++
    (r.interfaces.getD []).flatMap NetInterface.given ++
    ((r.protocols.getD []).flatMap fun protocol => protocol.stats.flatMap fun stat =>
      Gaoming.given ("host_net_protocol_" ++ camelToSnake P.letters stat.1 ++ "_total")
        (FloatInteger.ofInt64 stat.2) (label "protocol" protocol.protocol)) ++
    ((r.filters.getD []).flatMap fun fields =>
      givenFields P.letters fields ∅ ("host_net_filter_" ++ ·)) ++
    (r.conntrack.getD []).flatMap fun fields =>
      givenFields P.letters fields ∅ fun field => "host_net_conntrack_" ++ field ++ "_total"

def Readings.given (r : Readings) : Collector → List MetricPoint
  | .host => givenFields P.letters (r.host.getD []) ∅ hostInfoName
  | .cpu => r.cpu.given P
  | .memory => r.memory.toList.flatMap fun stats => givenFields P.letters stats.fields ∅ memoryName
  | .swap => r.swap.toList.flatMap fun stats => givenFields P.letters stats.fields ∅ swapName
  | .load => r.load.given P
  | .filesystem => r.filesystem.given P
  | .diskIo => (r.diskIo.getD []).flatMap fun disk =>
      givenFields P.letters disk.2.fields (label "device" disk.1) diskIOName
  | .network => r.network.given P
  | .sensors => (r.sensors.getD []).flatMap fun sensor =>
      givenFields P.letters sensor.fields (label "sensor" sensor.sensorKey) sensorName

end Given

section Append
variable (points : List MetricPoint)

theorem appendPoint_given (name : String) (value : Float) (labels : StringMap) :
    appendPoint points name value labels = points ++ given name value labels := by
  unfold appendPoint given
  by_cases hname : name = "" <;> cases hnan : value.isNaN <;> cases hinf : value.isInf <;>
    simp [hname]

/-- A loop whose body appends. -/
theorem foldl_given {α : Type} {f : List MetricPoint → α → List MetricPoint}
    {g : α → List MetricPoint} (h : ∀ points x, f points x = points ++ g x) (l : List α) :
    l.foldl f points = points ++ l.flatMap g := by
  induction l generalizing points with
  | nil => simp
  | cons x rest ih => rw [List.foldl_cons, ih, h, List.flatMap_cons, List.append_assoc]

theorem appendNumericFields_given (u : LetterCase) (fields : List StructField)
    (labels : StringMap) (nameFunc : String → String) :
    appendNumericFields u points fields labels nameFunc =
      points ++ givenFields u fields labels nameFunc := by
  refine foldl_given points (fun points field => ?_) fields
  cases numericValue field.value with
  | none => simp
  | some value => simp [appendPoint_given]

theorem countPoints_given (name : String) (answer : Option Int64) :
    countPoints name points answer = points ++ givenCount name answer := by
  cases answer with
  | none => simp [countPoints, givenCount]
  | some count => simp [countPoints, givenCount, appendPoint_given]

theorem usagePoints_given (index : ℕ) (values : List Float) :
    usagePoints index points values = points ++ (values.zipIdx index).flatMap fun core =>
      given "host_cpu_usage_pct" (clampPercent core.1)
        (label "cpu" ("cpu" ++ toString core.2)) := by
  induction values generalizing index points with
  | nil => simp [usagePoints]
  | cons value rest ih =>
    rw [usagePoints, ih, appendPoint_given, List.zipIdx_cons, List.flatMap_cons, List.append_assoc]

theorem infoPoints_given (values : List CPUInfo) :
    infoPoints points values = points ++ values.flatMap CPUInfo.given := by
  refine foldl_given points (fun points info => ?_) values
  simp only [CPUInfo.given, appendPoint_given]
  split_ifs <;> simp

theorem appendFilesystemUsage_given (usage : DiskUsage) (labels : StringMap) :
    appendFilesystemUsage points usage labels = points ++ usage.given labels := by
  simp only [appendFilesystemUsage, appendPoint_given, DiskUsage.given, List.append_assoc]

theorem filesystemLoop_given (usage : String → Option DiskUsage) (seen : List String)
    (partitions : List Partition) (metrics : List FilesystemMetrics) (failures : ℕ) :
    (filesystemLoop usage seen partitions (points, metrics, failures)).1 = points ++
      (FirstOccurrence.keep Partition.mountpoint seen partitions).flatMap fun partition =>
        (usage partition.mountpoint).toList.flatMap fun stats => stats.given partition.labels := by
  induction partitions generalizing seen points metrics failures with
  | nil => simp [filesystemLoop, FirstOccurrence.keep]
  | cons partition rest ih =>
    rw [filesystemLoop, FirstOccurrence.keep]
    split_ifs with hseen
    · exact ih points seen metrics failures
    · rw [List.flatMap_cons]
      cases usage partition.mountpoint with
      | none => simpa using ih points _ metrics (failures + 1)
      | some stats =>
        dsimp only
        rw [ih, appendFilesystemUsage_given, List.append_assoc]
        simp [Partition.labels]

end Append

theorem cpu_given (P : Platform) (r : CPUReadings) :
    (collectCPUMetrics P r).points = r.given P := by
  have htimes : ∀ points (values : List CPUTimes), timesPoints P points values = points ++
      values.flatMap fun times => givenFields P.letters times.fields (label "cpu" times.cpu)
        fun name => "host_cpu_time_" ++ name ++ "_seconds" := by
    refine fun points values => foldl_given points (fun points times => ?_) values
    exact appendNumericFields_given points _ _ _ _
  simp only [collectCPUMetrics, infoPoints_given, htimes, usagePoints_given, countPoints_given,
    CPUReadings.given, List.nil_append]

theorem load_given (P : Platform) (r : LoadReadings) :
    (collectLoadMetrics P r).points = r.given P := by
  cases havg : r.avg with
  | none => simp [collectLoadMetrics, LoadReadings.given, havg, appendNumericFields_given]
  | some avg =>
    simp [collectLoadMetrics, LoadReadings.given, havg, appendNumericFields_given, loadPoints,
      appendPoint_given]

theorem filesystem_given (P : Platform) (r : FilesystemReadings) :
    (collectFilesystemMetrics P r).points = r.given P := by
  cases hparts : r.partitions with
  | none =>
    simp [collectFilesystemMetrics, FilesystemReadings.given, FilesystemReadings.asked, hparts]
  | some partitions =>
    simp only [collectFilesystemMetrics, hparts, filesystemLoop_given, FilesystemReadings.given,
      FilesystemReadings.asked, Option.toList_some, List.flatMap_singleton, List.nil_append]

theorem network_given (P : Platform) (r : NetworkReadings) :
    (collectNetworkMetrics P r).points = r.given P := by
  have hcounters : ∀ points (stats : List NetCounters), netCounterPoints P points stats = points ++
      stats.flatMap fun stats => givenFields P.letters stats.fields
        (label "interface" stats.name) fun field => "host_net_" ++ field ++ "_total" := by
    refine fun points stats => foldl_given points (fun points value => ?_) stats
    exact appendNumericFields_given points _ _ _ _
  have hinterfaces : ∀ points (interfaces : List NetInterface),
      netInterfacePoints points interfaces = points ++ interfaces.flatMap NetInterface.given := by
    refine fun points interfaces => foldl_given points (fun points interface => ?_) interfaces
    simp only [appendPoint_given, NetInterface.given, List.append_assoc]
  have hprotocols : ∀ points (protocols : List NetProtocol), netProtocolPoints P points protocols =
      points ++ protocols.flatMap fun protocol => protocol.stats.flatMap fun stat =>
        given ("host_net_protocol_" ++ camelToSnake P.letters stat.1 ++ "_total")
          (FloatInteger.ofInt64 stat.2) (label "protocol" protocol.protocol) := by
    refine fun points protocols => foldl_given points (fun points protocol => ?_) protocols
    refine foldl_given points (fun points stat => ?_) protocol.stats
    exact appendPoint_given points _ _ _
  have hfields : ∀ points (all : List (List StructField)) (nameFunc : String → String),
      all.foldl (fun points fields => appendNumericFields P.letters points fields ∅ nameFunc)
        points =
        points ++ all.flatMap fun fields => givenFields P.letters fields ∅ nameFunc := by
    refine fun points all nameFunc => foldl_given points (fun points fields => ?_) all
    exact appendNumericFields_given points _ _ _ _
  cases hstats : r.counters with
  | none => simp [collectNetworkMetrics, NetworkReadings.given, hstats]
  | some stats =>
    simp only [collectNetworkMetrics, hstats, hcounters, hinterfaces, hprotocols, hfields,
      NetworkReadings.given, Option.toList_some, List.flatMap_singleton, List.nil_append]

/-- Every collector returns what the readings give it. -/
theorem run_given (P : Platform) (r : Readings) (c : Collector) :
    (c.run P r).points = r.given P c := by
  cases c with
  | host =>
    cases h : r.host <;>
      simp [Collector.run, Readings.given, collectHostMetrics, h, appendNumericFields_given,
        givenFields]
  | cpu => exact cpu_given P r.cpu
  | memory =>
    cases h : r.memory <;>
      simp [Collector.run, Readings.given, collectMemoryMetrics, h, appendNumericFields_given]
  | swap =>
    cases h : r.swap <;>
      simp [Collector.run, Readings.given, collectSwapMetrics, h, appendNumericFields_given]
  | load => exact load_given P r.load
  | filesystem => exact filesystem_given P r.filesystem
  | diskIo =>
    cases h : r.diskIo with
    | none => simp [Collector.run, Readings.given, collectDiskIOMetrics, h]
    | some disks =>
      simp only [Collector.run, Readings.given, collectDiskIOMetrics, h, Option.getD_some]
      refine foldl_given [] (fun points disk => ?_) disks
      exact appendNumericFields_given points _ _ _ _
  | network => exact network_given P r.network
  | sensors =>
    cases h : r.sensors with
    | none => simp [Collector.run, Readings.given, collectSensorMetrics, h]
    | some sensors =>
      simp only [Collector.run, Readings.given, collectSensorMetrics, h, Option.getD_some]
      refine foldl_given [] (fun points sensor => ?_) sensors
      exact appendNumericFields_given points _ _ _ _

theorem run_name (P : Platform) (r : Readings) (c : Collector) : (c.run P r).name = c.name := by
  cases c with
  | host => cases h : r.host <;> simp [Collector.run, collectHostMetrics, Collector.name, h]
  | cpu => rfl
  | memory => cases h : r.memory <;> simp [Collector.run, collectMemoryMetrics, Collector.name, h]
  | swap => cases h : r.swap <;> simp [Collector.run, collectSwapMetrics, Collector.name, h]
  | load => rfl
  | filesystem =>
    cases h : r.filesystem.partitions <;>
      simp [Collector.run, collectFilesystemMetrics, Collector.name, h]
  | diskIo => cases h : r.diskIo <;> simp [Collector.run, collectDiskIOMetrics, Collector.name, h]
  | network =>
    cases h : r.network.counters <;> simp [Collector.run, collectNetworkMetrics, Collector.name, h]
  | sensors => cases h : r.sensors <;> simp [Collector.run, collectSensorMetrics, Collector.name, h]

theorem collector_name_injective {c d : Collector} (h : c.name = d.name) : c = d := by
  cases c <;> cases d <;> first | rfl | exact absurd h (by decide)

theorem add_points (c : Collected) (name : String) (arrived : Option CollectorResult) :
    (c.add name arrived).points = c.points ++ (arrived.map CollectorResult.points).getD [] := by
  cases arrived with
  | none => simp [Collected.add]
  | some result =>
    by_cases hempty : result.points = []
    · simp [Collected.add, hempty]
    · have hstate : (if 0 < result.failures then CollectorState.degraded
          else CollectorState.available) ≠ CollectorState.unavailable := by
        split_ifs <;> decide
      simp [Collected.add, hempty, hstate]

theorem foldl_add_points (arrived : String → Option CollectorResult) (l : List Collector)
    (c : Collected) :
    (l.foldl (fun c collector => c.add collector.name (arrived collector.name)) c).points =
      c.points ++ l.flatMap fun collector =>
        ((arrived collector.name).map CollectorResult.points).getD [] := by
  induction l generalizing c with
  | nil => simp
  | cons collector rest ih =>
    rw [List.foldl_cons, ih, add_points, List.flatMap_cons, List.append_assoc]

/-- The result of a collector that counts: its last one. -/
def lastArrival (arrivals : List Arrival) (c : Collector) : Option Arrival :=
  (arrivals.filter fun a => a.collector = c).getLast?

theorem lastArrival_concat (arrivals : List Arrival) (a : Arrival) (c : Collector) :
    lastArrival (arrivals ++ [a]) c =
      if a.collector = c then some a else lastArrival arrivals c := by
  rw [lastArrival, List.filter_append, List.filter_singleton]
  split_ifs with h
  · simp [h]
  · simp [h, lastArrival]

theorem byName_arrivals (P : Platform) (r : Readings) (arrivals : List Arrival) (c : Collector) :
    ((arrivals.map (Arrival.result P r)).foldl
      (fun byName result => byName.insert result.name result)
      (∅ : Std.ExtTreeMap String CollectorResult))[c.name]? =
      (lastArrival arrivals c).map (Arrival.result P r) := by
  induction arrivals using List.reverseRecOn with
  | nil => simp [lastArrival]
  | append_singleton arrivals a ih =>
    have hname : (a.result P r).name = a.collector.name := run_name P r a.collector
    rw [List.map_append, List.foldl_append, List.map_singleton, List.foldl_cons, List.foldl_nil,
      Std.ExtTreeMap.getElem?_insert, ih, lastArrival_concat, hname]
    by_cases h : a.collector = c
    · rw [if_pos h, h, if_pos Std.ReflCmp.compare_self, Option.map_some]
    · rw [if_neg h, if_neg]
      exact fun heq => h (collector_name_injective (Std.LawfulEqCmp.eq_of_compare heq))

/-- What one collector has to say: what the readings give it, if its result comes in time. -/
def Readings.outcome (P : Platform) (r : Readings) (arrivals : List Arrival) (c : Collector) :
    List MetricPoint :=
  if ∃ a ∈ arrivals, a.collector = c then r.given P c else []

theorem points_lastArrival (P : Platform) (r : Readings) (arrivals : List Arrival) (c : Collector) :
    (((lastArrival arrivals c).map (Arrival.result P r)).map CollectorResult.points).getD [] =
      r.outcome P arrivals c := by
  unfold Readings.outcome
  cases hlast : lastArrival arrivals c with
  | none =>
    rw [lastArrival, List.getLast?_eq_none_iff, List.filter_eq_nil_iff] at hlast
    rw [if_neg]
    · rfl
    · rintro ⟨a, ha, hc⟩
      exact hlast a ha (by simpa using hc)
  | some a =>
    have hmem := List.mem_filter.mp (List.mem_of_getLast? hlast)
    have hc : a.collector = c := by simpa using hmem.2
    rw [if_pos ⟨a, hmem.1, hc⟩, ← run_given P r c, ← hc]
    rfl

theorem collect_points (P : Platform) (r : Readings) (arrivals : List Arrival) :
    (collectExtendedMetrics (arrivals.map (Arrival.result P r))).points =
    collectors.flatMap (r.outcome P arrivals) := by
  rw [collectExtendedMetrics]
  refine (foldl_add_points _ collectors {}).trans ?_
  rw [List.nil_append]
  refine List.flatMap_congr fun c _ => ?_
  rw [byName_arrivals, points_lastArrival]

section Rules
variable {Q : MetricPoint → Prop} {labels : StringMap} {P : Platform}

theorem forall_given {name : String} {value : Float}
    (h : value.isNaN = false ∧ value.isInf = false →
      Q { name := name, value := value, labels := labels }) :
    ∀ p ∈ given name value labels, Q p := by
  intro p hp
  unfold given at hp
  split_ifs at hp with hgiven
  · rw [List.mem_singleton] at hp
    subst hp
    exact h hgiven.2
  · cases hp

theorem forall_givenFields {u : LetterCase} {fields : List StructField}
    {nameFunc : String → String} (h : ∀ name value, value.isNaN = false ∧ value.isInf = false →
      Q { name := nameFunc name, value := value, labels := labels }) :
    ∀ p ∈ givenFields u fields labels nameFunc, Q p := by
  refine List.forall_mem_flatMap.mpr fun field _ => List.forall_mem_flatMap.mpr fun value _ => ?_
  exact forall_given (h _ value)

theorem forall_givenCount {name : String} {answer : Option Int64}
    (h : ∀ value, value.isNaN = false ∧ value.isInf = false →
      Q { name := name, value := value, labels := ∅ }) :
    ∀ p ∈ givenCount name answer, Q p :=
  List.forall_mem_flatMap.mpr fun _ _ => forall_given (h _)

theorem forall_load {r : LoadReadings}
    (h : ∀ name value, value.isNaN = false ∧ value.isInf = false →
      Q { name := name, value := value, labels := ∅ }) :
    ∀ p ∈ r.given P, Q p := by
  rw [LoadReadings.given, List.forall_mem_append, List.forall_mem_flatMap]
  refine ⟨fun avg _ => ?_, forall_givenFields fun _ => h _⟩
  simp only [List.forall_mem_append]
  exact ⟨⟨forall_given (h _ _), forall_given (h _ _)⟩, forall_given (h _ _)⟩

theorem forall_filesystem {r : FilesystemReadings}
    (h : ∀ s value (partition : Partition), value.isNaN = false ∧ value.isInf = false →
      Q { name := "host_filesystem_" ++ s, value := value, labels := partition.labels }) :
    ∀ p ∈ r.given P, Q p := by
  refine List.forall_mem_flatMap.mpr fun partition _ =>
    List.forall_mem_flatMap.mpr fun usage _ => ?_
  have hone : ∀ s value, ∀ p ∈ given ("host_filesystem_" ++ s) value partition.labels, Q p :=
    fun s value => forall_given (h s value partition)
  unfold DiskUsage.given
  simp only [List.forall_mem_append]
  exact ⟨⟨⟨⟨⟨⟨⟨hone "total_bytes" _, hone "used_bytes" _⟩, hone "free_bytes" _⟩, hone "used_pct" _⟩,
    hone "inodes_total" _⟩, hone "inodes_used" _⟩, hone "inodes_free" _⟩, hone "inodes_used_pct" _⟩

theorem forall_network {r : NetworkReadings}
    (htotal : ∀ key ∈ ["interface", "protocol"], ∀ text s value,
      value.isNaN = false ∧ value.isInf = false →
      Q { name := s ++ "_total", value := value, labels := label key text })
    (hinterface : ∀ name ∈ ["host_net_interface_index", "host_net_interface_mtu_bytes"],
      ∀ text value, value.isNaN = false ∧ value.isInf = false →
      Q { name := name, value := value, labels := label "interface" text })
    (hplain : ∀ name value, value.isNaN = false ∧ value.isInf = false →
      Q { name := name, value := value, labels := ∅ }) :
    ∀ p ∈ r.given P, Q p := by
  refine List.forall_mem_flatMap.mpr fun counters _ => ?_
  simp only [List.forall_mem_append, List.forall_mem_flatMap]
  refine ⟨⟨⟨⟨fun stats _ => ?_, fun interface _ => ?_⟩, fun protocol _ stat _ => ?_⟩,
    fun fields _ => ?_⟩, fun fields _ => ?_⟩
  · exact forall_givenFields fun name value => htotal "interface" (by decide) _ _ value
  · rw [NetInterface.given, List.forall_mem_append]
    exact ⟨forall_given (hinterface _ (by decide) _ _), forall_given (hinterface _ (by decide) _ _)⟩
  · exact forall_given (htotal "protocol" (by decide) _ _ _)
  · exact forall_givenFields fun name value => hplain _ value
  · exact forall_givenFields fun name value => hplain _ value

theorem forall_times {times : List CPUTimes} (h : ∀ text s value,
      value.isNaN = false ∧ value.isInf = false →
      Q { name := s ++ "_seconds", value := value, labels := label "cpu" text }) :
    ∀ p ∈ times.flatMap fun times => givenFields P.letters times.fields (label "cpu" times.cpu)
      fun name => "host_cpu_time_" ++ name ++ "_seconds", Q p :=
  List.forall_mem_flatMap.mpr fun times _ => forall_givenFields fun _ value => h times.cpu _ value

theorem forall_info {values : List CPUInfo}
    (h : ∀ name ∈ ["host_cpu_frequency_mhz", "host_cpu_cache_size_kib"], ∀ text value,
      value.isNaN = false ∧ value.isInf = false →
      Q { name := name, value := value, labels := label "cpu" text }) :
    ∀ p ∈ values.flatMap CPUInfo.given, Q p := by
  refine List.forall_mem_flatMap.mpr fun info _ => ?_
  rw [CPUInfo.given, List.forall_mem_append]
  constructor
  · split_ifs
    · exact forall_given (h _ (by decide) _ _)
    · simp
  · split_ifs
    · exact forall_given (h _ (by decide) _ _)
    · simp

end Rules

/-- The labels that a collector puts on a point. -/
def CollectorLabels (labels : StringMap) : Prop :=
  labels = ∅ ∨ (∃ key ∈ ["cpu", "device", "interface", "protocol", "sensor"], ∃ value,
    labels = label key value) ∨ ∃ partition : Partition, labels = partition.labels

structure Sendable (p : MetricPoint) : Prop where
  finite : p.value.isNaN = false ∧ p.value.isInf = false
  labels : CollectorLabels p.labels

theorem toList_label (key value : String) : (label key value).toList = [(key, value)] := rfl

theorem toList_partition (partition : Partition) : partition.labels.toList =
    [("device", partition.device), ("fstype", partition.fstype),
      ("mountpoint", partition.mountpoint)] := rfl

/-- At most three labels, whose keys the code writes out. -/
theorem CollectorLabels.bounds {labels : StringMap} (h : CollectorLabels labels) :
    labels.toList.length ≤ 3 ∧ ∀ l ∈ labels.toList,
      l.1 ∈ ["cpu", "device", "fstype", "interface", "mountpoint", "protocol", "sensor"] := by
  rcases h with rfl | ⟨key, hkey, value, rfl⟩ | ⟨partition, rfl⟩
  · have hnone : (∅ : StringMap).toList = [] := rfl
    rw [hnone]
    simp
  · rw [toList_label]
    refine ⟨by simp, fun l hl => ?_⟩
    rw [List.mem_singleton.mp hl]
    simp only [List.mem_cons, List.not_mem_nil, or_false] at hkey ⊢
    tauto
  · rw [toList_partition]
    simp

/-- The values and the label keys of the collectors are always fit to be sent. -/
theorem sendable_readings (P : Platform) (r : Readings) (c : Collector) :
    ∀ p ∈ r.given P c, Sendable p := by
  have hplain : ∀ name value, value.isNaN = false ∧ value.isInf = false →
      Sendable { name := name, value := value, labels := ∅ } := fun _ _ h => ⟨h, .inl rfl⟩
  have hlabel : ∀ key ∈ ["cpu", "device", "interface", "protocol", "sensor"], ∀ name text value,
      value.isNaN = false ∧ value.isInf = false →
      Sendable { name := name, value := value, labels := label key text } :=
    fun key hkey _ text _ h => ⟨h, .inr (.inl ⟨key, hkey, text, rfl⟩)⟩
  cases c with
  | host => exact forall_givenFields fun _ => hplain _
  | cpu =>
    simp only [Readings.given, CPUReadings.given, List.forall_mem_append]
    refine ⟨⟨⟨⟨forall_givenCount (hplain _), forall_givenCount (hplain _)⟩, ?_⟩, ?_⟩, ?_⟩
    · exact List.forall_mem_flatMap.mpr fun _ _ => forall_given (hlabel "cpu" (by decide) _ _ _)
    · exact forall_times fun text s => hlabel "cpu" (by decide) _ text
    · exact forall_info fun name _ text => hlabel "cpu" (by decide) name text
  | memory => exact List.forall_mem_flatMap.mpr fun _ _ => forall_givenFields fun _ => hplain _
  | swap => exact List.forall_mem_flatMap.mpr fun _ _ => forall_givenFields fun _ => hplain _
  | load => exact forall_load hplain
  | filesystem => exact forall_filesystem fun _ _ partition h => ⟨h, .inr (.inr ⟨partition, rfl⟩)⟩
  | diskIo =>
    exact List.forall_mem_flatMap.mpr fun _ _ =>
      forall_givenFields fun _ => hlabel "device" (by decide) _ _
  | network =>
    refine forall_network (fun key hkey text s => hlabel key ?_ _ text)
      (fun name _ text => hlabel "interface" (by decide) name text) hplain
    rcases List.mem_pair.mp hkey with rfl | rfl <;> decide
  | sensors =>
    exact List.forall_mem_flatMap.mpr fun _ _ =>
      forall_givenFields fun _ => hlabel "sensor" (by decide) _ _

end Gaoming
