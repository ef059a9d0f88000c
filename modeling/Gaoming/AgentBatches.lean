import Gaoming.BatchAcceptance
import Gaoming.SummaryFidelity

/-!
# Which batches of the agent the server takes

The batch that `pushMetrics` builds from `collectExtendedMetrics`, against
`validateMetricBatch`. The collectors keep non-finite numbers out and write the label
keys themselves; they do not look at the names and texts of the machine, and nothing
counts the points.
-/

namespace Gaoming

/-- The status that one turn of the loop appends. -/
def collectorStatus (name : String) (arrived : Option CollectorResult) : CollectorStatus where
  name := name
  state :=
    if arrived.isNone || (arrived.getD { name := "" }).points.isEmpty then
      CollectorState.unavailable
    else if 0 < (arrived.getD { name := "" }).failures then CollectorState.degraded
    else CollectorState.available
  metricNames := uniqueMetricNames (arrived.getD { name := "" }).points
  durationMicros := Int64.ofInt ((arrived.getD { name := "" }).duration.tdiv 1000)
  timedOut := arrived.isNone || (arrived.getD { name := "" }).timedOut

theorem add_statuses (c : Collected) (name : String) (arrived : Option CollectorResult) :
    (c.add name arrived).statuses = c.statuses ++ [collectorStatus name arrived] := by
  by_cases h : (collectorStatus name arrived).state = CollectorState.unavailable
  · exact congrArg Collected.statuses (if_pos h)
  · exact congrArg Collected.statuses (if_neg h)

theorem foldl_add_statuses (arrived : String → Option CollectorResult) (l : List Collector)
    (c : Collected) :
    (l.foldl (fun c collector => c.add collector.name (arrived collector.name)) c).statuses =
      c.statuses ++ l.map fun collector =>
        collectorStatus collector.name (arrived collector.name) := by
  induction l generalizing c with
  | nil => simp
  | cons collector rest ih =>
    rw [List.foldl_cons, ih, add_statuses, List.map_cons, List.append_assoc, List.singleton_append]

section Collected
variable (P : Platform) (r : Readings) (arrivals : List Arrival)

def statusOf (c : Collector) : CollectorStatus :=
  collectorStatus c.name ((lastArrival arrivals c).map (Arrival.result P r))

theorem collect_statuses : (collectExtendedMetrics (arrivals.map (Arrival.result P r))).statuses =
    collectors.map (statusOf P r arrivals) := by
  rw [collectExtendedMetrics]
  refine (foldl_add_statuses _ collectors {}).trans ?_
  rw [List.nil_append]
  refine List.map_congr_left fun c _ => ?_
  rw [byName_arrivals, statusOf]

theorem metricNames_statusOf (c : Collector) : (statusOf P r arrivals c).metricNames =
    uniqueMetricNames (r.outcome P arrivals c) := by
  rw [← points_lastArrival]
  cases h : lastArrival arrivals c with
  | none => simp only [statusOf, collectorStatus, h]; rfl
  | some a => simp only [statusOf, collectorStatus, h]; rfl

variable {P r arrivals}

theorem duration_statusOf {c : Collector}
    (hclock : ∀ a ∈ arrivals, 0 ≤ a.duration ∧ a.duration < 2 ^ 63) :
    0 ≤ (statusOf P r arrivals c).durationMicros.toInt := by
  cases h : lastArrival arrivals c with
  | none =>
    simp only [statusOf, collectorStatus, h, Option.map_none, Option.getD_none]
    decide
  | some a =>
    obtain ⟨hlow, hhigh⟩ := hclock a (List.mem_filter.mp (List.mem_of_getLast? h)).1
    have hmicros :
        (statusOf P r arrivals c).durationMicros = Int64.ofInt (a.duration.tdiv 1000) := by
      simp only [statusOf, collectorStatus, h]
      rfl
    have hdiv : a.duration.tdiv 1000 = a.duration / 1000 := Int.tdiv_eq_ediv_of_nonneg hlow
    rw [hmicros, hdiv, Int64.toInt_ofInt_of_le (by omega) (by omega)]
    omega

end Collected

def fixedNames : List String := "runtime_uptime_seconds" :: summaryNames

/-- The points of the collectors that stay in the batch: the first of each name and labels. -/
def sentPoints (outcome : Collector → List MetricPoint) : List MetricPoint :=
  FirstOccurrence.keep metricPointIdentity fixedNames (collectors.flatMap outcome)

def metricNameSet (points : List MetricPoint) : Finset String :=
  (points.map MetricPoint.name).toFinset

def MetricPoint.textBytes (p : MetricPoint) : ℕ :=
  p.name.utf8ByteSize + (p.labels.toList.map fun l => l.1.utf8ByteSize + l.2.utf8ByteSize).sum

/-- The bytes of the names that every batch has. -/
def fixedBytes : ℕ :=
  (fixedNames.map String.utf8ByteSize).sum + (collectors.map fun c => c.name.utf8ByteSize).sum

/-- The outcome of the collectors is within the limits of the server. -/
structure WithinLimits (u : Unicode) (uptime : Float) (digest : AgentDigest)
    (outcome : Collector → List MetricPoint) : Prop where
  finite : ∀ x ∈ [uptime, digest.cpuUsagePct, digest.memUsedPct, digest.swapUsedPct,
    digest.diskUsedPct, digest.diskInodesUsedPct, digest.load1], x.isNaN = false ∧ x.isInf = false
  names : ∀ c ∈ collectors, ∀ p ∈ outcome c, GoString.Identifier u p.name.toUTF8 128
  labelValues : ∀ p ∈ sentPoints outcome, ∀ l ∈ p.labels.toList, GoString.PlainText l.2.toUTF8 256
  pointCount : 17 + (sentPoints outcome).length ≤ 4096
  nameCount : (collectors.map fun c => (metricNameSet (outcome c)).card).sum ≤ 4096
  bytes : fixedBytes + ((sentPoints outcome).map MetricPoint.textBytes).sum +
    (collectors.map fun c => ∑ name ∈ metricNameSet (outcome c), name.utf8ByteSize).sum ≤ 2 ^ 20

/-- The letters and digits of ASCII are letters and digits. -/
structure Unicode.CoversAscii (u : Unicode) : Prop where
  letters : ∀ c : Char, c.isAlpha = true → u.isLetter c = true
  digits : ∀ c : Char, c.isDigit = true → u.isDigit c = true

theorem encode_stamped (now : Time) (p : MetricPoint) : (stamped now p).encode = p.encode := by
  unfold stamped
  split <;> rfl

theorem bytes_encode (p : MetricPoint) : p.encode.bytes = p.textBytes := by
  simp only [GoPoint.bytes, MetricPoint.encode, labelBytes, MetricPoint.textBytes, List.map_map]
  rfl

theorem mem_uniqueMetricNames {points : List MetricPoint} {name : String} :
    name ∈ uniqueMetricNames points ↔ ∃ p ∈ points, p.name = name := by
  rw [uniqueMetricNames, List.mem_insertionSort, List.mem_dedup, List.mem_map]

theorem length_uniqueMetricNames (points : List MetricPoint) :
    (uniqueMetricNames points).length = (metricNameSet points).card := by
  rw [uniqueMetricNames, List.length_insertionSort, metricNameSet, List.card_toFinset]

theorem bytes_uniqueMetricNames (points : List MetricPoint) :
    ((uniqueMetricNames points).map String.utf8ByteSize).sum =
      ∑ name ∈ metricNameSet points, name.utf8ByteSize := by
  have hperm := List.perm_insertionSort (· ≤ ·) (points.map MetricPoint.name).dedup
  have hset : (points.map MetricPoint.name).dedup.toFinset = metricNameSet points := by
    ext name
    rw [metricNameSet, List.mem_toFinset, List.mem_toFinset, List.mem_dedup]
  rw [uniqueMetricNames, (hperm.map String.utf8ByteSize).sum_eq, ← hset,
    List.sum_toFinset _ (List.nodup_dedup _)]

section Acceptable
variable {u : Unicode} (hu : u.CoversAscii)
include hu

theorem Unicode.CoversAscii.identifier {s : String} {n : ℕ} (hne : s ≠ "")
    (hsize : s.utf8ByteSize ≤ n)
    (hall : (s.toList.all fun c => c.isAlpha || c.isDigit || c == '_') = true) :
    GoString.Identifier u s.toUTF8 n := by
  refine ⟨s, rfl, hne, hsize, fun c hc => ?_⟩
  have hchar := List.all_eq_true.mp hall c hc
  rw [Bool.or_eq_true, Bool.or_eq_true, beq_iff_eq] at hchar
  rcases hchar with (hletter | hdigit) | rfl
  · exact .inl (hu.letters c hletter)
  · exact .inr (.inl (hu.digits c hdigit))
  · exact .inr (.inr (by simp))

theorem Unicode.CoversAscii.identifiers {l : List String} {n : ℕ}
    (h : ∀ s ∈ l, s ≠ "" ∧ s.utf8ByteSize ≤ n ∧
      (s.toList.all fun c => c.isAlpha || c.isDigit || c == '_') = true) {s : String} (hs : s ∈ l) :
    GoString.Identifier u s.toUTF8 n :=
  hu.identifier (h s hs).1 (h s hs).2.1 (h s hs).2.2

theorem acceptable_fixed {name : String} (hname : name ∈ fixedNames) (value : Float) (now : Time) :
    (MetricPoint.mk name value now ∅).encode.Acceptable u ↔
      value.isNaN = false ∧ value.isInf = false := by
  constructor
  · exact fun h => h.finite
  · intro h
    refine ⟨hu.identifiers (l := fixedNames) (by decide) hname, h, by simp [MetricPoint.encode], ?_⟩
    intro l hl
    have hnone : (∅ : StringMap).toList = [] := rfl
    simp [MetricPoint.encode, hnone] at hl

theorem acceptable_fixedPoints (uptime : Float) (digest : AgentDigest) (now : Time) :
    (∀ p ∈ MetricPoint.mk "runtime_uptime_seconds" uptime now ∅ :: summaryPoints digest now,
      p.encode.Acceptable u) ↔
    ∀ x ∈ [uptime, digest.cpuUsagePct, digest.memUsedPct, digest.swapUsedPct,
      digest.diskUsedPct, digest.diskInodesUsedPct, digest.load1],
      x.isNaN = false ∧ x.isInf = false := by
  have hfixed : ∀ name ∈ fixedNames, ∀ value,
      (MetricPoint.mk name value now ∅).encode.Acceptable u ↔
      value.isNaN = false ∧ value.isInf = false :=
    fun name hname value => acceptable_fixed hu hname value now
  have hints : ∀ n : Int64, (FloatInteger.ofInt64 n).isNaN = false ∧
      (FloatInteger.ofInt64 n).isInf = false := FloatInteger.finite_ofInt64
  simp only [fixedNames, summaryNames, List.forall_mem_cons] at hfixed
  simp only [summaryPoints, List.forall_mem_cons, hfixed, hints]
  simp

theorem acceptable_sendable {p : MetricPoint} (h : Sendable p) :
    p.encode.Acceptable u ↔ GoString.Identifier u p.name.toUTF8 128 ∧
      ∀ l ∈ p.labels.toList, GoString.PlainText l.2.toUTF8 256 := by
  obtain ⟨hlength, hkeys⟩ := h.labels.bounds
  constructor
  · intro hp
    refine ⟨hp.name, fun l hl => ?_⟩
    exact (hp.labels (l.1.toUTF8, l.2.toUTF8) (List.mem_map_of_mem hl)).2
  · rintro ⟨hname, hvalues⟩
    refine ⟨hname, h.finite, ?_, ?_⟩
    · rw [MetricPoint.encode, List.length_map]
      omega
    · intro l hl
      obtain ⟨l, hmem, rfl⟩ := List.mem_map.mp hl
      exact ⟨hu.identifiers (by decide) (hkeys l hmem), hvalues l hmem⟩

theorem acceptable_status {P : Platform} {r : Readings} {arrivals : List Arrival} {c : Collector}
    (hc : c ∈ collectors) (hclock : ∀ a ∈ arrivals, 0 ≤ a.duration ∧ a.duration < 2 ^ 63) :
    (statusOf P r arrivals c).encode.Acceptable u ↔
      ∀ p ∈ r.outcome P arrivals c, GoString.Identifier u p.name.toUTF8 128 := by
  constructor
  · intro h p hp
    refine h.metricNames _ (List.mem_map_of_mem ?_)
    rw [metricNames_statusOf, mem_uniqueMetricNames]
    exact ⟨p, hp, rfl⟩
  · intro h
    refine ⟨?_, ?_, duration_statusOf hclock, ?_⟩
    · exact hu.identifiers (l := collectors.map Collector.name) (by decide) (List.mem_map_of_mem hc)
    · change (statusOf P r arrivals c).state ∈ _
      simp only [statusOf, collectorStatus]
      split_ifs <;> simp
    · intro name hname
      obtain ⟨name, hmem, rfl⟩ := List.mem_map.mp hname
      rw [metricNames_statusOf, mem_uniqueMetricNames] at hmem
      obtain ⟨p, hp, rfl⟩ := hmem
      exact h p hp

end Acceptable

/-- The batch of `pushMetrics` for the points and statuses of `collectExtendedMetrics`. -/
def Agent.collectedBatch (a : Agent) (now : Time) (uptime : Float) (digest : AgentDigest)
    (metrics : SystemMetrics) (received : List CollectorResult) : PushMetricBatchRequest :=
  (a.pushMetrics now uptime digest { metrics with
    extraPoints := (collectExtendedMetrics received).points
    capabilities := (collectExtendedMetrics received).capabilities
    collectors := (collectExtendedMetrics received).statuses }).2

theorem keep_stamped (now : Time) (seen : List String) (points : List MetricPoint) :
    FirstOccurrence.keep metricPointIdentity seen (points.map (stamped now)) =
      (FirstOccurrence.keep metricPointIdentity seen points).map (stamped now) := by
  have hidentity : metricPointIdentity ∘ stamped now = metricPointIdentity :=
    funext (identity_stamped now)
  rw [FirstOccurrence.keep_map, hidentity]

section Batch
variable (a : Agent) (now : Time) (uptime : Float) (digest : AgentDigest) (metrics : SystemMetrics)
  (P : Platform) (r : Readings) (arrivals : List Arrival)

theorem points_encode_batch : (a.collectedBatch now uptime digest metrics
      (arrivals.map (Arrival.result P r))).encode.points =
    (MetricPoint.mk "runtime_uptime_seconds" uptime now ∅ :: summaryPoints digest now).map
      MetricPoint.encode ++ (sentPoints (r.outcome P arrivals)).map MetricPoint.encode := by
  change (appendMetricPoints _ (collectExtendedMetrics _).points now).map MetricPoint.encode = _
  have hencode : MetricPoint.encode ∘ stamped now = MetricPoint.encode :=
    funext (encode_stamped now)
  rw [appendMetricPoints, identities_of_fixed, appendExtraPoints_eq, collect_points, keep_stamped,
    List.map_append, List.map_map, hencode]
  rfl

theorem collectors_encode_batch : (a.collectedBatch now uptime digest metrics
      (arrivals.map (Arrival.result P r))).encode.collectors =
    collectors.map fun c => (statusOf P r arrivals c).encode := by
  change (collectExtendedMetrics _).statuses.map CollectorStatus.encode = _
  rw [collect_statuses, List.map_map]
  rfl

theorem sendable_sent : ∀ p ∈ sentPoints (r.outcome P arrivals), Sendable p := by
  intro p hp
  obtain ⟨c, -, hp⟩ := List.mem_flatMap.mp (FirstOccurrence.mem_keep hp).1
  unfold Readings.outcome at hp
  split_ifs at hp
  · exact sendable_readings P r c p hp
  · cases hp

theorem bytes_encode_batch :
    ((a.collectedBatch now uptime digest metrics
        (arrivals.map (Arrival.result P r))).encode.points.map GoPoint.bytes).sum +
      ((a.collectedBatch now uptime digest metrics
        (arrivals.map (Arrival.result P r))).encode.collectors.map GoCollector.bytes).sum =
    fixedBytes + ((sentPoints (r.outcome P arrivals)).map MetricPoint.textBytes).sum +
      (collectors.map fun c => ∑ name ∈ metricNameSet (r.outcome P arrivals c),
        name.utf8ByteSize).sum := by
  have hbytes : GoPoint.bytes ∘ MetricPoint.encode = MetricPoint.textBytes := funext bytes_encode
  have hfixed : ((MetricPoint.mk "runtime_uptime_seconds" uptime now ∅ ::
      summaryPoints digest now).map MetricPoint.textBytes).sum =
      (fixedNames.map String.utf8ByteSize).sum := rfl
  have hstatus : ∀ c, (statusOf P r arrivals c).encode.bytes = c.name.utf8ByteSize +
      ∑ name ∈ metricNameSet (r.outcome P arrivals c), name.utf8ByteSize := by
    intro c
    rw [← bytes_uniqueMetricNames, ← metricNames_statusOf]
    simp only [GoCollector.bytes, CollectorStatus.encode, List.map_map]
    rfl
  rw [points_encode_batch, collectors_encode_batch, List.map_append, List.sum_append, List.map_map,
    List.map_map, List.map_map, hbytes, hfixed, fixedBytes]
  simp only [Function.comp_def, hstatus, List.sum_map_add]
  omega

/-- The batch is taken when the outcome of the collectors is within the limits, and only then. -/
theorem agent_batch_accepted_iff {u : Unicode} (hu : u.CoversAscii) {arrivals : List Arrival}
    (hclock : ∀ x ∈ arrivals, 0 ≤ x.duration ∧ x.duration < 2 ^ 63) :
    validateMetricBatch u (a.collectedBatch now uptime digest metrics
        (arrivals.map (Arrival.result P r))) = .ok () ↔
      WithinLimits u uptime digest (r.outcome P arrivals) := by
  have hpoints := points_encode_batch a now uptime digest metrics P r arrivals
  have hcollectors := collectors_encode_batch a now uptime digest metrics P r arrivals
  have hbytes := bytes_encode_batch a now uptime digest metrics P r arrivals
  have hsent := sendable_sent P r arrivals
  have hcount : (collectors.map fun c => (statusOf P r arrivals c).encode.metricNames.length) =
      collectors.map fun c => (metricNameSet (r.outcome P arrivals c)).card := by
    refine List.map_congr_left fun c _ => ?_
    rw [← length_uniqueMetricNames, ← metricNames_statusOf, CollectorStatus.encode, List.length_map]
  have hlength : (MetricPoint.mk "runtime_uptime_seconds" uptime now ∅ ::
      summaryPoints digest now).length = 17 := rfl
  rw [← validateMetricBatch_encode, GoBatch.validateMetricBatch_ok_iff]
  generalize a.collectedBatch now uptime digest metrics (arrivals.map (Arrival.result P r)) = batch
    at hpoints hcollectors hbytes
  constructor
  · intro h
    have hall := h.points
    rw [hpoints, List.forall_mem_append, List.forall_mem_map, List.forall_mem_map] at hall
    have hstatuses := h.collectors
    rw [hcollectors, List.forall_mem_map] at hstatuses
    have hnames : ∀ c ∈ collectors, ∀ p ∈ r.outcome P arrivals c,
        GoString.Identifier u p.name.toUTF8 128 :=
      fun c hc => (acceptable_status hu hc hclock).mp (hstatuses c hc)
    refine ⟨(acceptable_fixedPoints hu uptime digest now).mp hall.1, hnames, ?_, ?_, ?_, ?_⟩
    · exact fun p hp => ((acceptable_sendable hu (hsent p hp)).mp (hall.2 p hp)).2
    · have := h.pointCount
      rwa [hpoints, List.length_append, List.length_map, List.length_map, hlength] at this
    · have := h.metricNames
      rwa [hcollectors, List.map_map, Function.comp_def, hcount] at this
    · exact hbytes ▸ h.bytes
  · intro h
    have hmem : ∀ p ∈ sentPoints (r.outcome P arrivals),
        GoString.Identifier u p.name.toUTF8 128 := by
      intro p hp
      obtain ⟨c, hc, hp⟩ := List.mem_flatMap.mp (FirstOccurrence.mem_keep hp).1
      exact h.names c hc p hp
    refine ⟨?_, ?_, ?_, ?_, ?_, ?_⟩
    · rw [hpoints, List.length_append, List.length_map, List.length_map, hlength]
      exact h.pointCount
    · rw [hcollectors, List.length_map]
      decide
    · rw [hpoints, List.forall_mem_append, List.forall_mem_map, List.forall_mem_map]
      refine ⟨(acceptable_fixedPoints hu uptime digest now).mpr h.finite, fun p hp => ?_⟩
      exact (acceptable_sendable hu (hsent p hp)).mpr ⟨hmem p hp, h.labelValues p hp⟩
    · rw [hcollectors, List.forall_mem_map]
      exact fun c hc => (acceptable_status hu hc hclock).mpr (h.names c hc)
    · rw [hcollectors, List.map_map, Function.comp_def, hcount]
      exact h.nameCount
    · exact hbytes ▸ h.bytes

end Batch

def FiniteUsage (value : Float) : Prop :=
  (clampPercent value).isNaN = false ∧ (clampPercent value).isInf = false

instance (value : Float) : Decidable (FiniteUsage value) := inferInstanceAs (Decidable (_ ∧ _))

theorem countP_coreUsage (index : ℕ) (values : List Float) :
    (coreUsage index values).countP isCoreUsage = values.countP fun v => FiniteUsage v := by
  induction values generalizing index with
  | nil => rfl
  | cons value rest ih =>
    rw [coreUsage, List.countP_append, ih, List.countP_cons, Nat.add_comm, appendPoint_given,
      List.nil_append, given]
    congr 1
    by_cases h : FiniteUsage value
    · rw [if_pos ⟨by decide, h⟩, if_pos (decide_eq_true h), List.countP_singleton,
        if_pos (isCoreUsage_of_core rfl rfl)]
    · rw [if_neg fun hgiven => h hgiven.2, if_neg (by simpa using h)]
      rfl

theorem cores_le_sent (P : Platform) {r : Readings} {arrivals : List Arrival}
    (hcpu : ∃ a ∈ arrivals, a.collector = .cpu) :
    ((r.cpu.percent.getD []).countP fun v => FiniteUsage v) ≤
      (sentPoints (r.outcome P arrivals)).length := by
  obtain ⟨hkinds, hpairs⟩ := extra_points P r arrivals
  rw [collect_points] at hkinds hpairs
  obtain ⟨before, after, hpoints, -, -⟩ := cpu_points P r.cpu
  have hgiven : r.outcome P arrivals .cpu =
      before ++ coreUsage 0 (r.cpu.percent.getD []) ++ after := by
    rw [Readings.outcome, if_pos hcpu, ← hpoints]
    rfl
  have hkept : (sentPoints (r.outcome P arrivals)).countP isCoreUsage =
      (collectors.flatMap (r.outcome P arrivals)).countP isCoreUsage := by
    rw [List.countP_eq_length_filter, List.countP_eq_length_filter, sentPoints,
      FirstOccurrence.filter_keep _ hpairs]
    intro p hp hcore
    rcases hkinds p hp with hplain | ⟨i, hname, hlabels⟩
    · rw [isCoreUsage_of_plain hplain] at hcore
      cases hcore
    · rw [identity_of_core hname hlabels]
      exact core_not_fixed i
  have hsub : (r.outcome P arrivals .cpu).Sublist (collectors.flatMap (r.outcome P arrivals)) := by
    rw [List.flatMap_def]
    exact List.sublist_flatten_of_mem (List.mem_map_of_mem (by decide))
  calc ((r.cpu.percent.getD []).countP fun v => FiniteUsage v)
      = (coreUsage 0 (r.cpu.percent.getD [])).countP isCoreUsage := (countP_coreUsage 0 _).symm
    _ ≤ (r.outcome P arrivals .cpu).countP isCoreUsage := by
      rw [hgiven, List.countP_append, List.countP_append]
      omega
    _ ≤ (collectors.flatMap (r.outcome P arrivals)).countP isCoreUsage := hsub.countP_le
    _ = (sentPoints (r.outcome P arrivals)).countP isCoreUsage := hkept.symm
    _ ≤ (sentPoints (r.outcome P arrivals)).length := List.countP_le_length

theorem refused_of_many_cores (u : Unicode) (a : Agent) (now : Time) (uptime : Float)
    (digest : AgentDigest) (metrics : SystemMetrics) (P : Platform) {r : Readings}
    {arrivals : List Arrival} (hcpu : ∃ a ∈ arrivals, a.collector = .cpu)
    (hmany : 4079 < (r.cpu.percent.getD []).countP fun v => FiniteUsage v) :
    ∃ n, validateMetricBatch u (a.collectedBatch now uptime digest metrics
      (arrivals.map (Arrival.result P r))) = .error (.pointCount n) := by
  have hpoints := congrArg List.length
    (points_encode_batch a now uptime digest metrics P r arrivals)
  rw [List.length_append, List.length_map, List.length_map] at hpoints
  have hlength : (MetricPoint.mk "runtime_uptime_seconds" uptime now ∅ ::
      summaryPoints digest now).length = 17 := rfl
  have hsent := cores_le_sent P (r := r) hcpu
  rw [← validateMetricBatch_encode, GoBatch.validateMetricBatch, if_pos]
  · exact ⟨_, rfl⟩
  · rw [hpoints, hlength, maxMetricPoints]
    omega

theorem refused_of_label (u : Unicode) (a : Agent) (now : Time) (uptime : Float)
    (digest : AgentDigest) (metrics : SystemMetrics) (P : Platform) {r : Readings}
    {arrivals : List Arrival} {p : MetricPoint} (hp : p ∈ sentPoints (r.outcome P arrivals))
    {l : String × String} (hl : l ∈ p.labels.toList) (htext : validText l.2 256 = false) :
    ∃ e, validateMetricBatch u (a.collectedBatch now uptime digest metrics
      (arrivals.map (Arrival.result P r))) = .error e := by
  cases hvalid : validateMetricBatch u (a.collectedBatch now uptime digest metrics
      (arrivals.map (Arrival.result P r))) with
  | error e => exact ⟨e, rfl⟩
  | ok _ =>
    rw [← validateMetricBatch_encode] at hvalid
    have hall := (GoBatch.validateMetricBatch_ok_iff.mp hvalid).points
    rw [points_encode_batch, List.forall_mem_append, List.forall_mem_map,
      List.forall_mem_map] at hall
    have hplain := ((hall.2 p hp).labels (l.1.toUTF8, l.2.toUTF8) (List.mem_map_of_mem hl)).2
    rw [← GoString.validText_iff, validText_toUTF8, htext] at hplain
    cases hplain

-- A machine with a network interface; one with a line break in the name of a mount point; one
-- with 4080 idle cores.

def oneInterface : Readings where
  network := { counters := some [], interfaces := some [⟨"eth0", 2, 1500⟩] }

def twoPartitions : List Partition :=
  [⟨"/dev/sda1", "/", "ext4"⟩, ⟨"/dev/sdb1", "/mnt/a\nb", "ext4"⟩]

def halfFull : DiskUsage := ⟨100, 50, 50, 50, 10, 5, 5, 50⟩

def lineBreak : Readings where
  filesystem := { partitions := some twoPartitions, usage := fun _ => some halfFull }

def manyCores : Readings where
  cpu := { percent := some (List.replicate 4080 0) }

theorem coversAscii_asciiOnly : asciiOnly.CoversAscii := ⟨fun _ h => h, fun _ h => h⟩

theorem agent_batch_accepted_interface :
    validateMetricBatch asciiOnly (sampleAgent.collectedBatch 0 1 {} {}
        ([⟨.network, 1000, false⟩].map (Arrival.result samplePlatform oneInterface))) = .ok () ∧
    WithinLimits asciiOnly 1 {}
      (oneInterface.outcome samplePlatform [⟨.network, 1000, false⟩]) := by
  have hvalid : validateMetricBatch asciiOnly (sampleAgent.collectedBatch 0 1 {} {}
      ([⟨.network, 1000, false⟩].map (Arrival.result samplePlatform oneInterface))) = .ok () := by
    decide +kernel
  refine ⟨hvalid, ?_⟩
  exact (agent_batch_accepted_iff sampleAgent 0 1 {} {} samplePlatform oneInterface
    coversAscii_asciiOnly (by simp)).mp hvalid

/-- Both batches are lost with all their points. -/
theorem agent_batch_refused :
    (∃ e, validateMetricBatch asciiOnly (sampleAgent.collectedBatch 0 1 {} {}
        ([⟨.filesystem, 1000, false⟩].map (Arrival.result samplePlatform lineBreak))) = .error e) ∧
    ∃ n, validateMetricBatch asciiOnly (sampleAgent.collectedBatch 0 1 {} {}
        ([⟨.cpu, 1000, false⟩].map (Arrival.result samplePlatform manyCores))) =
      .error (.pointCount n) := by
  constructor
  · -- The root is in the list, so the partitions are asked as they stand.
    have hasked : lineBreak.filesystem.asked samplePlatform = twoPartitions := by
      simp [FilesystemReadings.asked, lineBreak, twoPartitions, samplePlatform,
        FirstOccurrence.keep]
    have houtcome : lineBreak.outcome samplePlatform [⟨.filesystem, 1000, false⟩] = fun c =>
        if c = .filesystem then twoPartitions.flatMap fun p => halfFull.given p.labels else [] := by
      funext c
      cases c <;> simp [Readings.outcome, Readings.given, FilesystemReadings.given, hasked]
      rfl
    have hsent : ∃ p ∈ sentPoints (lineBreak.outcome samplePlatform [⟨.filesystem, 1000, false⟩]),
        ∃ l ∈ p.labels.toList, validText l.2 256 = false := by
      rw [houtcome]
      decide +kernel
    obtain ⟨p, hp, l, hl, htext⟩ := hsent
    exact refused_of_label asciiOnly sampleAgent 0 1 {} {} samplePlatform hp hl htext
  · refine refused_of_many_cores asciiOnly sampleAgent 0 1 {} {} samplePlatform (by simp) ?_
    have hidle : FiniteUsage 0 := by decide +kernel
    have hcount : (List.replicate 4080 (0 : Float)).countP (fun v => FiniteUsage v) = 4080 := by
      rw [List.countP_replicate, if_pos (decide_eq_true hidle)]
    change 4079 < (List.replicate 4080 (0 : Float)).countP (fun v => FiniteUsage v)
    omega

end Gaoming
