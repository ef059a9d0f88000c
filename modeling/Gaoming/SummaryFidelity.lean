import Gaoming.CollectorPoints
import Gaoming.IngestService
import Gaoming.MetricCodec

/-!
# The summary from the agent to the server

The server folds the points of a batch by name alone. The labelled points of the
cores come after the summary points and have the name of the processor's summary,
so the last of them decides its value; the other fifteen values arrive unchanged.
-/

namespace Gaoming

theorem record_of_not_summary {point : MetricPoint} (digest : AgentDigest)
    (h : point.name ∉ summaryNames) : digest.record point = digest := by
  unfold AgentDigest.record
  split
  all_goals first
    | rfl
    | (rename_i hname; exact absurd hname (fun hname => h (by rw [hname]; decide)))

theorem record_core {point : MetricPoint} (digest : AgentDigest)
    (h : point.name = "host_cpu_usage_pct") :
    digest.record point = { digest with cpuUsagePct := point.value } := by
  rw [AgentDigest.record, h]
  rfl

/-- The integers of the summary fit the mantissa of a float. -/
structure Exact (m : SummaryMetrics) : Prop where
  memAvailableBytes : m.memAvailableBytes.toInt.natAbs < 2 ^ 53
  diskFreeBytes : m.diskFreeBytes.toInt.natAbs < 2 ^ 53
  diskReadBPS : m.diskReadBPS.toInt.natAbs < 2 ^ 53
  diskWriteBPS : m.diskWriteBPS.toInt.natAbs < 2 ^ 53
  diskReadIOPS : m.diskReadIOPS.toInt.natAbs < 2 ^ 53
  diskWriteIOPS : m.diskWriteIOPS.toInt.natAbs < 2 ^ 53
  netRxBPS : m.netRxBPS.toInt.natAbs < 2 ^ 53
  netTxBPS : m.netTxBPS.toInt.natAbs < 2 ^ 53
  netRxPacketsPS : m.netRxPacketsPS.toInt.natAbs < 2 ^ 53
  netTxPacketsPS : m.netTxPacketsPS.toInt.natAbs < 2 ^ 53

theorem foldl_summaryPoints (digest start : AgentDigest) (now : Time)
    (h : Exact digest.toSummaryMetrics) :
    (summaryPoints digest now).foldl AgentDigest.record start =
      { start with toSummaryMetrics := digest.toSummaryMetrics } := by
  simp only [summaryPoints, List.foldl_cons, List.foldl_nil, AgentDigest.record,
    FloatInteger.toInt64_ofInt64 h.memAvailableBytes, FloatInteger.toInt64_ofInt64 h.diskFreeBytes,
    FloatInteger.toInt64_ofInt64 h.diskReadBPS, FloatInteger.toInt64_ofInt64 h.diskWriteBPS,
    FloatInteger.toInt64_ofInt64 h.diskReadIOPS, FloatInteger.toInt64_ofInt64 h.diskWriteIOPS,
    FloatInteger.toInt64_ofInt64 h.netRxBPS, FloatInteger.toInt64_ofInt64 h.netTxBPS,
    FloatInteger.toInt64_ofInt64 h.netRxPacketsPS, FloatInteger.toInt64_ofInt64 h.netTxPacketsPS]

/-- Where summary names occur on cores only, the last core decides. -/
theorem foldl_record_cores (digest : AgentDigest) (points : List MetricPoint)
    (h : ∀ p ∈ points, p.name ∈ summaryNames → isCoreUsage p = true) :
    points.foldl AgentDigest.record digest = { digest with
      cpuUsagePct := (((points.filter isCoreUsage).getLast?).map MetricPoint.value).getD
        digest.cpuUsagePct } := by
  induction points using List.reverseRecOn with
  | nil => rfl
  | append_singleton points p ih =>
    have hinit : ∀ x ∈ points, x.name ∈ summaryNames → isCoreUsage x = true :=
      fun x hx => h x (List.mem_append_left _ hx)
    rw [List.foldl_append, ih hinit, List.foldl_cons, List.foldl_nil, List.filter_append]
    by_cases hcore : isCoreUsage p = true
    · have hname : p.name = "host_cpu_usage_pct" := by
        simp only [isCoreUsage, Bool.and_eq_true, decide_eq_true_eq] at hcore
        exact hcore.1
      rw [record_core _ hname, List.filter_cons_of_pos hcore, List.filter_nil,
        List.getLast?_concat]
      rfl
    · have hnot : p.name ∉ summaryNames :=
        fun hname => hcore (h p (List.mem_append_right _ (List.mem_singleton_self p)) hname)
      rw [record_of_not_summary _ hnot, List.filter_cons_of_neg hcore, List.filter_nil,
        List.append_nil]

theorem pairwise_points {before core after : List MetricPoint} {values : List Float}
    (hbefore : ∀ p ∈ before, Leading p) (hcore : core = coreUsage 0 values)
    (hafter : ∀ p ∈ after, Plain p) : (before ++ core ++ after).Pairwise fun x y =>
      isCoreUsage y = true → metricPointIdentity x ≠ metricPointIdentity y := by
  rw [List.pairwise_append, List.pairwise_append]
  have hplain : ∀ {x y : MetricPoint}, Plain y → isCoreUsage y = true →
      metricPointIdentity x ≠ metricPointIdentity y := by
    intro x y hy hc
    rw [isCoreUsage_of_plain hy] at hc
    cases hc
  refine ⟨⟨?_, ?_, ?_⟩, ?_, fun x _ y hy => hplain (hafter y hy)⟩
  · exact List.pairwise_of_forall_mem_list fun x _ y hy => hplain (hbefore y hy).plain
  · rw [hcore]
    exact coreUsage_pairwise 0 values
  · intro x hx y hy _
    obtain ⟨i, -, hname, hlabels⟩ := mem_coreUsage (hcore ▸ hy)
    rw [identity_of_unlabelled (hbefore x hx).1, identity_of_core hname hlabels]
    exact (hbefore x hx).2 i
  · exact List.pairwise_of_forall_mem_list fun x _ y hy => hplain (hafter y hy)

theorem extra_points (P : Platform) (r : Readings) (arrivals : List Arrival) :
    let points := (collectExtendedMetrics (arrivals.map (Arrival.result P r))).points
    (∀ p ∈ points, Plain p ∨ ∃ i : ℕ, p.name = "host_cpu_usage_pct" ∧
      p.labels = label "cpu" ("cpu" ++ toString i)) ∧
      points.Pairwise fun x y =>
        isCoreUsage y = true → metricPointIdentity x ≠ metricPointIdentity y := by
  obtain ⟨before, after, hcpu, hbefore, hafter⟩ := cpu_points P r.cpu
  -- The host comes first, then the processor; no collector after it has labelled summary names.
  let rest := [Collector.memory, .swap, .load, .filesystem, .diskIo, .network, .sensors].flatMap
    (r.outcome P arrivals)
  have hhost : ∀ p ∈ r.outcome P arrivals .host, Leading p := by
    unfold Readings.outcome
    split_ifs
    · exact leading_host P _
    · simp
  have hrest : ∀ p ∈ rest, Plain p := by
    refine List.forall_mem_flatMap.mpr fun c hc => ?_
    unfold Readings.outcome
    split_ifs
    · refine plain_given P r c ?_
      rintro rfl
      simp at hc
    · simp
  have hshape : ∃ before core after values,
      (collectExtendedMetrics (arrivals.map (Arrival.result P r))).points =
        before ++ core ++ after ∧
      (∀ p ∈ before, Leading p) ∧ core = coreUsage 0 values ∧ ∀ p ∈ after, Plain p := by
    rw [collect_points, collectors, List.flatMap_cons, List.flatMap_cons]
    by_cases hon : ∃ a ∈ arrivals, a.collector = .cpu
    · refine ⟨r.outcome P arrivals .host ++ before, _, after ++ rest, r.cpu.percent.getD [], ?_, ?_,
        rfl, ?_⟩
      · have houtcome : r.outcome P arrivals .cpu = r.cpu.given P := if_pos hon
        rw [houtcome, hcpu]
        simp only [List.append_assoc]
        rfl
      · exact List.forall_mem_append.mpr ⟨hhost, hbefore⟩
      · exact List.forall_mem_append.mpr ⟨hafter, hrest⟩
    · refine ⟨r.outcome P arrivals .host, [], rest, [], ?_, hhost, rfl, hrest⟩
      have houtcome : r.outcome P arrivals .cpu = [] := if_neg hon
      rw [houtcome, List.append_nil, List.nil_append]
  obtain ⟨before, core, after, values, hpoints, hbefore, hcore, hafter⟩ := hshape
  refine ⟨?_, hpoints ▸ pairwise_points hbefore hcore hafter⟩
  rw [hpoints]
  intro p hp
  rcases List.mem_append.mp hp with hp | hp
  · rcases List.mem_append.mp hp with hp | hp
    · exact .inl (hbefore p hp).plain
    · obtain ⟨i, -, hname, hlabels⟩ := mem_coreUsage (hcore ▸ hp)
      exact .inr ⟨i, hname, hlabels⟩
  · exact .inl (hafter p hp)

theorem sample_extraPoints (P : Platform) (s : SamplerState) (received : List CollectorResult)
    (now : Time) :
    (s.sample P received now).1.extraPoints = (collectExtendedMetrics received).points := by
  have hdisks : ∀ (s : SamplerState) (m : SystemMetrics) (disks : List DiskIOMetrics),
      (sampleDisks P s m now disks).1.extraPoints = m.extraPoints := by
    intro s m disks
    unfold sampleDisks
    split <;> rfl
  have hnetwork : ∀ (s : SamplerState) (m : SystemMetrics)
      (interfaces : List NetworkInterfaceMetrics),
      (sampleNetwork s m now interfaces).1.extraPoints = m.extraPoints := by
    intro s m interfaces
    unfold sampleNetwork
    split <;> rfl
  rw [SamplerState.sample, hdisks, hnetwork]

theorem stamped_name (now : Time) (p : MetricPoint) : (stamped now p).name = p.name := by
  unfold stamped
  split <;> rfl

theorem stamped_labels (now : Time) (p : MetricPoint) : (stamped now p).labels = p.labels := by
  unfold stamped
  split <;> rfl

theorem stamped_value (now : Time) (p : MetricPoint) : (stamped now p).value = p.value := by
  unfold stamped
  split <;> rfl

theorem isCoreUsage_stamped (now : Time) (p : MetricPoint) :
    isCoreUsage (stamped now p) = isCoreUsage p := by
  rw [isCoreUsage, stamped_name, stamped_labels, isCoreUsage]

theorem identity_stamped (now : Time) (p : MetricPoint) :
    metricPointIdentity (stamped now p) = metricPointIdentity p := by
  rw [metricPointIdentity, stamped_name, stamped_labels, metricPointIdentity]

/-- What `Sample` can return. -/
def Sampled (P : Platform) (metrics : SystemMetrics) : Prop :=
  ∃ (s : SamplerState) (r : Readings) (arrivals : List Arrival) (now : Time),
    metrics = (s.sample P (arrivals.map (Arrival.result P r)) now).1

theorem points_fromProto_toProto (req : PushMetricBatchRequest) :
    (fromProtoPushMetricBatchRequest (toProtoPushMetricBatchRequest req)).points = req.points := by
  have hpoint : ∀ p : MetricPoint,
      (⟨p.name, p.value, asTime (some p.ts), p.labels⟩ : MetricPoint) = p :=
    fun _ => rfl
  simp only [fromProtoPushMetricBatchRequest, toProtoPushMetricBatchRequest, List.map_map,
    Function.comp_def, hpoint, List.map_id']

/-- The digest of the server for a batch of the agent. -/
def serverDigest (payload : PushMetricBatchRequest) : AgentDigest :=
  digestFromMetricBatch (fromProtoPushMetricBatchRequest (toProtoPushMetricBatchRequest payload))

/-- The names of the fixed points. -/
theorem identities_of_fixed (digest : AgentDigest) (now : Time) (uptime : Float) :
    (({ name := "runtime_uptime_seconds", value := uptime, ts := now } ::
      summaryPoints digest now).map metricPointIdentity) =
        "runtime_uptime_seconds" :: summaryNames := by
  rfl

theorem core_not_fixed (i : ℕ) :
    "host_cpu_usage_pct" ++ ("\x00" ++ "cpu" ++ "=" ++ ("cpu" ++ toString i)) ∉
      "runtime_uptime_seconds" :: summaryNames := by
  have hbegin : ∀ name ∈ "runtime_uptime_seconds" :: summaryNames,
      ¬ ("host_cpu_usage_pct" ++ "\x00").toList <+: name.toList := by decide
  refine fun hmem => hbegin _ hmem ?_
  rw [String.append_assoc, String.append_assoc, ← String.append_assoc]
  exact prefix_append _ _

theorem serverDigest_sendCycle {P : Platform} {metrics : SystemMetrics} (a : Agent) (now : Time)
    (uptime : Float) (hs : Sampled P metrics) (hexact : Exact metrics.toSummaryMetrics) :
    (serverDigest (a.sendCycle now uptime metrics).2).toSummaryMetrics =
      { metrics.toSummaryMetrics with
        cpuUsagePct := (((metrics.extraPoints.filter isCoreUsage).getLast?).map
          MetricPoint.value).getD metrics.cpuUsagePct } := by
  obtain ⟨s, r, arrivals, sampledAt, rfl⟩ := hs
  set metrics := (s.sample P (arrivals.map (Arrival.result P r)) sampledAt).1 with hmetrics
  obtain ⟨hkinds, hpairs⟩ := extra_points P r arrivals
  rw [← sample_extraPoints P s _ sampledAt, ← hmetrics] at hkinds hpairs
  set seen := "runtime_uptime_seconds" :: summaryNames with hseen
  set extra := FirstOccurrence.keep metricPointIdentity seen
    (metrics.extraPoints.map (stamped now)) with hextra
  -- An unlabelled point with a summary name has been seen among the fixed points.
  have hcores : ∀ p ∈ extra, p.name ∈ summaryNames → isCoreUsage p = true := by
    intro p hp hname
    obtain ⟨hmem, hnew⟩ := FirstOccurrence.mem_keep hp
    obtain ⟨q, hq, rfl⟩ := List.mem_map.mp hmem
    rw [stamped_name] at hname
    rw [isCoreUsage_stamped]
    rcases hkinds q hq with hplain | ⟨i, hcore, hlabels⟩
    · refine absurd ?_ hnew
      rw [identity_stamped, identity_of_unlabelled (hplain hname)]
      exact List.mem_cons_of_mem _ hname
    · exact isCoreUsage_of_core hcore hlabels
  have hfilter : extra.filter isCoreUsage =
      (metrics.extraPoints.filter isCoreUsage).map (stamped now) := by
    rw [hextra, FirstOccurrence.filter_keep, List.filter_map]
    · congr 2
      exact funext fun p => isCoreUsage_stamped now p
    · intro p hp hcore
      obtain ⟨q, hq, rfl⟩ := List.mem_map.mp hp
      rw [isCoreUsage_stamped] at hcore
      rw [identity_stamped]
      rcases hkinds q hq with hplain | ⟨i, hname, hlabels⟩
      · rw [isCoreUsage_of_plain hplain] at hcore
        cases hcore
      · rw [identity_of_core hname hlabels]
        exact core_not_fixed i
    · rw [List.pairwise_map]
      refine hpairs.imp fun hxy hcore => ?_
      rw [identity_stamped, identity_stamped]
      exact hxy (isCoreUsage_stamped now _ ▸ hcore)
  have huptime : "runtime_uptime_seconds" ∉ summaryNames := by decide
  rw [serverDigest, digestFromMetricBatch, points_fromProto_toProto]
  change AgentDigest.toSummaryMetrics (List.foldl _ _ (appendMetricPoints _ _ _)) = _
  rw [appendMetricPoints, identities_of_fixed, appendExtraPoints_eq, List.foldl_append,
    List.foldl_cons, record_of_not_summary _ huptime, foldl_summaryPoints _ _ _ hexact,
    foldl_record_cores _ _ hcores, hfilter, List.getLast?_map, Option.map_map]
  have hvalue : MetricPoint.value ∘ stamped now = MetricPoint.value :=
    funext fun p => stamped_value now p
  rw [hvalue]
  rfl

/-- The last core reads what the mean of the cores reads. -/
def CoreUsageAgrees (metrics : SystemMetrics) : Prop :=
  ∀ point, (metrics.extraPoints.filter isCoreUsage).getLast? = some point →
    point.value = metrics.cpuUsagePct

theorem summary_fidelity_iff {P : Platform} {metrics : SystemMetrics} (a : Agent) (now : Time)
    (uptime : Float) (hs : Sampled P metrics) (hexact : Exact metrics.toSummaryMetrics) :
    (serverDigest (a.sendCycle now uptime metrics).2).toSummaryMetrics =
      (a.digestFromMetrics metrics).toSummaryMetrics ↔ CoreUsageAgrees metrics := by
  rw [serverDigest_sendCycle a now uptime hs hexact]
  change _ = metrics.toSummaryMetrics ↔ _
  cases hlast : (metrics.extraPoints.filter isCoreUsage).getLast? with
  | none => simp [CoreUsageAgrees, hlast]
  | some point =>
    constructor
    · intro h p hp
      rw [hlast, Option.some.injEq] at hp
      subst hp
      exact congrArg SummaryMetrics.cpuUsagePct h
    · intro h
      have hvalue : point.value = metrics.cpuUsagePct := h point hlast
      simp only [Option.map_some, Option.getD_some, hvalue]

-- A Linux machine with two cores; `cpu.Percent` has read one value per core.

def samplePlatform : Platform := ⟨⟨fun _ => false, id⟩, true, "/"⟩

def coreMetrics (percent : List Float) : SystemMetrics :=
  (({} : SamplerState).sample samplePlatform
    ([⟨.cpu, 0, false⟩].map
      (Arrival.result samplePlatform { cpu := { percent := some percent } })) 0).1

def sampleAgent : Agent := ⟨{}, "a", "h", 0, 0⟩

theorem sampled_coreMetrics (percent : List Float) :
    Sampled samplePlatform (coreMetrics percent) := ⟨{}, _, _, 0, rfl⟩

theorem summary_fidelity_equal_cores :
    (serverDigest (sampleAgent.sendCycle 0 1 (coreMetrics [20, 20])).2).toSummaryMetrics =
      (sampleAgent.digestFromMetrics (coreMetrics [20, 20])).toSummaryMetrics := by
  have hexact : Exact (coreMetrics [20, 20]).toSummaryMetrics := by
    constructor <;> decide +kernel
  refine (summary_fidelity_iff sampleAgent 0 1 (sampled_coreMetrics _) hexact).mpr ?_
  have hlast : ((coreMetrics [20, 20]).extraPoints.filter isCoreUsage).getLast?.map
      MetricPoint.value = some (coreMetrics [20, 20]).cpuUsagePct := by decide +kernel
  intro point hpoint
  rw [hpoint] at hlast
  exact Option.some.inj hlast

/-- Cores at 10 % and 30 %: the agent reports their mean, the server the last core. -/
theorem core_usage_overrides_mean :
    (sampleAgent.digestFromMetrics (coreMetrics [10, 30])).cpuUsagePct = 20 ∧
      (serverDigest (sampleAgent.sendCycle 0 1 (coreMetrics [10, 30])).2).cpuUsagePct = 30 := by
  decide +kernel

end Gaoming
