import Gaoming.ReadingPoints

/-!
# The points that the collectors produce

Of the labelled points only the usage of a core has the name of a summary metric.
The cores are told apart by their label, and no other point has their identity.
-/

namespace Gaoming

def summaryNames : List String :=
  ["host_cpu_usage_pct", "host_mem_used_pct", "host_mem_available_bytes", "host_swap_used_pct",
    "host_disk_used_pct", "host_disk_free_bytes", "host_disk_inodes_used_pct",
    "host_disk_read_bps", "host_disk_write_bps", "host_disk_read_iops", "host_disk_write_iops",
    "host_load1", "host_net_rx_bps", "host_net_tx_bps", "host_net_rx_packets_ps",
    "host_net_tx_packets_ps"]

def isCoreUsage (point : MetricPoint) : Bool :=
  point.name = "host_cpu_usage_pct" && point.labels ≠ ∅

/-- A point that no labelled summary name belongs to. -/
def Plain (point : MetricPoint) : Prop := point.name ∈ summaryNames → point.labels = ∅

theorem prefix_append (a b : String) : a.toList <+: (a ++ b).toList := by
  rw [String.toList_append]
  exact List.prefix_append _ _

theorem ne_of_beginnings {a b s t : String} (hs : a.toList <+: s.toList)
    (ht : b.toList <+: t.toList)
    (hab : ¬ a.toList <+: b.toList) (hba : ¬ b.toList <+: a.toList) : s ≠ t := by
  rintro rfl
  rcases List.prefix_or_prefix_of_prefix hs ht with h | h
  · exact hab h
  · exact hba h

theorem not_summary_of_beginning {a s : String} (hs : a.toList <+: s.toList)
    (h : ∀ name ∈ summaryNames, ¬ a.toList <+: name.toList) : s ∉ summaryNames :=
  fun hmem => h s hmem hs

theorem not_summary_of_ending {a : String} (s : String)
    (h : ∀ name ∈ summaryNames, ¬ a.toList <:+ name.toList) : s ++ a ∉ summaryNames := by
  intro hmem
  refine h _ hmem ?_
  rw [String.toList_append]
  exact List.suffix_append _ _

theorem total_not_summary (s : String) : s ++ "_total" ∉ summaryNames :=
  not_summary_of_ending s (by decide +kernel)

theorem plain_unlabelled (name : String) (value : Float) :
    Plain { name := name, value := value, labels := ∅ } := fun _ => rfl

theorem plain_of_not_summary {name : String} {value : Float} {labels : StringMap}
    (h : name ∉ summaryNames) : Plain { name := name, value := value, labels := labels } :=
  fun hmem => absurd hmem h

theorem isCoreUsage_of_plain {p : MetricPoint} (h : Plain p) : isCoreUsage p = false := by
  by_contra hcore
  simp only [isCoreUsage, Bool.and_eq_true, decide_eq_true_eq, Bool.not_eq_false] at hcore
  exact hcore.2 (h (by rw [hcore.1]; decide))

section Plain
variable {P : Platform}

theorem plain_filesystem (r : FilesystemReadings) : ∀ p ∈ r.given P, Plain p :=
  forall_filesystem fun s _ _ _ => plain_of_not_summary
    (not_summary_of_beginning (prefix_append "host_filesystem_" s) (by decide +kernel))

theorem plain_diskIo (disks : List (String × DiskCounters)) :
    ∀ p ∈ disks.flatMap fun disk =>
      givenFields P.letters disk.2.fields (label "device" disk.1) diskIOName, Plain p := by
  refine List.forall_mem_flatMap.mpr fun disk _ => forall_givenFields fun name _ _ => ?_
  refine plain_of_not_summary ?_
  unfold diskIOName
  split_ifs
  · exact total_not_summary _
  · exact not_summary_of_ending _ (by decide +kernel)
  · exact total_not_summary _

theorem plain_network (r : NetworkReadings) : ∀ p ∈ r.given P, Plain p := by
  refine forall_network (fun key _ text s _ _ => plain_of_not_summary ?_)
    (fun name hname text _ _ => plain_of_not_summary ?_) fun name value _ =>
      plain_unlabelled name value
  · exact total_not_summary _
  · rcases List.mem_pair.mp hname with rfl | rfl <;> decide +kernel

theorem plain_sensors (sensors : List Temperature) : ∀ p ∈ sensors.flatMap fun sensor =>
    givenFields P.letters sensor.fields (label "sensor" sensor.sensorKey) sensorName, Plain p := by
  refine List.forall_mem_flatMap.mpr fun sensor _ => forall_givenFields fun name _ _ => ?_
  have hname : "host_sensor_".toList <+: (sensorName name).toList := by
    unfold sensorName
    split_ifs
    · decide
    · decide
    · decide
    · exact prefix_append _ _
  exact plain_of_not_summary (not_summary_of_beginning hname (by decide +kernel))

end Plain

/-- The points of the cores, from the given index. -/
def coreUsage : ℕ → List Float → List MetricPoint
  | _, [] => []
  | index, value :: rest =>
    appendPoint [] "host_cpu_usage_pct" (clampPercent value)
      (label "cpu" ("cpu" ++ toString index)) ++ coreUsage (index + 1) rest

theorem coreUsage_eq (index : ℕ) (values : List Float) :
    coreUsage index values = (values.zipIdx index).flatMap fun core =>
      given "host_cpu_usage_pct" (clampPercent core.1)
        (label "cpu" ("cpu" ++ toString core.2)) := by
  induction values generalizing index with
  | nil => rfl
  | cons value rest ih =>
    rw [coreUsage, ih, appendPoint_given, List.nil_append, List.zipIdx_cons, List.flatMap_cons]

theorem mem_corePoint {index : ℕ} {value : Float} {p : MetricPoint}
    (h : p ∈ appendPoint [] "host_cpu_usage_pct" value (label "cpu" ("cpu" ++ toString index))) :
    p.name = "host_cpu_usage_pct" ∧ p.labels = label "cpu" ("cpu" ++ toString index) := by
  rw [appendPoint_given, List.nil_append] at h
  exact forall_given (Q := fun p => p.name = "host_cpu_usage_pct" ∧
    p.labels = label "cpu" ("cpu" ++ toString index)) (fun _ => ⟨rfl, rfl⟩) p h

theorem mem_coreUsage {index : ℕ} {values : List Float} {p : MetricPoint}
    (h : p ∈ coreUsage index values) : ∃ i, index ≤ i ∧ p.name = "host_cpu_usage_pct" ∧
      p.labels = label "cpu" ("cpu" ++ toString i) := by
  induction values generalizing index with
  | nil => cases h
  | cons value rest ih =>
    rw [coreUsage, List.mem_append] at h
    rcases h with h | h
    · exact ⟨index, le_rfl, mem_corePoint h⟩
    · obtain ⟨i, hi, hp⟩ := ih h
      exact ⟨i, by omega, hp⟩

theorem identity_of_core {p : MetricPoint} {i : ℕ} (hname : p.name = "host_cpu_usage_pct")
    (hlabels : p.labels = label "cpu" ("cpu" ++ toString i)) :
    metricPointIdentity p = "host_cpu_usage_pct" ++
      ("\x00" ++ "cpu" ++ "=" ++ ("cpu" ++ toString i)) := by
  have hlist : (label "cpu" ("cpu" ++ toString i)).toList = [("cpu", "cpu" ++ toString i)] := rfl
  rw [metricPointIdentity, hname, hlabels, hlist]
  rfl

theorem identity_of_unlabelled {p : MetricPoint} (h : p.labels = ∅) :
    metricPointIdentity p = p.name := by
  rw [metricPointIdentity, h]
  rfl

theorem identity_core_ne {p p' : MetricPoint} {i j : ℕ} (hname : p.name = "host_cpu_usage_pct")
    (hlabels : p.labels = label "cpu" ("cpu" ++ toString i))
    (hname' : p'.name = "host_cpu_usage_pct")
    (hlabels' : p'.labels = label "cpu" ("cpu" ++ toString j)) (hij : i ≠ j) :
    metricPointIdentity p ≠ metricPointIdentity p' := by
  rw [identity_of_core hname hlabels, identity_of_core hname' hlabels']
  intro heq
  have hlists := congrArg String.toList heq
  simp only [String.toList_append, List.append_cancel_left_eq] at hlists
  exact hij (Nat.repr_injective (String.toList_injective hlists))

theorem isCoreUsage_of_core {p : MetricPoint} {i : ℕ} (hname : p.name = "host_cpu_usage_pct")
    (hlabels : p.labels = label "cpu" ("cpu" ++ toString i)) : isCoreUsage p = true := by
  simp [isCoreUsage, hname, hlabels, label]

theorem coreUsage_pairwise (index : ℕ) (values : List Float) : (coreUsage index values).Pairwise
    fun x y => isCoreUsage y = true → metricPointIdentity x ≠ metricPointIdentity y := by
  induction values generalizing index with
  | nil => exact List.Pairwise.nil
  | cons value rest ih =>
    rw [coreUsage, List.pairwise_append]
    refine ⟨?_, ih (index + 1), fun x hx y hy _ => ?_⟩
    · unfold appendPoint
      split_ifs
      · exact List.Pairwise.nil
      · exact List.pairwise_singleton _ _
    · have hfirst := mem_corePoint hx
      obtain ⟨i, hi, hname, hlabels⟩ := mem_coreUsage hy
      exact identity_core_ne hfirst.1 hfirst.2 hname hlabels (by omega)

/-- An unlabelled point that does not take the identity of a core. -/
def Leading (p : MetricPoint) : Prop :=
  p.labels = ∅ ∧ ∀ i : ℕ, p.name ≠ "host_cpu_usage_pct" ++
    ("\x00" ++ "cpu" ++ "=" ++ ("cpu" ++ toString i))

theorem leading_of_beginning {a name : String} {value : Float} (ha : a.toList <+: name.toList)
    (h : ¬ a.toList <+: "host_cpu_usage_pct".toList)
    (h' : ¬ "host_cpu_usage_pct".toList <+: a.toList) :
    Leading { name := name, value := value, labels := ∅ } :=
  ⟨rfl, fun _ => ne_of_beginnings ha (prefix_append _ _) h h'⟩

theorem Leading.plain {p : MetricPoint} (h : Leading p) : Plain p := fun _ => h.1

theorem leading_host (P : Platform) (fields : List StructField) :
    ∀ p ∈ givenFields P.letters fields ∅ hostInfoName, Leading p := by
  refine forall_givenFields fun name value _ => ?_
  unfold hostInfoName
  split_ifs
  · exact leading_of_beginning (List.prefix_refl _) (by decide) (by decide)
  · exact leading_of_beginning (List.prefix_refl _) (by decide) (by decide)
  · exact leading_of_beginning (List.prefix_refl _) (by decide) (by decide)
  · exact leading_of_beginning (prefix_append _ _) (by decide) (by decide)

/-- How the points of the processor are laid out. -/
theorem cpu_points (P : Platform) (r : CPUReadings) : ∃ before after,
    r.given P = before ++ coreUsage 0 (r.percent.getD []) ++ after ∧
    (∀ p ∈ before, Leading p) ∧ ∀ p ∈ after, Plain p := by
  refine ⟨givenCount "host_cpu_logical_count" r.logicalCount ++
    givenCount "host_cpu_physical_count" r.physicalCount,
    ((r.times.getD []).flatMap fun times => givenFields P.letters times.fields
      (label "cpu" times.cpu) fun name => "host_cpu_time_" ++ name ++ "_seconds") ++
      (r.info.getD []).flatMap CPUInfo.given, ?_, ?_, ?_⟩
  · rw [CPUReadings.given, coreUsage_eq]
    simp only [List.append_assoc]
  · rw [List.forall_mem_append]
    exact ⟨forall_givenCount fun _ _ =>
        leading_of_beginning (List.prefix_refl _) (by decide) (by decide),
      forall_givenCount fun _ _ =>
        leading_of_beginning (List.prefix_refl _) (by decide) (by decide)⟩
  · rw [List.forall_mem_append]
    refine ⟨forall_times fun text s _ _ =>
        plain_of_not_summary (not_summary_of_ending _ (by decide +kernel)),
      forall_info fun name hname _ _ _ => plain_of_not_summary ?_⟩
    rcases List.mem_pair.mp hname with rfl | rfl <;> decide +kernel

theorem plain_given (P : Platform) (r : Readings) (c : Collector) (hc : c ≠ .cpu) :
    ∀ p ∈ r.given P c, Plain p := by
  have hplain : ∀ name value, value.isNaN = false ∧ value.isInf = false →
      Plain { name := name, value := value, labels := ∅ } :=
    fun name value _ => plain_unlabelled name value
  cases c with
  | host => exact fun p hp => (leading_host P _ p hp).plain
  | cpu => exact absurd rfl hc
  | memory => exact List.forall_mem_flatMap.mpr fun _ _ => forall_givenFields fun _ => hplain _
  | swap => exact List.forall_mem_flatMap.mpr fun _ _ => forall_givenFields fun _ => hplain _
  | load => exact forall_load hplain
  | filesystem => exact plain_filesystem r.filesystem
  | diskIo => exact plain_diskIo _
  | network => exact plain_network r.network
  | sensors => exact plain_sensors _

end Gaoming
