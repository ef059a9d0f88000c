import Gaoming.MasterRead
import Gaoming.BatchAcceptance
import Gaoming.FloatExact

/-!
# Summary values and the columns they go to

Three places say what a summary value may be: the check on a batch asks for a
finite number, `digestFromMetricBatch` converts ten of the sixteen to `int64`,
and `host_status_current` keeps the others as `numeric(6,2)` and `numeric(8,2)`. With
point values as exact rationals, this says which accepted batches get through all
three.
-/

namespace Gaoming
open FloatExact

inductive SummaryColumn
  | numeric (precision scale : ℕ)
  | bigint
  deriving DecidableEq

namespace MetricKey

def pointName : MetricKey → String
  | .cpuUsagePct => "host_cpu_usage_pct"
  | .memUsedPct => "host_mem_used_pct"
  | .memAvailableBytes => "host_mem_available_bytes"
  | .swapUsedPct => "host_swap_used_pct"
  | .diskUsedPct => "host_disk_used_pct"
  | .diskFreeBytes => "host_disk_free_bytes"
  | .diskInodesUsedPct => "host_disk_inodes_used_pct"
  | .diskReadBPS => "host_disk_read_bps"
  | .diskWriteBPS => "host_disk_write_bps"
  | .diskReadIOPS => "host_disk_read_iops"
  | .diskWriteIOPS => "host_disk_write_iops"
  | .load1 => "host_load1"
  | .netRxBPS => "host_net_rx_bps"
  | .netTxBPS => "host_net_tx_bps"
  | .netRxPacketsPS => "host_net_rx_packets_ps"
  | .netTxPacketsPS => "host_net_tx_packets_ps"

def column : MetricKey → SummaryColumn
  | .cpuUsagePct | .memUsedPct | .swapUsedPct | .diskUsedPct | .diskInodesUsedPct => .numeric 6 2
  | .load1 => .numeric 8 2
  | .memAvailableBytes | .diskFreeBytes | .diskReadBPS | .diskWriteBPS | .diskReadIOPS
  | .diskWriteIOPS | .netRxBPS | .netTxBPS | .netRxPacketsPS | .netTxPacketsPS => .bigint

end MetricKey

/-- The value is converted to an `int64` in range, or rounds into the decimal column. -/
def SummaryColumn.Fits : SummaryColumn → ℚ → Prop
  | .numeric precision scale, q => (FloatExact.numeric precision scale q).isSome = true
  | .bigint, q => -2 ^ 63 ≤ truncate q ∧ truncate q < 2 ^ 63

/-- `digestFromMetricBatch` on exact values, before its conversions. -/
def exactDigest (req : PushMetricBatchRequest) : MetricKey → ℚ :=
  req.points.foldl (fun digest point key =>
    if point.name = key.pointName then value point.value else digest key) fun _ => 0

def BatchFits (req : PushMetricBatchRequest) : Prop :=
  ∀ key : MetricKey, key.column.Fits (exactDigest req key)

def lastPoint (points : List MetricPoint) (key : MetricKey) : Option MetricPoint :=
  (points.filter fun p => p.name = key.pointName).getLast?

def SummaryColumn.Within : SummaryColumn → ℚ → Prop
  | .numeric precision scale, q => |q| < 10 ^ (precision - scale) - 1 / (2 * 10 ^ scale)
  | .bigint, q => -2 ^ 63 - 1 < q ∧ q < 2 ^ 63

theorem column_fits_iff (key : MetricKey) (q : ℚ) : key.column.Fits q ↔ key.column.Within q := by
  have hint : (-2 ^ 63 ≤ truncate q ∧ truncate q < 2 ^ 63) ↔
      ((-2 ^ 63 - 1 : ℚ) < q ∧ q < 2 ^ 63) := by
    have h := truncate_mem_iff (a := 2 ^ 63) (b := 2 ^ 63) (by norm_num) (by norm_num) q
    push_cast at h
    exact h
  cases key <;> first | exact numeric_isSome_iff (by decide) q | exact hint

theorem lastPoint_concat (points : List MetricPoint) (point : MetricPoint) (key : MetricKey) :
    lastPoint (points ++ [point]) key =
      if point.name = key.pointName then some point else lastPoint points key := by
  unfold lastPoint
  rw [List.filter_append]
  split_ifs with h
  · simp [h]
  · simp [h]

theorem exactDigest_eq (req : PushMetricBatchRequest) (key : MetricKey) :
    exactDigest req key = ((lastPoint req.points key).map fun p => value p.value).getD 0 := by
  unfold exactDigest
  induction req.points using List.reverseRecOn with
  | nil => rfl
  | append_singleton points point ih =>
    rw [List.foldl_append, List.foldl_cons, List.foldl_nil, lastPoint_concat]
    split_ifs
    · rfl
    · exact ih

theorem within_zero (key : MetricKey) : key.column.Within 0 := by
  cases key <;> norm_num [MetricKey.column, SummaryColumn.Within]

theorem batchFits_iff (req : PushMetricBatchRequest) :
    BatchFits req ↔
      ∀ key p, lastPoint req.points key = some p → key.column.Within (value p.value) := by
  refine forall_congr' fun key => ?_
  rw [column_fits_iff, exactDigest_eq]
  cases hlast : lastPoint req.points key with
  | none => simpa using within_zero key
  | some p => simp

def SummaryMetrics.cell (m : SummaryMetrics) : MetricKey → Float ⊕ Int64
  | .cpuUsagePct => .inl m.cpuUsagePct
  | .memUsedPct => .inl m.memUsedPct
  | .memAvailableBytes => .inr m.memAvailableBytes
  | .swapUsedPct => .inl m.swapUsedPct
  | .diskUsedPct => .inl m.diskUsedPct
  | .diskFreeBytes => .inr m.diskFreeBytes
  | .diskInodesUsedPct => .inl m.diskInodesUsedPct
  | .diskReadBPS => .inr m.diskReadBPS
  | .diskWriteBPS => .inr m.diskWriteBPS
  | .diskReadIOPS => .inr m.diskReadIOPS
  | .diskWriteIOPS => .inr m.diskWriteIOPS
  | .load1 => .inl m.load1
  | .netRxBPS => .inr m.netRxBPS
  | .netTxBPS => .inr m.netTxBPS
  | .netRxPacketsPS => .inr m.netRxPacketsPS
  | .netTxPacketsPS => .inr m.netTxPacketsPS

def SummaryColumn.cell (c : SummaryColumn) (x : Float) : Float ⊕ Int64 :=
  match c with
  | .numeric _ _ => .inl x
  | .bigint => .inr (FloatInteger.toInt64 x)

theorem record_cell_self (digest : AgentDigest) {point : MetricPoint} {key : MetricKey}
    (h : point.name = key.pointName) :
    (digest.record point).toSummaryMetrics.cell key = key.column.cell point.value := by
  cases key <;> (rw [AgentDigest.record, h]; rfl)

theorem record_cell_of_ne (digest : AgentDigest) {point : MetricPoint} {key : MetricKey}
    (h : point.name ≠ key.pointName) :
    (digest.record point).toSummaryMetrics.cell key = digest.toSummaryMetrics.cell key := by
  unfold AgentDigest.record
  split
  all_goals first | rfl | (rename_i hname; cases key <;> first | rfl | exact absurd hname h)

theorem cell_default (key : MetricKey) : ({} : SummaryMetrics).cell key = key.column.cell 0 := by
  cases key <;> rfl

theorem digest_cell (req : PushMetricBatchRequest) (key : MetricKey) :
    (digestFromMetricBatch req).toSummaryMetrics.cell key =
      key.column.cell (((lastPoint req.points key).map MetricPoint.value).getD 0) := by
  unfold digestFromMetricBatch
  induction req.points using List.reverseRecOn with
  | nil => exact cell_default key
  | append_singleton points point ih =>
    rw [List.foldl_append, List.foldl_cons, List.foldl_nil, lastPoint_concat]
    split_ifs with h
    · rw [record_cell_self _ h]
      rfl
    · rw [record_cell_of_ne _ h, ih]

/-- The `numeric` columns refuse what rounds to too large a number, and nothing else. -/
def Columns.AsDeclared (cols : Columns) : Prop :=
  ∀ precision scale x, x.isNaN = false → x.isInf = false →
    (cols.numeric precision scale x).isSome = (FloatExact.numeric precision scale (value x)).isSome

/-- The digest of the batch can be stored, and its integers are those of the batch. -/
structure RecordsExactly (cols : Columns) (req : PushMetricBatchRequest) : Prop where
  stored : ((digestFromMetricBatch req).toSummaryMetrics.stored cols).isSome = true
  converted : ∀ key n, (digestFromMetricBatch req).toSummaryMetrics.cell key = .inr n →
    n.toInt = truncate (exactDigest req key)

theorem stored_isSome_iff (cols : Columns) (m : SummaryMetrics) :
    (m.stored cols).isSome = true ↔
      ∀ key precision scale x, key.column = .numeric precision scale → m.cell key = .inl x →
        (cols.numeric precision scale x).isSome = true := by
  have hall : (m.stored cols).isSome = true ↔
      (cols.numeric 6 2 m.cpuUsagePct).isSome = true ∧
      (cols.numeric 6 2 m.memUsedPct).isSome = true ∧
      (cols.numeric 6 2 m.swapUsedPct).isSome = true ∧
      (cols.numeric 6 2 m.diskUsedPct).isSome = true ∧
      (cols.numeric 6 2 m.diskInodesUsedPct).isSome = true ∧
      (cols.numeric 8 2 m.load1).isSome = true := by
    unfold SummaryMetrics.stored
    cases cols.numeric 6 2 m.cpuUsagePct <;> cases cols.numeric 6 2 m.memUsedPct <;>
      cases cols.numeric 6 2 m.swapUsedPct <;> cases cols.numeric 6 2 m.diskUsedPct <;>
      cases cols.numeric 6 2 m.diskInodesUsedPct <;> cases cols.numeric 8 2 m.load1 <;> simp
  rw [hall]
  constructor
  · rintro ⟨hcpu, hmem, hswap, hdisk, hinodes, hload⟩ key precision scale x hcolumn hcell
    cases key <;> simp only [MetricKey.column, SummaryColumn.numeric.injEq,
      reduceCtorEq] at hcolumn <;>
      (obtain ⟨rfl, rfl⟩ := hcolumn; cases hcell; assumption)
  · intro h
    exact ⟨h .cpuUsagePct _ _ _ rfl rfl, h .memUsedPct _ _ _ rfl rfl, h .swapUsedPct _ _ _ rfl rfl,
      h .diskUsedPct _ _ _ rfl rfl, h .diskInodesUsedPct _ _ _ rfl rfl, h .load1 _ _ _ rfl rfl⟩

section Accepted
variable {u : Unicode} {req : PushMetricBatchRequest}

theorem finite_of_accepted (h : validateMetricBatch u req = .ok ()) {p : MetricPoint}
    (hp : p ∈ req.points) : p.value.isNaN = false ∧ p.value.isInf = false := by
  rw [← validateMetricBatch_encode, GoBatch.validateMetricBatch_ok_iff] at h
  exact (h.points p.encode (List.mem_map_of_mem hp)).finite

theorem mem_of_lastPoint {points : List MetricPoint} {key : MetricKey} {p : MetricPoint}
    (h : lastPoint points key = some p) : p ∈ points :=
  List.mem_of_mem_filter (List.mem_of_getLast? h)

theorem name_of_lastPoint {points : List MetricPoint} {key : MetricKey} {p : MetricPoint}
    (h : lastPoint points key = some p) : p.name = key.pointName := by
  simpa using List.of_mem_filter (List.mem_of_getLast? h)

theorem pointName_injective : Function.Injective MetricKey.pointName := by
  intro k k' h
  cases k <;> cases k' <;> first | rfl | exact absurd h (by decide)

theorem exists_source (h : validateMetricBatch u req = .ok ()) (key : MetricKey) :
    ∃ x : Float, x.isNaN = false ∧ x.isInf = false ∧ exactDigest req key = value x ∧
      (digestFromMetricBatch req).toSummaryMetrics.cell key = key.column.cell x := by
  rw [exactDigest_eq, digest_cell]
  cases hlast : lastPoint req.points key with
  | none => exact ⟨0, by decide +kernel, by decide +kernel, by decide +kernel, rfl⟩
  | some p =>
    obtain ⟨hnan, hinf⟩ := finite_of_accepted h (mem_of_lastPoint hlast)
    exact ⟨p.value, hnan, hinf, rfl, rfl⟩

theorem batchFits_iff_recordsExactly {cols : Columns} (hcols : cols.AsDeclared)
    (h : validateMetricBatch u req = .ok ()) : BatchFits req ↔ RecordsExactly cols req := by
  constructor
  · intro hfits
    refine ⟨(stored_isSome_iff cols _).mpr ?_, ?_⟩
    · intro key precision scale x hcolumn hcell
      obtain ⟨y, hnan, hinf, hexact, hsource⟩ := exists_source h key
      have hkey := hfits key
      rw [hcolumn, SummaryColumn.Fits, hexact] at hkey
      rw [hsource, hcolumn, SummaryColumn.cell, Sum.inl.injEq] at hcell
      rw [← hcell, hcols precision scale y hnan hinf, hkey]
    · intro key n hcell
      obtain ⟨y, hnan, hinf, hexact, hsource⟩ := exists_source h key
      have hkey := hfits key
      cases hcolumn : key.column with
      | numeric precision scale =>
        rw [hsource, hcolumn] at hcell
        cases hcell
      | bigint =>
        rw [hcolumn, SummaryColumn.Fits, hexact] at hkey
        rw [hsource, hcolumn, SummaryColumn.cell, Sum.inr.injEq] at hcell
        rw [← hcell, hexact, toInt64_of_mem hnan hinf hkey]
  · rintro ⟨hstored, hconverted⟩ key
    obtain ⟨y, hnan, hinf, hexact, hsource⟩ := exists_source h key
    cases hcolumn : key.column with
    | numeric precision scale =>
      rw [hcolumn] at hsource
      have hkey := (stored_isSome_iff cols _).mp hstored key precision scale y hcolumn hsource
      rw [SummaryColumn.Fits, hexact, ← hcols precision scale y hnan hinf, hkey]
    | bigint =>
      rw [hcolumn] at hsource
      have hkey := hconverted key _ hsource
      -- an integer that equals the truncation keeps it in range
      rw [SummaryColumn.Fits, ← hkey]
      exact ⟨Int64.le_toInt _, Int64.toInt_lt _⟩

/-- Accepted batches fit, and are recorded as they are, exactly when the last point of each
metric is within the bounds of its column. -/
theorem accepted_batch_fits_iff {cols : Columns} (hcols : cols.AsDeclared)
    (h : validateMetricBatch u req = .ok ()) :
    (BatchFits req ↔
      ∀ key p, lastPoint req.points key = some p → key.column.Within (value p.value)) ∧
    (RecordsExactly cols req ↔
      ∀ key p, lastPoint req.points key = some p → key.column.Within (value p.value)) :=
  ⟨batchFits_iff req, (batchFits_iff_recordsExactly hcols h).symm.trans (batchFits_iff req)⟩

end Accepted

theorem reportMetrics_of_not_stored {s : Store} {digest : AgentDigest}
    (h : digest.toSummaryMetrics.stored s.columns = none) (d : Draws)
    (req : PushMetricBatchRequest) (now : Time) (db : Database) :
    ∃ e, (s.reportMetrics d req digest now).transact db = (.error e, db) := by
  cases hrun : (s.reportMetrics d req digest now).run db with
  | error e => exact ⟨e, Transaction.Tx.transact_of_error hrun⟩
  | ok out =>
    obtain ⟨-, -, -, -, ⟨r, -, -, hstored, -⟩, -⟩ := Store.reportMetrics_ok hrun
    rw [h] at hstored
    cases hstored

def strictColumns : Columns where
  inet := some
  numeric precision scale x :=
    if (FloatExact.numeric precision scale (value x)).isSome then some x else none

theorem asDeclared_strictColumns : strictColumns.AsDeclared := by
  intro precision scale x _ _
  change (if (FloatExact.numeric precision scale (value x)).isSome then some x else none).isSome = _
  split_ifs with h
  · exact h.symm
  · exact (Bool.eq_false_iff.mpr h).symm

def onePoint (key : MetricKey) (x : Float) : PushMetricBatchRequest where
  points := [{ name := key.pointName, value := x }]

theorem lastPoint_onePoint (key : MetricKey) (x : Float) :
    lastPoint (onePoint key x).points key = some { name := key.pointName, value := x } := by
  simp [lastPoint, onePoint]

/-- The largest values that go through, to two decimals and to the last bit. -/
def nearLimits : PushMetricBatchRequest where
  points := [{ name := MetricKey.cpuUsagePct.pointName, value := 9999.99 },
    { name := MetricKey.load1.pointName, value := 999999.99 },
    { name := MetricKey.memAvailableBytes.pointName, value := 9223372036854774784 }]

theorem accepted_batch_fits_near_limits :
    RecordsExactly strictColumns nearLimits ∧
    ¬ RecordsExactly strictColumns (onePoint .cpuUsagePct 9999.996) ∧
    ¬ RecordsExactly strictColumns (onePoint .load1 999999.996) ∧
    ¬ RecordsExactly strictColumns (onePoint .memAvailableBytes 9223372036854775808) := by
  have hiff : ∀ req, validateMetricBatch asciiOnly req = .ok () →
      (RecordsExactly strictColumns req ↔
      ∀ key p, lastPoint req.points key = some p → key.column.Within (value p.value)) :=
    fun req h => (accepted_batch_fits_iff asDeclared_strictColumns h).2
  rw [hiff _ (by decide +kernel), hiff _ (by decide +kernel), hiff _ (by decide +kernel),
    hiff _ (by decide +kernel)]
  refine ⟨fun key p hp => ?_, fun h => ?_, fun h => ?_, fun h => ?_⟩
  · have hname := name_of_lastPoint hp
    have hmem := mem_of_lastPoint hp
    simp only [nearLimits, List.mem_cons, List.not_mem_nil, or_false] at hmem
    rcases hmem with rfl | rfl | rfl
    · obtain rfl : MetricKey.cpuUsagePct = key := pointName_injective hname
      rw [show value (9999.99 : Float) = 5497552641321861 / 549755813888 by decide +kernel]
      norm_num [MetricKey.column, SummaryColumn.Within, abs_of_pos]
    · obtain rfl : MetricKey.load1 = key := pointName_injective hname
      rw [show value (999999.99 : Float) = 4294967253050327 / 4294967296 by decide +kernel]
      norm_num [MetricKey.column, SummaryColumn.Within, abs_of_pos]
    · obtain rfl : MetricKey.memAvailableBytes = key := pointName_injective hname
      rw [show value (9223372036854774784 : Float) = 9223372036854774784 by decide +kernel]
      norm_num [MetricKey.column, SummaryColumn.Within]
  · have hbound := h _ _ (lastPoint_onePoint .cpuUsagePct 9999.996)
    rw [show value (9999.996 : Float) = 687194492482093 / 68719476736 by decide +kernel] at hbound
    norm_num [MetricKey.column, SummaryColumn.Within, abs_of_pos] at hbound
  · have hbound := h _ _ (lastPoint_onePoint .load1 999999.996)
    rw [show value (999999.996 : Float) = 4294967278820131 / 4294967296 by decide +kernel] at hbound
    norm_num [MetricKey.column, SummaryColumn.Within, abs_of_pos] at hbound
  · have hbound := h _ _ (lastPoint_onePoint .memAvailableBytes 9223372036854775808)
    rw [show value (9223372036854775808 : Float) = 2 ^ 63 by decide +kernel] at hbound
    norm_num [MetricKey.column, SummaryColumn.Within] at hbound

/-- A CPU usage of 10000 is accepted, and no database can record it; memory of 2 ^ 64 bytes is
accepted, and the digest holds the smallest integer instead. -/
theorem accepted_batch_overflows :
    validateMetricBatch asciiOnly (onePoint .cpuUsagePct 10000) = .ok () ∧
    ¬ BatchFits (onePoint .cpuUsagePct 10000) ∧
    (∀ s : Store, s.columns.AsDeclared → ∀ d now db, ∃ e,
      (s.reportMetrics d (onePoint .cpuUsagePct 10000)
        (digestFromMetricBatch (onePoint .cpuUsagePct 10000)) now).transact db = (.error e, db)) ∧
    validateMetricBatch asciiOnly (onePoint .memAvailableBytes 18446744073709551616) = .ok () ∧
    (digestFromMetricBatch (onePoint .memAvailableBytes 18446744073709551616)).memAvailableBytes =
      Int64.minValue := by
  have hvalid : validateMetricBatch asciiOnly (onePoint .cpuUsagePct 10000) = .ok () := by
    decide +kernel
  have hno : ¬ BatchFits (onePoint .cpuUsagePct 10000) := by
    rw [batchFits_iff]
    intro h
    have hbound := h .cpuUsagePct { name := MetricKey.cpuUsagePct.pointName, value := 10000 } rfl
    rw [show value (10000 : Float) = 10000 by decide +kernel] at hbound
    norm_num [MetricKey.column, SummaryColumn.Within] at hbound
  refine ⟨hvalid, hno, fun s hs d now db => ?_, by decide +kernel, by decide +kernel⟩
  refine reportMetrics_of_not_stored ?_ d _ now db
  cases hstored : (digestFromMetricBatch (onePoint .cpuUsagePct 10000)).toSummaryMetrics.stored
      s.columns with
  | none => rfl
  | some m =>
    exfalso
    have hfits : (FloatExact.numeric 6 2 (value 10000)).isSome = true := by
      rw [← hs 6 2 10000 (by decide +kernel) (by decide +kernel)]
      exact (stored_isSome_iff s.columns _).mp (by rw [hstored]; rfl) .cpuUsagePct 6 2 _ rfl rfl
    rw [show value (10000 : Float) = 10000 by decide +kernel, numeric_isSome_iff (by decide)]
      at hfits
    norm_num at hfits

end Gaoming
