import Gaoming.MasterRead
import Gaoming.SortedSeries

/-!
# The histories of the web console

`normalizeMetricPoint`, `mergeLatestHistory` and `normalizeHistoryMap` of the hosts
model, and the stream handlers of `useLiveHostsData` that keep a history for each host.
`getTime` of a date is an integral number of milliseconds, or NaN for a text that is not
a date; differences of two such numbers keep their sign when they are rounded, so the
sort is by time.
-/

namespace Gaoming.Dashboard

/-- The time values of ECMAScript. -/
abbrev TimeValue := { t : ℤ // t.natAbs ≤ 8640000000000000 }

instance : Inhabited TimeValue := ⟨⟨0, by decide⟩⟩

def TimeValue.number (t : TimeValue) : Float := FloatInteger.ofInt64 (Int64.ofInt t.1)

/-- `new Date(text).getTime()`, with none for NaN, and `new Date(t).toISOString()`, which
is read back as the same time. -/
structure Dates where
  getTime : String → Option TimeValue
  toISOString : TimeValue → String
  getTime_toISOString : ∀ t, getTime (toISOString t) = some t

structure MetricPoint where
  ts : String
  value : Float
  deriving DecidableEq

abbrev MetricLatestMap := MetricKey → Option MetricPoint
abbrev HostHistoryMap := MetricKey → Option (List MetricPoint)

/-- The keys of `METRICS`, in its order. -/
def metrics : List MetricKey :=
  [.cpuUsagePct, .memUsedPct, .memAvailableBytes, .swapUsedPct, .diskUsedPct, .diskFreeBytes,
    .diskInodesUsedPct, .diskReadBPS, .diskWriteBPS, .diskReadIOPS, .diskWriteIOPS, .load1,
    .netRxBPS, .netTxBPS, .netRxPacketsPS, .netTxPacketsPS]

theorem nodup_metrics : metrics.Nodup := by decide

theorem mem_metrics (metric : MetricKey) : metric ∈ metrics := by cases metric <;> decide

section Model
variable (D : Dates)

def normalizeMetricPoint : Option MetricPoint → Option MetricPoint
  | none => none
  | some point =>
    match D.getTime point.ts with
    | none => none
    | some ts =>
      let value := if point.value.isNaN || point.value == 0 then 0 else point.value
      if value.isFinite then some { ts := D.toISOString ts, value := value } else none

/-- `!==` on two results of `getTime`; NaN differs from itself. -/
def differ : Option TimeValue → Option TimeValue → Bool
  | some a, some b => a ≠ b
  | _, _ => true

/-- `Array.prototype.sort`, which is stable, by the difference of the times; a difference
of NaN counts as 0. -/
def sortByTime (points : List MetricPoint) : List MetricPoint :=
  points.mergeSort fun left right =>
    match D.getTime left.ts, D.getTime right.ts with
    | some a, some b => decide (a.1 ≤ b.1)
    | _, _ => true

def windowStart (now : TimeValue) (windowSec : Float) : Float := now.number - windowSec * 1000

def inWindow (cutoff : Float) (t : TimeValue) : Bool := cutoff ≤ t.number

def recent (cutoff : Float) (point : MetricPoint) : Bool :=
  (D.getTime point.ts).any (inWindow cutoff)

/-- The list of one metric with a new point. -/
def mergePoint (cutoff : Float) (points : List MetricPoint) (point : MetricPoint) :
    List MetricPoint :=
  let merged := points.filter fun existing => differ (D.getTime existing.ts) (D.getTime point.ts)
  (sortByTime D (merged ++ [point])).filter (recent D cutoff)

def mergeLatestHistory (now : TimeValue) (current : Option HostHistoryMap)
    (latestPoints : Option MetricLatestMap) (windowSec : Float) : HostHistoryMap :=
  metrics.foldl
    (fun nextHistory metric =>
      match normalizeMetricPoint D (latestPoints.bind (· metric)) with
      | none => nextHistory
      | some point =>
        Function.update nextHistory metric
          (some (mergePoint D (windowStart now windowSec) ((nextHistory metric).getD []) point)))
    (current.getD fun _ => none)

def normalizeHistoryMap (now : TimeValue) (history : Option HostHistoryMap) (windowSec : Float) :
    HostHistoryMap :=
  metrics.foldl
    (fun nextHistory metric =>
      let normalized := sortByTime D
        ((((history.bind (· metric)).getD []).filterMap fun point =>
          normalizeMetricPoint D (some point)).filter (recent D (windowStart now windowSec)))
      if normalized.isEmpty then nextHistory
      else Function.update nextHistory metric (some normalized))
    fun _ => none

end Model

/-- A loop over distinct keys that sets each key from its own value. -/
theorem foldl_update_apply {κ β : Type} [DecidableEq κ] (f : κ → β → β) {keys : List κ}
    (hkeys : keys.Nodup) (h : κ → β) (k : κ) :
    keys.foldl (fun h k => Function.update h k (f k (h k))) h k =
      if k ∈ keys then f k (h k) else h k := by
  induction keys generalizing h with
  | nil => rfl
  | cons a keys ih =>
    obtain ⟨ha, hkeys⟩ := List.nodup_cons.mp hkeys
    rw [List.foldl_cons, ih hkeys]
    by_cases hk : k = a
    · subst hk
      rw [if_neg ha, if_pos List.mem_cons_self, Function.update_self]
    · simp only [List.mem_cons, hk, false_or, Function.update_of_ne hk]

section Entries
variable (D : Dates) (now : TimeValue) (windowSec : Float)

theorem mergeLatestHistory_apply (current : HostHistoryMap) (latest : Option MetricLatestMap)
    (metric : MetricKey) :
    mergeLatestHistory D now (some current) latest windowSec metric =
      match normalizeMetricPoint D (latest.bind (· metric)) with
      | none => current metric
      | some point =>
        some (mergePoint D (windowStart now windowSec) ((current metric).getD []) point) := by
  let entry (metric : MetricKey) (points : Option (List MetricPoint)) :=
    match normalizeMetricPoint D (latest.bind (· metric)) with
    | none => points
    | some point => some (mergePoint D (windowStart now windowSec) (points.getD []) point)
  have hstep : (fun (nextHistory : HostHistoryMap) metric =>
      match normalizeMetricPoint D (latest.bind (· metric)) with
      | none => nextHistory
      | some point => Function.update nextHistory metric
          (some (mergePoint D (windowStart now windowSec) ((nextHistory metric).getD []) point))) =
      fun nextHistory metric =>
        Function.update nextHistory metric (entry metric (nextHistory metric)) := by
    funext nextHistory metric
    dsimp only [entry]
    split
    · rw [Function.update_eq_self]
    · rfl
  rw [mergeLatestHistory, Option.getD_some, hstep, foldl_update_apply _ nodup_metrics,
    if_pos (mem_metrics metric)]

theorem normalizeHistoryMap_apply (history : Option HostHistoryMap) (metric : MetricKey) :
    let normalized := sortByTime D
      ((((history.bind (· metric)).getD []).filterMap fun point =>
        normalizeMetricPoint D (some point)).filter (recent D (windowStart now windowSec)))
    normalizeHistoryMap D now history windowSec metric =
      if normalized.isEmpty then none else some normalized := by
  let normalized (metric : MetricKey) := sortByTime D
    ((((history.bind (· metric)).getD []).filterMap fun point =>
      normalizeMetricPoint D (some point)).filter (recent D (windowStart now windowSec)))
  let entry (metric : MetricKey) (points : Option (List MetricPoint)) :=
    if (normalized metric).isEmpty then points else some (normalized metric)
  have hstep : (fun (nextHistory : HostHistoryMap) metric =>
      if (normalized metric).isEmpty then nextHistory
      else Function.update nextHistory metric (some (normalized metric))) =
      fun nextHistory metric =>
        Function.update nextHistory metric (entry metric (nextHistory metric)) := by
    funext nextHistory metric
    dsimp only [entry]
    split_ifs
    · rw [Function.update_eq_self]
    · rfl
  change metrics.foldl (fun (nextHistory : HostHistoryMap) metric =>
      if (normalized metric).isEmpty then nextHistory
      else Function.update nextHistory metric (some (normalized metric))) (fun _ => none) metric = _
  rw [hstep, foldl_update_apply _ nodup_metrics, if_pos (mem_metrics metric)]

end Entries

section Series
variable {D : Dates} {now : TimeValue} {windowSec cutoff : Float} {points : List MetricPoint}
  {point : MetricPoint}

def Timed (D : Dates) (points : List MetricPoint) : Prop := ∀ p ∈ points, (D.getTime p.ts).isSome

def time (D : Dates) (point : MetricPoint) : TimeValue := (D.getTime point.ts).getD default

theorem getTime_eq_time (h : (D.getTime point.ts).isSome) :
    D.getTime point.ts = some (time D point) := by
  obtain ⟨t, ht⟩ := Option.isSome_iff_exists.mp h
  rw [time, ht, Option.getD_some]

/-- The time and the value that a point stands for, from its date and its number alone. No
date and an infinity stand for nothing; NaN and the two zeros stand for 0. -/
def MetricPoint.reading (D : Dates) (point : MetricPoint) : Option (TimeValue × Float) :=
  if point.value.isInf then none
  else (D.getTime point.ts).map fun t =>
    (t, if point.value.isNaN || point.value == 0 then 0 else point.value)

def MetricPoint.ofReading (D : Dates) (reading : TimeValue × Float) : MetricPoint :=
  { ts := D.toISOString reading.1, value := reading.2 }

theorem not_isInf_of_eq_zero {f : Float} (h : (f == 0) = true) : f.isInf = false := by
  have hzero : (0 : Float).toModel.unpack = .zero .positive := rfl
  change f.toModel.unpack.beq (0 : Float).toModel.unpack = true at h
  rw [hzero] at h
  change f.toModel.unpack.isInf = false
  cases hf : f.toModel.unpack with
  | infinity s =>
    rw [hf] at h
    cases s <;> cases h
  | notANumber => rfl
  | zero => rfl
  | finite => rfl

theorem not_isInf_of_isNaN {f : Float} (h : f.isNaN = true) : f.isInf = false := by
  change f.toModel.unpack.isNaN = true at h
  change f.toModel.unpack.isInf = false
  cases hf : f.toModel.unpack with
  | notANumber => rfl
  | infinity | zero | finite =>
    rw [hf] at h
    cases h

theorem isFinite_orZero (f : Float) :
    (if f.isNaN || f == 0 then 0 else f).isFinite = !f.isInf := by
  have hfinite : f.isFinite = !(f.isNaN || f.isInf) := by
    change f.toModel.unpack.isFinite = !(f.toModel.unpack.isNaN || f.toModel.unpack.isInf)
    cases f.toModel.unpack <;> rfl
  split_ifs with h
  · rw [(Bool.or_eq_true_iff.mp h).elim not_isInf_of_isNaN not_isInf_of_eq_zero]
    decide +kernel
  · simp only [Bool.or_eq_true, not_or, Bool.not_eq_true] at h
    rw [hfinite, h.1, Bool.false_or]

theorem normalizeMetricPoint_eq (given : Option MetricPoint) :
    normalizeMetricPoint D given =
      (given.bind (MetricPoint.reading D)).map (MetricPoint.ofReading D) := by
  cases given with
  | none => rfl
  | some point =>
    rw [normalizeMetricPoint, Option.bind_some, MetricPoint.reading]
    cases D.getTime point.ts with
    | none => simp
    | some t =>
      simp only [isFinite_orZero]
      cases point.value.isInf <;> rfl

@[simp] theorem getTime_ofReading (r : TimeValue × Float) :
    D.getTime (MetricPoint.ofReading D r).ts = some r.1 :=
  D.getTime_toISOString r.1

@[simp] theorem time_ofReading (r : TimeValue × Float) : time D (.ofReading D r) = r.1 := by
  rw [time, getTime_ofReading, Option.getD_some]

theorem normalizeMetricPoint_timed {given : Option MetricPoint}
    (h : normalizeMetricPoint D given = some point) : (D.getTime point.ts).isSome := by
  rw [normalizeMetricPoint_eq] at h
  obtain ⟨r, -, rfl⟩ := Option.map_eq_some_iff.mp h
  rw [getTime_ofReading, Option.isSome_some]

theorem sortByTime_eq (h : Timed D points) :
    sortByTime D points = SortedSeries.sort (time D) points := by
  have hmap : (sortByTime D points).map id = SortedSeries.sort (time D) (points.map id) := by
    refine List.map_mergeSort fun a ha b hb => ?_
    rw [getTime_eq_time (h a ha), getTime_eq_time (h b hb)]
    exact decide_eq_decide.mpr Iff.rfl
  simpa only [List.map_id] using hmap

theorem recent_eq (h : (D.getTime point.ts).isSome) :
    recent D cutoff point = inWindow cutoff (time D point) := by
  rw [recent, getTime_eq_time h, Option.any_some]

theorem timed_sortByTime (h : Timed D points) : Timed D (sortByTime D points) :=
  fun p hp => h p ((List.mergeSort_perm points _).mem_iff.mp hp)

theorem mergePoint_eq_put (h : Timed D points) (hpoint : (D.getTime point.ts).isSome) :
    mergePoint D cutoff points point =
      SortedSeries.put (time D) (inWindow cutoff) points point := by
  have hmerged : Timed D ((points.filter fun existing =>
      differ (D.getTime existing.ts) (D.getTime point.ts)) ++ [point]) := by
    intro p hp
    rcases List.mem_append.mp hp with hp | hp
    · exact h p (List.mem_of_mem_filter hp)
    · rw [List.mem_singleton.mp hp]
      exact hpoint
  rw [mergePoint, List.filter_congr fun p hp => recent_eq (timed_sortByTime hmerged p hp),
    sortByTime_eq hmerged, SortedSeries.put]
  congr 3
  refine List.filter_congr fun existing he => ?_
  rw [getTime_eq_time (h existing he), getTime_eq_time hpoint]
  exact decide_eq_decide.mpr Iff.rfl

/-- Every point has a time, and the times do not decrease. -/
def InTimeOrder (D : Dates) (points : List MetricPoint) : Prop :=
  Timed D points ∧ points.Pairwise fun a b =>
    ∀ s t, D.getTime a.ts = some s → D.getTime b.ts = some t → s ≤ t

theorem inTimeOrder_of_sorted (h : Timed D points) (hsorted : SortedSeries.Sorted (time D) points) :
    InTimeOrder D points := by
  refine ⟨h, hsorted.imp fun {a b} hab s t hs ht => ?_⟩
  rw [time, time, hs, ht] at hab
  exact hab

def HostHistoryMap.InTimeOrder (D : Dates) (history : HostHistoryMap) : Prop :=
  ∀ metric, Dashboard.InTimeOrder D ((history metric).getD [])

theorem timed_put (h : Timed D points) (hpoint : (D.getTime point.ts).isSome) :
    Timed D (SortedSeries.put (time D) (inWindow cutoff) points point) := by
  intro p hp
  have hmem := (SortedSeries.perm_sort _).mem_iff.mp (List.mem_of_mem_filter hp)
  rcases List.mem_append.mp hmem with hmem | hmem
  · exact h p (List.mem_of_mem_filter hmem)
  · rw [List.mem_singleton.mp hmem]
    exact hpoint

theorem inTimeOrder_mergeLatestHistory {history : HostHistoryMap} {metric : MetricKey}
    (h : InTimeOrder D ((history metric).getD [])) (latest : Option MetricLatestMap) :
    InTimeOrder D ((mergeLatestHistory D now (some history) latest windowSec metric).getD []) := by
  rw [mergeLatestHistory_apply]
  split
  · exact h
  · next point hpoint =>
    have htime := normalizeMetricPoint_timed hpoint
    rw [Option.getD_some, mergePoint_eq_put h.1 htime]
    exact inTimeOrder_of_sorted (timed_put h.1 htime) (SortedSeries.sorted_put _ _)

theorem inTimeOrder_normalizeHistoryMap (history : Option HostHistoryMap) (metric : MetricKey) :
    InTimeOrder D ((normalizeHistoryMap D now history windowSec metric).getD []) := by
  rw [normalizeHistoryMap_apply]
  split_ifs
  · exact ⟨fun p hp => absurd hp List.not_mem_nil, List.Pairwise.nil⟩
  · have htimed : Timed D ((((history.bind (· metric)).getD []).filterMap fun point =>
        normalizeMetricPoint D (some point)).filter (recent D (windowStart now windowSec))) := by
      intro p hp
      obtain ⟨given, -, hgiven⟩ := List.mem_filterMap.mp (List.mem_of_mem_filter hp)
      exact normalizeMetricPoint_timed hgiven
    refine inTimeOrder_of_sorted (timed_sortByTime htimed) ?_
    rw [sortByTime_eq htimed]
    exact SortedSeries.sorted_sort _

/-- What a metric gets from a sequence of latest-maps. -/
def readings (D : Dates) (maps : List (Option MetricLatestMap)) (metric : MetricKey) :
    List (TimeValue × Float) :=
  maps.filterMap fun latest => (latest.bind (· metric)).bind (MetricPoint.reading D)

def putReading (D : Dates) (cutoff : Float) (points : List MetricPoint)
    (reading : TimeValue × Float) : List MetricPoint :=
  SortedSeries.put (time D) (inWindow cutoff) points (.ofReading D reading)

theorem merge_apply {history : HostHistoryMap} (h : history.InTimeOrder D)
    (latest : Option MetricLatestMap) (metric : MetricKey) :
    mergeLatestHistory D now (some history) latest windowSec metric =
      ((latest.bind (· metric)).bind (MetricPoint.reading D)).elim (history metric) fun r =>
        some (putReading D (windowStart now windowSec) ((history metric).getD []) r) := by
  rw [mergeLatestHistory_apply, normalizeMetricPoint_eq]
  cases (latest.bind (· metric)).bind (MetricPoint.reading D) with
  | none => rfl
  | some r =>
    change some (mergePoint D _ _ _) = some _
    rw [mergePoint_eq_put (h metric).1 (by simp)]
    rfl

theorem merges_apply {history : HostHistoryMap} (h : history.InTimeOrder D)
    (maps : List (Option MetricLatestMap)) (metric : MetricKey) :
    maps.foldl (fun history latest => mergeLatestHistory D now (some history) latest windowSec)
        history metric =
      if readings D maps metric = [] then history metric
      else some ((readings D maps metric).foldl (putReading D (windowStart now windowSec))
        ((history metric).getD [])) := by
  induction maps generalizing history with
  | nil => rfl
  | cons latest maps ih =>
    rw [List.foldl_cons, ih fun metric => inTimeOrder_mergeLatestHistory (h metric) latest,
      merge_apply h]
    cases hreading : (latest.bind (· metric)).bind (MetricPoint.reading D) with
    | none =>
      have hskip : readings D (latest :: maps) metric = readings D maps metric :=
        List.filterMap_cons_none hreading
      rw [hskip, Option.elim_none]
    | some r =>
      have hcons : readings D (latest :: maps) metric = r :: readings D maps metric :=
        List.filterMap_cons_some hreading
      rw [hcons, if_neg (List.cons_ne_nil _ _), List.foldl_cons, Option.elim_some,
        Option.getD_some]
      by_cases hnone : readings D maps metric = []
      · rw [if_pos hnone, hnone, List.foldl_nil]
      · rw [if_neg hnone]

theorem foldl_putReading (points : List MetricPoint) (added : List (TimeValue × Float)) :
    added.foldl (putReading D cutoff) points =
      (added.map (MetricPoint.ofReading D)).foldl
        (SortedSeries.put (time D) (inWindow cutoff)) points := by
  rw [List.foldl_map]
  rfl

/-- The points of one time. -/
def pointsAt (D : Dates) (t : TimeValue) (points : List MetricPoint) : List MetricPoint :=
  points.filter fun point => D.getTime point.ts = some t

theorem pointsAt_eq_slot (h : Timed D points) (t : TimeValue) :
    pointsAt D t points = SortedSeries.slot (time D) t points := by
  refine List.filter_congr fun p hp => ?_
  rw [getTime_eq_time (h p hp)]
  exact decide_eq_decide.mpr (by rw [Option.some.injEq])

theorem slot_map_ofReading (t : TimeValue) (added : List (TimeValue × Float)) :
    SortedSeries.slot (time D) t (added.map (MetricPoint.ofReading D)) =
      (added.filter fun r => r.1 = t).map (MetricPoint.ofReading D) := by
  rw [SortedSeries.slot, List.filter_map]
  congr 1
  refine List.filter_congr fun r _ => ?_
  simp only [Function.comp_apply, time_ofReading]

theorem timed_foldl_putReading (added : List (TimeValue × Float)) (h : Timed D points) :
    Timed D (added.foldl (putReading D cutoff) points) := by
  induction added generalizing points with
  | nil => exact h
  | cons r added ih => exact ih (timed_put h (by simp))

/-- No metric gets two readings of one time from the two maps. -/
def DifferentTimes (D : Dates) (a b : Option MetricLatestMap) : Prop :=
  ∀ metric r s, (a.bind (· metric)).bind (MetricPoint.reading D) = some r →
    (b.bind (· metric)).bind (MetricPoint.reading D) = some s → r.1 ≠ s.1

theorem readings_distinct {maps : List (Option MetricLatestMap)}
    (h : maps.Pairwise (DifferentTimes D)) (metric : MetricKey) :
    ((readings D maps metric).map (MetricPoint.ofReading D)).Pairwise
      fun p q => time D p ≠ time D q := by
  have hreadings : (readings D maps metric).Pairwise fun r s => r.1 ≠ s.1 :=
    List.Pairwise.filterMap _ (fun a b hab r hr s hs => hab metric r s hr hs) h
  refine List.pairwise_map.mpr (hreadings.imp fun hne => ?_)
  rwa [time_ofReading, time_ofReading]

theorem merges_perm {history : HostHistoryMap} (h : history.InTimeOrder D)
    {maps maps' : List (Option MetricLatestMap)} (hperm : maps.Perm maps')
    (hdistinct : maps.Pairwise (DifferentTimes D)) :
    maps.foldl (fun history latest => mergeLatestHistory D now (some history) latest windowSec)
        history =
      maps'.foldl (fun history latest => mergeLatestHistory D now (some history) latest windowSec)
        history := by
  funext metric
  have hreadings : (readings D maps metric).Perm (readings D maps' metric) := hperm.filterMap _
  rw [merges_apply h, merges_apply h, foldl_putReading, foldl_putReading,
    SortedSeries.foldl_put_perm _ (hreadings.map _) (readings_distinct hdistinct metric)]
  exact if_congr ⟨fun hnil => (hnil ▸ hreadings).nil_eq.symm, fun hnil => (hnil ▸ hreadings).eq_nil⟩
    rfl rfl

theorem merge_merge {history : HostHistoryMap} (h : history.InTimeOrder D)
    (latest : Option MetricLatestMap) :
    mergeLatestHistory D now (some (mergeLatestHistory D now (some history) latest windowSec))
        latest windowSec =
      mergeLatestHistory D now (some history) latest windowSec := by
  funext metric
  rw [merge_apply fun metric => inTimeOrder_mergeLatestHistory (h metric) latest, merge_apply h]
  cases (latest.bind (· metric)).bind (MetricPoint.reading D) with
  | none => rfl
  | some r =>
    rw [Option.elim_some, Option.elim_some, Option.getD_some, putReading, putReading,
      SortedSeries.put_put]

theorem inTimeOrder_merges {history : HostHistoryMap} (h : history.InTimeOrder D)
    (maps : List (Option MetricLatestMap)) :
    (maps.foldl (fun history latest => mergeLatestHistory D now (some history) latest windowSec)
      history).InTimeOrder D := by
  induction maps generalizing history with
  | nil => exact h
  | cons latest maps ih => exact ih fun metric => inTimeOrder_mergeLatestHistory (h metric) latest

end Series

def historyRetentionSec : Float := 3600

abbrev Histories := String → Option HostHistoryMap

/-- What the handlers read of the events; `reset` is the effect of another tenant or
stream. -/
inductive StreamEvent
  | reset
  | sync (histories : List (String × HostHistoryMap)) (latest : List (String × MetricLatestMap))
  | hostUpsert (hostUID : Option String) (latest : Option MetricLatestMap)
  | hostDelete (hostUID : Option String)

def Histories.handle (D : Dates) (now : TimeValue) (current : Histories) : StreamEvent → Histories
  | .reset => fun _ => none
  | .sync histories latest =>
    let next := histories.foldl
      (fun (next : Histories) (hostUID, history) => Function.update next hostUID
        (some (normalizeHistoryMap D now (some history) historyRetentionSec)))
      fun _ => none
    latest.foldl
      (fun next (hostUID, latestPoints) => Function.update next hostUID
        (some (mergeLatestHistory D now (next hostUID) (some latestPoints) historyRetentionSec)))
      next
  | .hostUpsert hostUID latest =>
    match hostUID.filter (· ≠ "") with
    | none => current
    | some hostUID => Function.update current hostUID
        (some (mergeLatestHistory D now (current hostUID) latest historyRetentionSec))
  | .hostDelete hostUID =>
    match hostUID.filter (· ≠ "") with
    | none => current
    | some hostUID => Function.update current hostUID none

/-- The histories after the events of a stream, each at the time it is handled. -/
def Histories.run (D : Dates) (events : List (TimeValue × StreamEvent)) : Histories :=
  events.foldl (fun histories event => Histories.handle D event.1 histories event.2) fun _ => none

/-- A history that `normalizeHistoryMap` gives, and what later merges make of it. -/
inductive Kept (D : Dates) : HostHistoryMap → Prop
  | loaded (now : TimeValue) (given : Option HostHistoryMap) (windowSec : Float) :
    Kept D (normalizeHistoryMap D now given windowSec)
  | merged {history : HostHistoryMap} (now : TimeValue) (latest : Option MetricLatestMap)
    (windowSec : Float) : Kept D history →
    Kept D (mergeLatestHistory D now (some history) latest windowSec)

def Histories.Kept (D : Dates) (histories : Histories) : Prop :=
  ∀ hostUID history, histories hostUID = some history → Dashboard.Kept D history

section Handlers
variable {D : Dates} {now : TimeValue} {histories : Histories}

theorem normalizeHistoryMap_none (windowSec : Float) :
    normalizeHistoryMap D now none windowSec = fun _ => none := by
  funext metric
  simp [normalizeHistoryMap_apply, sortByTime]

/-- A host without a history starts from an empty one. -/
theorem kept_merge {current : Option HostHistoryMap} (latest : Option MetricLatestMap)
    (windowSec : Float) (h : ∀ history, current = some history → Kept D history) :
    Kept D (mergeLatestHistory D now current latest windowSec) := by
  cases current with
  | none =>
    have hempty : mergeLatestHistory D now none latest windowSec = mergeLatestHistory D now
        (some (normalizeHistoryMap D now none windowSec)) latest windowSec := by
      rw [normalizeHistoryMap_none]
      rfl
    rw [hempty]
    exact .merged now latest windowSec (.loaded now none windowSec)
  | some history => exact .merged now latest windowSec (h history rfl)

theorem Histories.Kept.update (h : histories.Kept D) (hostUID : String)
    {entry : Option HostHistoryMap}
    (hentry : ∀ history, entry = some history → Dashboard.Kept D history) :
    Histories.Kept D (Function.update histories hostUID entry) := by
  intro other history hother
  by_cases heq : other = hostUID
  · subst heq
    exact hentry history (by simpa using hother)
  · exact h other history (by rwa [Function.update_of_ne heq] at hother)

theorem Histories.Kept.foldl {β : Type} (h : histories.Kept D) (entries : List β)
    {step : Histories → β → Histories}
    (hstep : ∀ next b, Histories.Kept D next → Histories.Kept D (step next b)) :
    Histories.Kept D (entries.foldl step histories) := by
  induction entries generalizing histories with
  | nil => exact h
  | cons b entries ih => exact ih (hstep histories b h)

theorem Histories.Kept.handle (h : histories.Kept D) (now : TimeValue) (event : StreamEvent) :
    Histories.Kept D (histories.handle D now event) := by
  have hnone : Histories.Kept D fun _ => none := fun _ _ h => nomatch h
  cases event with
  | reset => exact hnone
  | sync given latest =>
    refine (hnone.foldl given fun next b hnext => hnext.update _ ?_).foldl latest
      fun next b hnext => hnext.update _ ?_
    · rintro _ ⟨⟩
      exact .loaded now _ _
    · rintro _ ⟨⟩
      exact kept_merge _ _ (hnext b.1)
  | hostUpsert hostUID latest =>
    rw [Histories.handle]
    split
    · exact h
    · next hostUID _ =>
      refine h.update hostUID ?_
      rintro _ ⟨⟩
      exact kept_merge _ _ (h hostUID)
  | hostDelete hostUID =>
    rw [Histories.handle]
    split
    · exact h
    · exact h.update _ (by rintro _ ⟨⟩)

/-- Whatever the stream delivers, a host's history is one of loads and merges. -/
theorem kept_run (events : List (TimeValue × StreamEvent)) :
    (Histories.run D events).Kept D := by
  have hnone : Histories.Kept D fun _ => none := fun _ _ h => nomatch h
  exact hnone.foldl events fun next event hnext => hnext.handle event.1 event.2

theorem Kept.inTimeOrder {history : HostHistoryMap} (h : Kept D history) :
    history.InTimeOrder D := by
  induction h with
  | loaded now given windowSec => exact inTimeOrder_normalizeHistoryMap given
  | merged now latest windowSec _ ih =>
    exact fun metric => inTimeOrder_mergeLatestHistory (ih metric) latest

end Handlers

/-- What a metric holds after a run of merges: the last reading it got at each time of the
window, and what it held at the other times. -/
structure Merged (D : Dates) (cutoff : Float) (before : List MetricPoint)
    (added : List (TimeValue × Float)) (after : List MetricPoint) : Prop where
  order : InTimeOrder D after
  inside : ∀ t, inWindow cutoff t = true → pointsAt D t after =
    ((added.filter fun r => r.1 = t).getLast?.map fun r => [.ofReading D r]).getD
      (pointsAt D t before)
  outside : ∀ t, inWindow cutoff t = false → pointsAt D t after = []

theorem merged_foldl_putReading {D : Dates} {cutoff : Float} {before : List MetricPoint}
    {added : List (TimeValue × Float)} (hbefore : Timed D before) (hne : added ≠ []) :
    Merged D cutoff before added (added.foldl (putReading D cutoff) before) := by
  have htimed : Timed D (added.foldl (putReading D cutoff) before) :=
    timed_foldl_putReading added hbefore
  have hpoints : added.map (MetricPoint.ofReading D) ≠ [] := by simpa using hne
  obtain ⟨hsorted, hkept⟩ : SortedSeries.Sorted (time D)
      ((added.map (MetricPoint.ofReading D)).foldl
      (SortedSeries.put (time D) (inWindow cutoff)) before) ∧ _ :=
    SortedSeries.sorted_foldl_put hpoints
  rw [← foldl_putReading] at hsorted hkept
  refine ⟨inTimeOrder_of_sorted htimed hsorted, fun t ht => ?_, fun t ht => ?_⟩
  · rw [pointsAt_eq_slot htimed, foldl_putReading, SortedSeries.slot_foldl_put before _ ht,
      SortedSeries.lastAt, slot_map_ofReading, List.getLast?_map, Option.map_map,
      pointsAt_eq_slot hbefore]
    rfl
  · rw [pointsAt_eq_slot htimed, SortedSeries.slot, List.filter_eq_nil_iff]
    intro p hp hpt
    rw [← of_decide_eq_true hpt, hkept p hp] at ht
    cases ht

theorem trends_merged (D : Dates) {start : HostHistoryMap} (hstart : Kept D start)
    (now : TimeValue) (windowSec : Float) :
    let merge := fun history latest => mergeLatestHistory D now (some history) latest windowSec
    (∀ (maps : List (Option MetricLatestMap)) metric,
      if readings D maps metric = [] then maps.foldl merge start metric = start metric
      else ∃ points, maps.foldl merge start metric = some points ∧
        Merged D (windowStart now windowSec) ((start metric).getD []) (readings D maps metric)
          points) ∧
    (∀ maps maps' : List (Option MetricLatestMap), maps.Perm maps' →
      maps.Pairwise (DifferentTimes D) → maps.foldl merge start = maps'.foldl merge start) ∧
    ∀ (maps : List (Option MetricLatestMap)) latest,
      merge (merge (maps.foldl merge start) latest) latest =
        merge (maps.foldl merge start) latest := by
  intro merge
  have horder := hstart.inTimeOrder
  refine ⟨fun maps metric => ?_, fun maps maps' => merges_perm horder,
    fun maps latest => merge_merge (inTimeOrder_merges horder maps) latest⟩
  have happly : maps.foldl merge start metric = _ := merges_apply horder maps metric
  split_ifs at happly ⊢ with hnone
  · exact happly
  · exact ⟨_, happly, merged_foldl_putReading (horder metric).1 hnone⟩

theorem natAbs_min_le (n : ℕ) : ((min n 8640000000000000 : ℕ) : ℤ).natAbs ≤ 8640000000000000 := by
  omega

def millis (n : ℕ) : TimeValue := ⟨(min n 8640000000000000 : ℕ), natAbs_min_le n⟩

/-- A calendar that counts blanks. -/
def tally (t : TimeValue) : String := String.ofList (List.replicate (Encodable.encode t.1) ' ')

def readTally (text : String) : Option TimeValue :=
  if text.toList.all (· == ' ') then
    (Encodable.decode text.length).bind fun n : ℤ =>
      if h : n.natAbs ≤ 8640000000000000 then some ⟨n, h⟩ else none
  else none

theorem readTally_tally (t : TimeValue) : readTally (tally t) = some t := by
  have hall : (tally t).toList.all (· == ' ') = true := by
    simp [tally, String.toList_ofList]
  rw [readTally, if_pos hall, tally, String.length_ofList, List.length_replicate,
    Encodable.encodek, Option.bind_some, dif_pos t.2]

def tallies : Dates := ⟨readTally, tally, readTally_tally⟩

def cpuPoint (n : ℕ) (value : Float) : MetricPoint := { ts := tally (millis n), value := value }

def cpuLatest (point : MetricPoint) : MetricLatestMap
  | .cpuUsagePct => some point
  | _ => none

/-- A load with points at 4 and 8, and a push of another metric. -/
def loadThenPush : List (TimeValue × StreamEvent) :=
  [(millis 8, .sync [("web-1", fun _ => some [cpuPoint 8 2, cpuPoint 4 1])] []),
    (millis 9, .hostUpsert (some "web-1") (some fun _ => none))]

/-- Late, repeated and unreadable points, and one from before the window. -/
def lateMaps : List (Option MetricLatestMap) :=
  [some (cpuLatest (cpuPoint 9 3)), some (cpuLatest (cpuPoint 6 (0 / 0))), none,
    some (cpuLatest (cpuPoint 9 4)), some (cpuLatest { ts := "never", value := 1 }),
    some (cpuLatest (cpuPoint 7 (1 / 0))), some (cpuLatest (cpuPoint 2 5))]

theorem trends_merged_late_points : ∃ start points,
    Histories.run tallies loadThenPush "web-1" = some start ∧
    lateMaps.foldl (fun history latest =>
      mergeLatestHistory tallies (millis 10) (some history) latest 0.005) start .cpuUsagePct =
        some points ∧
    InTimeOrder tallies points ∧
    pointsAt tallies (millis 9) points = [cpuPoint 9 4] ∧
    pointsAt tallies (millis 8) points =
      pointsAt tallies (millis 8) ((start .cpuUsagePct).getD []) ∧
    pointsAt tallies (millis 7) points =
      pointsAt tallies (millis 7) ((start .cpuUsagePct).getD []) ∧
    pointsAt tallies (millis 6) points = [cpuPoint 6 0] ∧
    pointsAt tallies (millis 4) points = [] ∧ pointsAt tallies (millis 2) points = [] := by
  obtain ⟨start, hstart⟩ : ∃ start, Histories.run tallies loadThenPush "web-1" = some start :=
    Option.isSome_iff_exists.mp (by decide +kernel)
  have hholds := (trends_merged tallies (kept_run loadThenPush "web-1" start hstart) (millis 10)
    0.005).1 lateMaps .cpuUsagePct
  have hreadings : readings tallies lateMaps .cpuUsagePct =
      [(millis 9, 3), (millis 6, 0), (millis 9, 4), (millis 2, 5)] := by
    decide +kernel
  rw [hreadings, if_neg (by simp)] at hholds
  obtain ⟨points, hpoints, hmerged⟩ := hholds
  refine ⟨start, points, hstart, hpoints, hmerged.order, ?_, ?_, ?_, ?_, ?_, ?_⟩
  · exact (hmerged.inside _ (by decide +kernel)).trans (by rfl)
  · exact (hmerged.inside _ (by decide +kernel)).trans (by rfl)
  · exact (hmerged.inside _ (by decide +kernel)).trans (by rfl)
  · exact (hmerged.inside _ (by decide +kernel)).trans (by rfl)
  · exact hmerged.outside _ (by decide +kernel)
  · exact hmerged.outside _ (by decide +kernel)

end Gaoming.Dashboard
