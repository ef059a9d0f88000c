import Gaoming.ReadingPoints

/-!
# Collectors that race with the deadline

`collectExtendedMetrics` with its goroutines: each of the nine sends its result on a
channel once, the loop takes results off the channel until it has all nine or the
context ends, and the ordered pass then reads the map. Sends, receives and the end of
the context interleave in any way. The structured message is a parameter.
-/

namespace Gaoming.Collection

structure Result (σ : Type) where
  name : String
  points : List MetricPoint := []
  failures : ℕ := 0
  duration : ℤ := 0
  timedOut : Bool := false
  apply : Option (σ → σ) := none

/-- The results of the nine collectors, each under its own name. -/
structure Assignment (σ : Type) where
  result : Collector → Result σ
  name_eq : ∀ c, (result c).name = c.name

structure Returned (σ : Type) where
  points : List MetricPoint := []
  statuses : List CollectorStatus := []
  capabilities : List String := []
  structured : σ

variable {σ : Type}

def stateOf (arrived : Option (Result σ)) : CollectorState :=
  match arrived with
  | none => CollectorState.unavailable
  | some result =>
    if result.points.length = 0 then CollectorState.unavailable
    else if 0 < result.failures then CollectorState.degraded
    else CollectorState.available

def statusOf (name : String) (arrived : Option (Result σ)) : CollectorStatus :=
  let result := arrived.getD { name := "" }
  { name := name
    state := stateOf arrived
    metricNames := uniqueMetricNames result.points
    durationMicros := Int64.ofInt (result.duration.tdiv 1000)
    timedOut := arrived.isNone || result.timedOut }

def Returned.add (out : Returned σ) (name : String) (arrived : Option (Result σ)) : Returned σ :=
  let result := arrived.getD { name := "" }
  let out := { out with statuses := out.statuses ++ [statusOf name arrived] }
  if stateOf arrived = CollectorState.unavailable then out
  else
    { out with
      capabilities := out.capabilities ++ ["collector:" ++ result.name]
      points := out.points ++ result.points
      structured := match result.apply with
        | none => out.structured
        | some apply => apply out.structured }

/-- The pass over the collectors once the results are in; `empty` is the new message. -/
def assemble (empty : σ) (byName : Std.ExtTreeMap String (Result σ)) : Returned σ :=
  collectors.foldl (fun out c => out.add c.name byName[c.name]?) { structured := empty }

/-- `running` are the collectors that have not sent yet; `received` is what the loop has taken
off the channel, in order. -/
structure State (σ : Type) where
  running : List Collector := collectors
  channel : List (Result σ) := []
  received : List (Result σ) := []
  byName : Std.ExtTreeMap String (Result σ) := ∅
  done : Bool := false
  collected : Bool := false

inductive Step (A : Assignment σ) : State σ → State σ → Prop
  | send {s : State σ} {c : Collector} (h : c ∈ s.running) :
    Step A s { s with running := s.running.erase c, channel := s.channel ++ [A.result c] }
  | endContext {s : State σ} : Step A s { s with done := true }
  | receive {s : State σ} {result : Result σ} {rest : List (Result σ)}
    (hopen : s.collected = false) (hroom : s.byName.size < collectors.length)
    (hchannel : s.channel = result :: rest) :
    Step A s { s with
      channel := rest
      received := s.received ++ [result]
      byName := s.byName.insert result.name result }
  | giveUp {s : State σ} (hopen : s.collected = false)
    (hroom : s.byName.size < collectors.length) (hdone : s.done = true) :
    Step A s { s with collected := true }
  | finish {s : State σ} (hopen : s.collected = false)
    (hfull : ¬ s.byName.size < collectors.length) : Step A s { s with collected := true }

def Reaches (A : Assignment σ) : State σ → State σ → Prop := Relation.ReflTransGen (Step A)

def State.Received (s : State σ) (c : Collector) : Prop := ∃ r ∈ s.received, r.name = c.name

instance (s : State σ) (c : Collector) : Decidable (s.Received c) :=
  inferInstanceAs (Decidable (∃ r ∈ s.received, r.name = c.name))

structure Inv (A : Assignment σ) (s : State σ) : Prop where
  channel : ∀ r ∈ s.channel, ∃ c, r = A.result c
  received : ∀ r ∈ s.received, ∃ c, r = A.result c
  byName : s.byName = s.received.foldl (fun m r => m.insert r.name r) ∅

theorem inv_start (A : Assignment σ) : Inv A {} := by
  constructor
  · simp
  · simp
  · rfl

theorem Inv.step {A : Assignment σ} {s t : State σ} (h : Inv A s) (hstep : Step A s t) :
    Inv A t := by
  cases hstep with
  | send hc =>
    refine ⟨fun r hr => ?_, h.received, h.byName⟩
    rcases List.mem_append.mp hr with hr | hr
    · exact h.channel r hr
    · exact ⟨_, List.mem_singleton.mp hr⟩
  | endContext => exact ⟨h.channel, h.received, h.byName⟩
  | receive hopen hroom hchannel =>
    have hall := h.channel
    rw [hchannel, List.forall_mem_cons] at hall
    refine ⟨hall.2, fun r hr => ?_, ?_⟩
    · rcases List.mem_append.mp hr with hr | hr
      · exact h.received r hr
      · rw [List.mem_singleton.mp hr]
        exact hall.1
    · rw [List.foldl_append, ← h.byName]
      rfl
  | giveUp => exact ⟨h.channel, h.received, h.byName⟩
  | finish => exact ⟨h.channel, h.received, h.byName⟩

theorem Inv.reaches {A : Assignment σ} {s t : State σ} (h : Inv A s) (hrun : Reaches A s t) :
    Inv A t := by
  induction hrun with
  | refl => exact h
  | tail _ hstep ih => exact ih.step hstep

/-- The map holds the result of every collector that has been received, and nothing else. -/
theorem lookup_of_received {A : Assignment σ} {l : List (Result σ)}
    (h : ∀ r ∈ l, ∃ c, r = A.result c) (c : Collector) :
    (l.foldl (fun m r => m.insert r.name r) (∅ : Std.ExtTreeMap String (Result σ)))[c.name]? =
      if ∃ r ∈ l, r.name = c.name then some (A.result c) else none := by
  induction l using List.reverseRecOn with
  | nil => simp
  | append_singleton l r ih =>
    rw [List.forall_mem_append, List.forall_mem_singleton] at h
    obtain ⟨hl, d, rfl⟩ := h
    rw [List.foldl_append, List.foldl_cons, List.foldl_nil, Std.ExtTreeMap.getElem?_insert, ih hl,
      A.name_eq d]
    by_cases hd : d = c
    · subst hd
      rw [if_pos Std.ReflCmp.compare_self, if_pos]
      exact ⟨_, List.mem_append_right _ (List.mem_singleton_self _), A.name_eq d⟩
    · have hname : d.name ≠ c.name := fun hname => hd (collector_name_injective hname)
      have hmem : (∃ r ∈ l ++ [A.result d], r.name = c.name) ↔ ∃ r ∈ l, r.name = c.name := by
        simp [A.name_eq, hname]
      rw [if_neg fun heq => hname (Std.LawfulEqCmp.eq_of_compare heq)]
      simp only [hmem]

theorem Inv.lookup {A : Assignment σ} {s : State σ} (h : Inv A s) (c : Collector) :
    s.byName[c.name]? = if s.Received c then some (A.result c) else none := by
  rw [h.byName]
  exact lookup_of_received h.received c

section Expected
variable (A : Assignment σ) (got : Collector → Prop) [DecidablePred got]

def arrivedOf (c : Collector) : Option (Result σ) := if got c then some (A.result c) else none

/-- Received, with at least one point. -/
def Present (c : Collector) : Prop := got c ∧ (A.result c).points ≠ []

instance : DecidablePred (Present A got) := fun c =>
  inferInstanceAs (Decidable (got c ∧ (A.result c).points ≠ []))

def Result.applyTo (result : Result σ) (structured : σ) : σ :=
  match result.apply with
  | none => structured
  | some apply => apply structured

def expected (empty : σ) : Returned σ where
  points := (collectors.filter (Present A got)).flatMap fun c => (A.result c).points
  statuses := collectors.map fun c => statusOf c.name (arrivedOf A got c)
  capabilities := (collectors.filter (Present A got)).map fun c => "collector:" ++ c.name
  structured := (collectors.filter (Present A got)).foldl
    (fun structured c => (A.result c).applyTo structured) empty

variable {A got}

theorem stateOf_arrived (c : Collector) :
    stateOf (arrivedOf A got c) = CollectorState.unavailable ↔ ¬ Present A got c := by
  unfold arrivedOf Present
  by_cases hgot : got c
  · by_cases hpoints : (A.result c).points = []
    · simp [hgot, hpoints, stateOf]
    · simp only [hgot, hpoints, stateOf, if_true, List.length_eq_zero_iff, if_false]
      split_ifs <;> simp [hpoints] <;> decide
  · simp [hgot, stateOf]

theorem add_arrived (out : Returned σ) (c : Collector) :
    out.add c.name (arrivedOf A got c) =
      { points := out.points ++ if Present A got c then (A.result c).points else []
        statuses := out.statuses ++ [statusOf c.name (arrivedOf A got c)]
        capabilities := out.capabilities ++ if Present A got c then ["collector:" ++ c.name] else []
        structured := if Present A got c then (A.result c).applyTo out.structured
          else out.structured } := by
  by_cases h : Present A got c
  · have harrived : arrivedOf A got c = some (A.result c) := if_pos h.1
    have hstate : stateOf (arrivedOf A got c) ≠ CollectorState.unavailable :=
      fun hstate => (stateOf_arrived c).mp hstate h
    rw [Returned.add, if_neg hstate, harrived]
    simp only [h, if_true, Option.getD_some, A.name_eq]
    rfl
  · have hstate := (stateOf_arrived c).mpr h
    rw [Returned.add, if_pos hstate]
    simp [h]

theorem foldl_add_arrived (l : List Collector) (out : Returned σ) :
    l.foldl (fun out c => out.add c.name (arrivedOf A got c)) out =
      { points := out.points ++ (l.filter (Present A got)).flatMap fun c => (A.result c).points
        statuses := out.statuses ++ l.map fun c => statusOf c.name (arrivedOf A got c)
        capabilities := out.capabilities ++
          (l.filter (Present A got)).map fun c => "collector:" ++ c.name
        structured := (l.filter (Present A got)).foldl
          (fun structured c => (A.result c).applyTo structured) out.structured } := by
  induction l generalizing out with
  | nil => simp
  | cons c rest ih =>
    rw [List.foldl_cons, add_arrived, ih]
    by_cases h : Present A got c <;> simp [h]

end Expected

theorem Inv.assemble_eq {A : Assignment σ} {s : State σ} (h : Inv A s) (empty : σ) :
    assemble empty s.byName = expected A s.Received empty := by
  have hlookup : ∀ c : Collector, s.byName[c.name]? = arrivedOf A s.Received c := h.lookup
  simp only [assemble, hlookup, foldl_add_arrived, expected, List.nil_append]

theorem mem_collectors (c : Collector) : c ∈ collectors := by
  cases c <;> decide

theorem length_le_of_nodup {order : List Collector} (h : order.Nodup) :
    order.length ≤ collectors.length :=
  (List.subperm_of_subset h fun c _ => mem_collectors c).length_le

theorem exists_receiving (A : Assignment σ) {order : List Collector} (h : order.Nodup) :
    ∃ s, Reaches A {} s ∧ s.channel = [] ∧ s.received = order.map A.result ∧
      s.byName.size = order.length ∧ s.collected = false ∧ ∀ c ∉ order, c ∈ s.running := by
  induction order using List.reverseRecOn with
  | nil => exact ⟨{}, .refl, rfl, rfl, by simp, rfl, fun c _ => mem_collectors c⟩
  | append_singleton order c ih =>
    have hroom : order.length < collectors.length := by
      have hlength := length_le_of_nodup h
      rw [List.length_append, List.length_singleton] at hlength
      omega
    rw [List.nodup_append] at h
    obtain ⟨horder, -, hdisjoint⟩ := h
    have hnew : c ∉ order := fun hc => hdisjoint c hc c (List.mem_singleton_self c) rfl
    obtain ⟨s, hrun, hchannel, hreceived, hsize, hopen, hrunning⟩ := ih horder
    -- The collector sends, and the loop takes its result at once.
    let sent : State σ :=
      { s with running := s.running.erase c, channel := s.channel ++ [A.result c] }
    have hsend : Step A s sent := .send (hrunning c hnew)
    let taken : State σ :=
      { sent with
        channel := []
        received := s.received ++ [A.result c]
        byName := s.byName.insert (A.result c).name (A.result c) }
    have htake : Step A sent taken :=
      .receive hopen (by simpa [sent, hsize] using hroom) (by simp [sent, hchannel])
    refine ⟨taken, (hrun.tail hsend).tail htake, rfl, ?_, ?_, hopen, ?_⟩
    · simp [taken, hreceived]
    · have hinv : Inv A s := (inv_start A).reaches hrun
      have hnot : ¬ s.Received c := by
        rintro ⟨r, hr, hname⟩
        rw [hreceived] at hr
        obtain ⟨d, hd, rfl⟩ := List.mem_map.mp hr
        rw [A.name_eq] at hname
        exact hnew (collector_name_injective hname ▸ hd)
      have habsent : c.name ∉ s.byName := by
        rw [Std.ExtTreeMap.mem_iff_isSome_getElem?, hinv.lookup c, if_neg hnot]
        simp
      change (s.byName.insert (A.result c).name (A.result c)).size = _
      rw [A.name_eq, Std.ExtTreeMap.size_insert,
        if_neg (mt Std.ExtTreeMap.mem_iff_contains.mpr habsent), hsize, List.length_append,
        List.length_singleton]
    · intro d hd
      rw [List.mem_append, not_or, List.mem_singleton] at hd
      exact (List.mem_erase_of_ne hd.2).mpr (hrunning d hd.1)

theorem exists_schedule (A : Assignment σ) {order : List Collector} (h : order.Nodup) :
    ∃ s, Reaches A {} s ∧ s.collected = true ∧ s.received = order.map A.result := by
  obtain ⟨s, hrun, -, hreceived, hsize, hopen, -⟩ := exists_receiving A h
  by_cases hroom : s.byName.size < collectors.length
  · have hend : Step A s { s with done := true } := .endContext
    exact ⟨_, (hrun.tail hend).tail (.giveUp hopen hroom rfl), rfl, hreceived⟩
  · exact ⟨_, hrun.tail (.finish hopen hroom), rfl, hreceived⟩

theorem received_iff {A : Assignment σ} {s : State σ} {order : List Collector}
    (h : s.received = order.map A.result) (c : Collector) : s.Received c ↔ c ∈ order := by
  simp only [State.Received, h, List.mem_map, exists_exists_and_eq_and, A.name_eq]
  exact ⟨fun ⟨d, hd, hname⟩ => collector_name_injective hname ▸ hd, fun hc => ⟨c, hc, rfl⟩⟩

def Result.ofModel (r : CollectorResult) : Result StructuredMetrics where
  name := r.name
  points := r.points
  failures := r.failures
  duration := r.duration
  timedOut := r.timedOut
  apply := some r.apply

theorem name_run (P : Platform) (r : Readings) (c : Collector) : (c.run P r).name = c.name := by
  cases c <;> simp only [Collector.run, collectHostMetrics, collectCPUMetrics, collectMemoryMetrics,
    collectSwapMetrics, collectLoadMetrics, collectFilesystemMetrics, collectDiskIOMetrics,
    collectNetworkMetrics, collectSensorMetrics, Collector.name] <;> split <;> rfl

/-- Each collector on the readings, with the time that it took and whether it came too late. -/
def Assignment.ofReadings (P : Platform) (r : Readings) (timing : Collector → ℤ × Bool) :
    Assignment StructuredMetrics where
  result := fun c => .ofModel (Arrival.result P r ⟨c, (timing c).1, (timing c).2⟩)
  name_eq := name_run P r

/-- A run of `collectExtendedMetrics` that has come to its end, and what it returns. -/
structure Returns (A : Assignment σ) (empty : σ) (s : State σ) (out : Returned σ) : Prop where
  reaches : Reaches A {} s
  collected : s.collected = true
  out_eq : out = assemble empty s.byName

/-- What is returned depends on which collectors were received in time, not on the order; each
collector has its status, and just those that were not received or had no point are left out. -/
theorem collection_independent_of_schedule (A : Assignment σ) (empty : σ) :
    (∀ s out s' out', Returns A empty s out → Returns A empty s' out' →
      (∀ c, s.Received c ↔ s'.Received c) → out = out') ∧
    (∀ s out, Returns A empty s out →
      out.statuses.map CollectorStatus.name = collectors.map Collector.name ∧
      (∀ status ∈ out.statuses, ∀ c : Collector, status.name = c.name →
        (status.state = CollectorState.unavailable ↔
          ¬ s.Received c ∨ (A.result c).points = []) ∧
        (¬ s.Received c → status.timedOut = true)) ∧
      let present := collectors.filter fun c => s.Received c ∧ (A.result c).points ≠ []
      out.points = present.flatMap (fun c => (A.result c).points) ∧
      out.capabilities = present.map (fun c => "collector:" ++ c.name) ∧
      out.structured =
        present.foldl (fun structured c => (A.result c).applyTo structured) empty) ∧
    ∀ order : List Collector, order.Nodup → ∃ s out, Returns A empty s out ∧
      s.received = order.map A.result := by
  refine ⟨?_, ?_, ?_⟩
  · intro s out s' out' h h' hsame
    have hgot : s.Received = s'.Received := funext fun c => propext (hsame c)
    rw [h.out_eq, h'.out_eq, ((inv_start A).reaches h.reaches).assemble_eq,
      ((inv_start A).reaches h'.reaches).assemble_eq]
    simp only [hgot]
  · intro s out h
    rw [h.out_eq, ((inv_start A).reaches h.reaches).assemble_eq]
    refine ⟨?_, ?_, rfl, rfl, rfl⟩
    · rw [expected, List.map_map]
      rfl
    · intro status hstatus c hname
      obtain ⟨d, -, rfl⟩ := List.mem_map.mp hstatus
      have hd : d = c := collector_name_injective hname
      subst hd
      constructor
      · change stateOf (arrivedOf A s.Received d) = _ ↔ _
        rw [stateOf_arrived, Present, not_and_or, not_not]
      · intro hnot
        have hnone : arrivedOf A s.Received d = none := if_neg hnot
        rw [hnone]
        rfl
  · intro order horder
    obtain ⟨s, hrun, hcollected, hreceived⟩ := exists_schedule A horder
    exact ⟨s, _, ⟨hrun, hcollected, rfl⟩, hreceived⟩

def threeReadings : Readings where
  cpu := { percent := some [10, 30] }
  load := { avg := some ⟨1, 2, 3⟩ }
  sensors := some []

/-- The load comes too late. -/
def lateLoad : Assignment StructuredMetrics :=
  .ofReadings ⟨⟨fun _ => false, id⟩, true, "/"⟩ threeReadings fun c => (1000, c = .load)

theorem late_load_left_out : ∃ s out s', Returns lateLoad {} s out ∧ Returns lateLoad {} s' out ∧
    s.received ≠ s'.received ∧ out.capabilities = ["collector:cpu"] ∧
    out.structured.cpuUsagePct = some 20 ∧ out.structured.load1 = none ∧
    ∀ status ∈ out.statuses, status.name = "load" →
      status.state = CollectorState.unavailable ∧ status.timedOut = true := by
  obtain ⟨hsame, hstate, hexists⟩ := collection_independent_of_schedule lateLoad {}
  obtain ⟨s, out, h, hreceived⟩ := hexists [.cpu, .sensors] (by decide)
  obtain ⟨s', out', h', hreceived'⟩ := hexists [.sensors, .cpu] (by decide)
  have hout : out = out' := hsame s out s' out' h h' fun c => by
    rw [received_iff hreceived, received_iff hreceived', List.Perm.mem_iff (.swap ..)]
  obtain ⟨-, hstatus, -, hcapabilities, hstructured⟩ := hstate s out h
  simp only [received_iff hreceived] at hcapabilities hstructured
  refine ⟨s, out, s', h, hout ▸ h', ?_, ?_, ?_, ?_, fun status hmem hname => ?_⟩
  · intro heq
    have hnames := congrArg (List.map Result.name) (hreceived.symm.trans (heq.trans hreceived'))
    exact absurd hnames (by decide +kernel)
  · rw [hcapabilities]
    decide +kernel
  · rw [hstructured]
    decide +kernel
  · rw [hstructured]
    decide +kernel
  · obtain ⟨hunavailable, hlate⟩ := hstatus status hmem .load hname
    have hnot : ¬ s.Received .load := by
      rw [received_iff hreceived]
      decide
    exact ⟨hunavailable.mpr (.inl hnot), hlate hnot⟩

def Result.toModel (r : Result StructuredMetrics) : CollectorResult where
  name := r.name
  points := r.points
  failures := r.failures
  duration := r.duration
  timedOut := r.timedOut
  apply := r.applyTo

def Returned.ofModel (c : Collected) : Returned StructuredMetrics where
  points := c.points
  statuses := c.statuses
  capabilities := c.capabilities
  structured := c.structured

theorem lookup_toModel (l : List (Result StructuredMetrics)) (name : String) :
    ((l.map Result.toModel).foldl (fun m r => m.insert r.name r)
      (∅ : Std.ExtTreeMap String CollectorResult))[name]? =
      (l.foldl (fun m r => m.insert r.name r)
        (∅ : Std.ExtTreeMap String (Result StructuredMetrics)))[name]?.map Result.toModel := by
  induction l using List.reverseRecOn with
  | nil => simp
  | append_singleton l r ih =>
    rw [List.map_append, List.foldl_append, List.foldl_append, List.map_singleton, List.foldl_cons,
      List.foldl_cons, List.foldl_nil, List.foldl_nil, Std.ExtTreeMap.getElem?_insert,
      Std.ExtTreeMap.getElem?_insert, ih]
    have hname : r.toModel.name = r.name := rfl
    rw [hname]
    split_ifs <;> rfl

theorem ofModel_add (c : Collected) (name : String) (arrived : Option (Result StructuredMetrics)) :
    Returned.ofModel (c.add name (arrived.map Result.toModel)) =
      (Returned.ofModel c).add name arrived := by
  cases arrived with
  | none => simp [Collected.add, Returned.add, Returned.ofModel, stateOf, statusOf]
  | some r =>
    by_cases hpoints : r.points = []
    · simp [Collected.add, Returned.add, Returned.ofModel, stateOf, statusOf, Result.toModel,
        hpoints]
    · have hdegraded : CollectorState.degraded ≠ CollectorState.unavailable := by decide
      have havailable : CollectorState.available ≠ CollectorState.unavailable := by decide
      by_cases hfailures : 0 < r.failures
      · simp [Collected.add, Returned.add, Returned.ofModel, stateOf, statusOf, Result.toModel,
          Result.applyTo, hpoints, hfailures, hdegraded]
      · simp [Collected.add, Returned.add, Returned.ofModel, stateOf, statusOf, Result.toModel,
          Result.applyTo, hpoints, hfailures, havailable]

theorem assemble_eq_collectExtendedMetrics {A : Assignment StructuredMetrics}
    {s : State StructuredMetrics} (h : Reaches A {} s) :
    assemble {} s.byName =
      Returned.ofModel (collectExtendedMetrics (s.received.map Result.toModel)) := by
  have hfold : ∀ (l : List Collector) (c : Collected),
      Returned.ofModel (l.foldl (fun c collector => c.add collector.name
        (s.byName[collector.name]?.map Result.toModel)) c) =
      l.foldl (fun out c => out.add c.name s.byName[c.name]?) (Returned.ofModel c) := by
    intro l
    induction l with
    | nil => exact fun c => rfl
    | cons d rest ih =>
      intro c
      rw [List.foldl_cons, List.foldl_cons, ih, ofModel_add]
  have hlookup : ∀ name : String, ((s.received.map Result.toModel).foldl
      (fun m r => m.insert r.name r) (∅ : Std.ExtTreeMap String CollectorResult))[name]? =
      s.byName[name]?.map Result.toModel := by
    intro name
    rw [lookup_toModel, ← ((inv_start A).reaches h).byName]
  rw [assemble, collectExtendedMetrics]
  simp only [hlookup]
  exact (hfold collectors {}).symm

end Gaoming.Collection
