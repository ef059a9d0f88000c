import Gaoming.IngestService

/-!
# Which metric batches are accepted

`validateMetricBatch` once more, on Go strings as they are: any bytes, valid UTF-8
or not, and maps whose entries come up in whatever order the loop meets them. What
it accepts is said without its loops and running totals. On batches that
arrive as text the checks are those of `MetricValidation`.
-/

namespace Gaoming

/-- A Go string. -/
abbrev GoString := ByteArray

/-- A Go map, in the order in which one loop meets its entries. -/
structure VisitedMap where
  entries : List (GoString × GoString)
  keysNodup : (entries.map Prod.fst).Nodup

structure GoPoint where
  name : GoString
  value : Float
  labels : VisitedMap

structure GoCollector where
  name : GoString
  state : CollectorState
  metricNames : List GoString
  durationMicros : Int64

/-- The part of a request that `validateMetricBatch` reads. -/
structure GoBatch where
  points : List GoPoint
  collectors : List GoCollector

/-- The text of a string that has passed `utf8.ValidString`. -/
def GoString.text (s : GoString) : String := (String.fromUTF8? s).getD ""

def GoString.validIdentifier (u : Unicode) (value : GoString) (maxBytes : ℕ) : Bool :=
  if value.size = 0 || maxBytes < value.size then false
  else
    match String.fromUTF8? value with
    | none => false
    | some s => s.toList.all fun c => u.isLetter c || u.isDigit c || "_:-.".toList.contains c

def GoString.validText (value : GoString) (maxBytes : ℕ) : Bool :=
  if maxBytes < value.size then false
  else
    match String.fromUTF8? value with
    | none => false
    | some s => s.toList.all fun c => !isControl c

namespace GoBatch

section Checks
variable (u : Unicode)

def checkLabels (index : ℕ) : List (GoString × GoString) → ℕ → Except InvalidMetricBatch ℕ
  | [], bytes => .ok bytes
  | (key, value) :: rest, bytes =>
    if !key.validIdentifier u maxLabelKeyBytes then .error (.labelKey index)
    else if !value.validText maxLabelValueBytes then .error (.labelValue index key.text)
    else checkLabels index rest (bytes + (key.size + value.size))

def checkPoints : ℕ → List GoPoint → ℕ → Except InvalidMetricBatch ℕ
  | _, [], bytes => .ok bytes
  | index, point :: rest, bytes =>
    if !point.name.validIdentifier u maxMetricNameBytes then .error (.pointName index)
    else if point.value.isNaN || point.value.isInf then .error (.pointValue index)
    else if maxLabelsPerPoint < point.labels.entries.length then
      .error (.labelCount index point.labels.entries.length)
    else
      match checkLabels u index point.labels.entries (bytes + point.name.size) with
      | .error e => .error e
      | .ok bytes => checkPoints (index + 1) rest bytes

def checkMetricNames (collector : GoString) : List GoString → ℕ → Except InvalidMetricBatch ℕ
  | [], bytes => .ok bytes
  | name :: rest, bytes =>
    if !name.validIdentifier u maxMetricNameBytes then .error (.metricName collector.text)
    else checkMetricNames collector rest (bytes + name.size)

def checkCollectors : ℕ → List GoCollector → ℕ → ℕ → Except InvalidMetricBatch ℕ
  | _, [], _, bytes => .ok bytes
  | index, collector :: rest, names, bytes =>
    if !collector.name.validIdentifier u maxMetricNameBytes then .error (.collectorName index)
    else if collector.state < CollectorState.unspecified ||
        CollectorState.degraded < collector.state then
      .error (.collectorState collector.name.text)
    else if collector.durationMicros < 0 then .error (.collectorDuration collector.name.text)
    else if maxCollectorMetricNames < names + collector.metricNames.length then
      .error .metricNameCount
    else
      match checkMetricNames u collector.name collector.metricNames
          (bytes + collector.name.size) with
      | .error e => .error e
      | .ok bytes => checkCollectors (index + 1) rest (names + collector.metricNames.length) bytes

def validateMetricBatch (req : GoBatch) : Except InvalidMetricBatch Unit :=
  if maxMetricPoints < req.points.length then .error (.pointCount req.points.length)
  else if maxCollectors < req.collectors.length then
    .error (.collectorCount req.collectors.length)
  else
    match checkPoints u 0 req.points 0 with
    | .error e => .error e
    | .ok bytes =>
      match checkCollectors u 0 req.collectors 0 bytes with
      | .error e => .error e
      | .ok bytes =>
        if maxMetricBatchStringBytes < bytes then .error (.stringBytes bytes) else .ok ()

end Checks

end GoBatch

/-- Valid UTF-8 of at most `maxBytes` bytes, made of letters, digits and `_:-.`. -/
def GoString.Identifier (u : Unicode) (value : GoString) (maxBytes : ℕ) : Prop :=
  ∃ s : String, s.toUTF8 = value ∧ s ≠ "" ∧ value.size ≤ maxBytes ∧
    ∀ c ∈ s.toList, u.isLetter c = true ∨ u.isDigit c = true ∨ c ∈ ['_', ':', '-', '.']

/-- Valid UTF-8 of at most `maxBytes` bytes, without control characters. -/
def GoString.PlainText (value : GoString) (maxBytes : ℕ) : Prop :=
  ∃ s : String, s.toUTF8 = value ∧ value.size ≤ maxBytes ∧ ∀ c ∈ s.toList, isControl c = false

def labelBytes (labels : List (GoString × GoString)) : ℕ :=
  (labels.map fun l => l.1.size + l.2.size).sum

def GoPoint.bytes (p : GoPoint) : ℕ := p.name.size + labelBytes p.labels.entries

def GoCollector.bytes (c : GoCollector) : ℕ :=
  c.name.size + (c.metricNames.map ByteArray.size).sum

structure GoPoint.Acceptable (u : Unicode) (p : GoPoint) : Prop where
  name : p.name.Identifier u 128
  finite : p.value.isNaN = false ∧ p.value.isInf = false
  labelCount : p.labels.entries.length ≤ 16
  labels : ∀ l ∈ p.labels.entries, l.1.Identifier u 64 ∧ l.2.PlainText 256

structure GoCollector.Acceptable (u : Unicode) (c : GoCollector) : Prop where
  name : c.name.Identifier u 128
  state : c.state ∈ [CollectorState.unspecified, CollectorState.available,
    CollectorState.unavailable, CollectorState.degraded]
  duration : 0 ≤ c.durationMicros.toInt
  metricNames : ∀ name ∈ c.metricNames, name.Identifier u 128

structure GoBatch.Acceptable (u : Unicode) (req : GoBatch) : Prop where
  pointCount : req.points.length ≤ 4096
  collectorCount : req.collectors.length ≤ 64
  points : ∀ p ∈ req.points, p.Acceptable u
  collectors : ∀ c ∈ req.collectors, c.Acceptable u
  metricNames : (req.collectors.map fun c => c.metricNames.length).sum ≤ 4096
  bytes : (req.points.map GoPoint.bytes).sum + (req.collectors.map GoCollector.bytes).sum ≤ 2 ^ 20

section Strings
variable {u : Unicode} {value : GoString} {n : ℕ}

theorem fromUTF8?_eq_some_iff {s : String} :
    String.fromUTF8? value = some s ↔ s.toUTF8 = value := by
  constructor
  · intro h
    unfold String.fromUTF8? at h
    split at h
    · rw [← Option.some.inj h]
      rfl
    · cases h
  · rintro rfl
    simp only [String.fromUTF8?, String.toUTF8_eq_toByteArray, dif_pos s.isValidUTF8]
    rfl

theorem exists_fromUTF8? {f : Char → Bool} : (match String.fromUTF8? value with
    | none => false
    | some s => s.toList.all f) = true ↔ ∃ s : String, s.toUTF8 = value ∧ ∀ c ∈ s.toList, f c := by
  simp only [← fromUTF8?_eq_some_iff]
  cases String.fromUTF8? value with
  | none => simp
  | some s => simp

theorem size_toUTF8_eq_zero {s : String} : s.toUTF8.size = 0 ↔ s = "" := by
  simp

theorem GoString.validIdentifier_iff :
    value.validIdentifier u n = true ↔ value.Identifier u n := by
  rw [GoString.validIdentifier, GoString.Identifier]
  by_cases hempty : value.size = 0
  · simp only [hempty, decide_true, Bool.true_or, if_true, Bool.false_eq_true, false_iff]
    rintro ⟨s, rfl, hne, -⟩
    exact hne (size_toUTF8_eq_zero.mp hempty)
  by_cases hlong : n < value.size
  · simp only [hlong, decide_true, Bool.or_true, if_true, Bool.false_eq_true, false_iff]
    rintro ⟨s, -, -, hsize, -⟩
    omega
  · rw [if_neg (by simpa [hempty] using hlong), exists_fromUTF8?]
    refine exists_congr fun s => and_congr_right fun hs => ?_
    have hne : s ≠ "" := fun h => hempty (hs ▸ size_toUTF8_eq_zero.mpr h)
    simp [hne, Nat.not_lt.mp hlong, or_assoc]

theorem GoString.validText_iff : value.validText n = true ↔ value.PlainText n := by
  rw [GoString.validText, GoString.PlainText]
  by_cases hlong : n < value.size
  · simp only [hlong, if_true, Bool.false_eq_true, false_iff]
    rintro ⟨s, -, hsize, -⟩
    omega
  · rw [if_neg hlong, exists_fromUTF8?]
    simp [Nat.not_lt.mp hlong]

end Strings

namespace GoBatch
variable {u : Unicode} {index names bytes total : ℕ}

-- Each loop succeeds when all it meets is acceptable, and returns the bytes it has counted.

theorem checkLabels_ok_iff {labels : List (GoString × GoString)} :
    checkLabels u index labels bytes = .ok total ↔
      (∀ l ∈ labels, l.1.Identifier u 64 ∧ l.2.PlainText 256) ∧
        total = bytes + labelBytes labels := by
  induction labels generalizing bytes with
  | nil => simp [checkLabels, labelBytes, eq_comm]
  | cons l labels ih =>
    obtain ⟨key, value⟩ := l
    rw [checkLabels]
    by_cases hkey : key.Identifier u 64
    · have hk : key.validIdentifier u maxLabelKeyBytes = true :=
        GoString.validIdentifier_iff.mpr hkey
      by_cases hvalue : value.PlainText 256
      · have hv : value.validText maxLabelValueBytes = true := GoString.validText_iff.mpr hvalue
        simp [hk, hv, ih, hkey, hvalue, labelBytes, Nat.add_assoc]
      · have hv : ¬ value.validText maxLabelValueBytes = true := fun h =>
          hvalue (GoString.validText_iff.mp h)
        simp [hk, hv, hvalue]
    · have hk : ¬ key.validIdentifier u maxLabelKeyBytes = true := fun h =>
        hkey (GoString.validIdentifier_iff.mp h)
      simp [hk, hkey]

theorem checkPoints_ok_iff {points : List GoPoint} :
    checkPoints u index points bytes = .ok total ↔
      (∀ p ∈ points, p.Acceptable u) ∧ total = bytes + (points.map GoPoint.bytes).sum := by
  induction points generalizing index bytes with
  | nil => simp [checkPoints, eq_comm]
  | cons p points ih =>
    rw [checkPoints]
    split_ifs with hname hvalue hcount
    · refine iff_of_false (by simp) fun h => ?_
      have hp := GoString.validIdentifier_iff.mpr (h.1 p List.mem_cons_self).name
      simp [maxMetricNameBytes, hp] at hname
    · refine iff_of_false (by simp) fun h => ?_
      obtain ⟨hnan, hinf⟩ := (h.1 p List.mem_cons_self).finite
      rw [hnan, hinf] at hvalue
      cases hvalue
    · refine iff_of_false (by simp) fun h => ?_
      have hp := (h.1 p List.mem_cons_self).labelCount
      unfold maxLabelsPerPoint at hcount
      omega
    · have hid : p.name.Identifier u 128 := by
        rw [Bool.not_eq_true', Bool.not_eq_false] at hname
        exact GoString.validIdentifier_iff.mp hname
      have hfinite : p.value.isNaN = false ∧ p.value.isInf = false := by
        rwa [Bool.not_eq_true, Bool.or_eq_false_iff] at hvalue
      have hlength : p.labels.entries.length ≤ 16 := Nat.not_lt.mp hcount
      have hp : p.Acceptable u ↔
          ∀ l ∈ p.labels.entries, l.1.Identifier u 64 ∧ l.2.PlainText 256 :=
        ⟨fun h => h.labels, fun h => ⟨hid, hfinite, hlength, h⟩⟩
      rw [List.forall_mem_cons, hp, List.map_cons, List.sum_cons, GoPoint.bytes]
      cases hlabels : checkLabels u index p.labels.entries (bytes + p.name.size) with
      | error e =>
        refine iff_of_false (by simp) fun h => ?_
        have hok : checkLabels u index p.labels.entries (bytes + p.name.size) = .ok _ :=
          checkLabels_ok_iff.mpr ⟨h.1.1, rfl⟩
        rw [hlabels] at hok
        cases hok
      | ok after =>
        obtain ⟨hall, hafter⟩ := checkLabels_ok_iff.mp hlabels
        rw [ih, hafter]
        constructor
        · rintro ⟨hrest, htotal⟩
          exact ⟨⟨hall, hrest⟩, by omega⟩
        · rintro ⟨⟨-, hrest⟩, htotal⟩
          exact ⟨hrest, by omega⟩

theorem checkMetricNames_ok_iff {collector : GoString} {metricNames : List GoString} :
    checkMetricNames u collector metricNames bytes = .ok total ↔
      (∀ name ∈ metricNames, name.Identifier u 128) ∧
        total = bytes + (metricNames.map ByteArray.size).sum := by
  induction metricNames generalizing bytes with
  | nil => simp [checkMetricNames, eq_comm]
  | cons name metricNames ih =>
    rw [checkMetricNames]
    by_cases hname : name.Identifier u 128
    · have hn : name.validIdentifier u maxMetricNameBytes = true :=
        GoString.validIdentifier_iff.mpr hname
      simp [hn, ih, hname, Nat.add_assoc]
    · have hn : ¬ name.validIdentifier u maxMetricNameBytes = true := fun h =>
        hname (GoString.validIdentifier_iff.mp h)
      simp [hn, hname]

theorem state_defined_iff (state : CollectorState) :
    (state < CollectorState.unspecified || CollectorState.degraded < state) = false ↔
      state ∈ [CollectorState.unspecified, CollectorState.available,
        CollectorState.unavailable, CollectorState.degraded] := by
  simp only [CollectorState.unspecified, CollectorState.available, CollectorState.unavailable,
    CollectorState.degraded, Bool.or_eq_false_iff, decide_eq_false_iff_not, Int32.lt_iff_toInt_lt,
    List.mem_cons, List.not_mem_nil, or_false, ← Int32.toInt_inj]
  have h0 : (0 : Int32).toInt = 0 := by decide
  have h1 : (1 : Int32).toInt = 1 := by decide
  have h2 : (2 : Int32).toInt = 2 := by decide
  have h3 : (3 : Int32).toInt = 3 := by decide
  rw [h0, h1, h2, h3]
  omega

/-- The names of a run of collectors are checked against the limit one collector at a time;
since the count only grows, that is the check of the last count. -/
theorem checkCollectors_ok_iff {collectors : List GoCollector} (hnames : names ≤ 4096) :
    checkCollectors u index collectors names bytes = .ok total ↔
      (∀ c ∈ collectors, c.Acceptable u) ∧
        names + (collectors.map fun c => c.metricNames.length).sum ≤ 4096 ∧
        total = bytes + (collectors.map GoCollector.bytes).sum := by
  induction collectors generalizing index names bytes with
  | nil => simp [checkCollectors, hnames, eq_comm]
  | cons c collectors ih =>
    rw [checkCollectors]
    split_ifs with hname hstate hduration hcount
    · refine iff_of_false (by simp) fun h => ?_
      have hc := GoString.validIdentifier_iff.mpr (h.1 c List.mem_cons_self).name
      simp [maxMetricNameBytes, hc] at hname
    · refine iff_of_false (by simp) fun h => ?_
      rw [(state_defined_iff c.state).mpr (h.1 c List.mem_cons_self).state] at hstate
      cases hstate
    · refine iff_of_false (by simp) fun h => ?_
      have hc := (h.1 c List.mem_cons_self).duration
      rw [Int64.lt_iff_toInt_lt] at hduration
      exact absurd hc (not_le.mpr hduration)
    · refine iff_of_false (by simp) fun h => ?_
      have hsum := h.2.1
      rw [List.map_cons, List.sum_cons] at hsum
      unfold maxCollectorMetricNames at hcount
      omega
    · have hid : c.name.Identifier u 128 := by
        rw [Bool.not_eq_true', Bool.not_eq_false] at hname
        exact GoString.validIdentifier_iff.mp hname
      have hdefined := (state_defined_iff c.state).mp (Bool.eq_false_iff.mpr hstate)
      have hlong : 0 ≤ c.durationMicros.toInt := by
        rw [Int64.lt_iff_toInt_lt] at hduration
        exact not_lt.mp hduration
      have hsofar : names + c.metricNames.length ≤ 4096 := Nat.not_lt.mp hcount
      have hc : c.Acceptable u ↔ ∀ name ∈ c.metricNames, name.Identifier u 128 :=
        ⟨fun h => h.metricNames, fun h => ⟨hid, hdefined, hlong, h⟩⟩
      rw [List.forall_mem_cons, hc, List.map_cons, List.map_cons, List.sum_cons, List.sum_cons,
        GoCollector.bytes]
      cases hloop : checkMetricNames u c.name c.metricNames (bytes + c.name.size) with
      | error e =>
        refine iff_of_false (by simp) fun h => ?_
        have hok : checkMetricNames u c.name c.metricNames (bytes + c.name.size) = .ok _ :=
          checkMetricNames_ok_iff.mpr ⟨h.1.1, rfl⟩
        rw [hloop] at hok
        cases hok
      | ok after =>
        obtain ⟨hall, hafter⟩ := checkMetricNames_ok_iff.mp hloop
        rw [ih hsofar, hafter]
        constructor
        · rintro ⟨hrest, hsum, htotal⟩
          exact ⟨⟨hall, hrest⟩, by omega, by omega⟩
        · rintro ⟨⟨-, hrest⟩, hsum, htotal⟩
          exact ⟨hrest, by omega, by omega⟩

theorem validateMetricBatch_ok_iff {req : GoBatch} :
    validateMetricBatch u req = .ok () ↔ req.Acceptable u := by
  rw [validateMetricBatch]
  split_ifs with hpoints hcollectors
  · refine iff_of_false (by simp) fun h => ?_
    have := h.pointCount
    unfold maxMetricPoints at hpoints
    omega
  · refine iff_of_false (by simp) fun h => ?_
    have := h.collectorCount
    unfold maxCollectors at hcollectors
    omega
  · have hpointCount : req.points.length ≤ 4096 := Nat.not_lt.mp hpoints
    have hcollectorCount : req.collectors.length ≤ 64 := Nat.not_lt.mp hcollectors
    cases hloop : checkPoints u 0 req.points 0 with
    | error e =>
      refine iff_of_false (by simp) fun h => ?_
      have hok : checkPoints u 0 req.points 0 = .ok _ := checkPoints_ok_iff.mpr ⟨h.points, rfl⟩
      rw [hloop] at hok
      cases hok
    | ok bytes =>
      obtain ⟨hall, hbytes⟩ := checkPoints_ok_iff.mp hloop
      dsimp only
      cases hloop' : checkCollectors u 0 req.collectors 0 bytes with
      | error e =>
        refine iff_of_false (by simp) fun h => ?_
        have hok : checkCollectors u 0 req.collectors 0 bytes = .ok _ :=
          (checkCollectors_ok_iff (Nat.zero_le _)).mpr
            ⟨h.collectors, by simpa using h.metricNames, rfl⟩
        rw [hloop'] at hok
        cases hok
      | ok total =>
        obtain ⟨hall', hnames, htotal⟩ := (checkCollectors_ok_iff (Nat.zero_le _)).mp hloop'
        have hcounted : total = (req.points.map GoPoint.bytes).sum +
            (req.collectors.map GoCollector.bytes).sum := by omega
        dsimp only
        split_ifs with hlarge
        · refine iff_of_false (by simp) fun h => ?_
          have := h.bytes
          unfold maxMetricBatchStringBytes at hlarge
          omega
        · have hsmall : total ≤ 2 ^ 20 := Nat.not_lt.mp hlarge
          exact iff_of_true rfl ⟨hpointCount, hcollectorCount, hall, hall', by simpa using hnames,
            hcounted ▸ hsmall⟩

end GoBatch

/-- The same point, its labels met in another order. -/
structure GoPoint.Reordered (p q : GoPoint) : Prop where
  name : p.name = q.name
  value : p.value = q.value
  labels : p.labels.entries.Perm q.labels.entries

structure GoBatch.Reordered (req req' : GoBatch) : Prop where
  points : List.Forall₂ GoPoint.Reordered req.points req'.points
  collectors : req.collectors = req'.collectors

section Reordered
variable {u : Unicode}

theorem GoPoint.Reordered.acceptable {p q : GoPoint} (h : p.Reordered q) (hp : p.Acceptable u) :
    q.Acceptable u := by
  refine ⟨h.name ▸ hp.name, h.value ▸ hp.finite, h.labels.length_eq ▸ hp.labelCount, ?_⟩
  intro l hl
  exact hp.labels l (h.labels.mem_iff.mpr hl)

theorem GoPoint.Reordered.bytes {p q : GoPoint} (h : p.Reordered q) : p.bytes = q.bytes := by
  rw [GoPoint.bytes, GoPoint.bytes, h.name, labelBytes, labelBytes,
    (h.labels.map fun l => l.1.size + l.2.size).sum_eq]

theorem GoPoint.Reordered.symm {p q : GoPoint} (h : p.Reordered q) : q.Reordered p :=
  ⟨h.name.symm, h.value.symm, h.labels.symm⟩

theorem GoBatch.Reordered.symm {req req' : GoBatch} (h : req.Reordered req') :
    req'.Reordered req :=
  ⟨h.points.flip.imp fun _ _ h => h.symm, h.collectors.symm⟩

theorem acceptable_of_forall₂ {points points' : List GoPoint}
    (h : List.Forall₂ GoPoint.Reordered points points') (hp : ∀ p ∈ points, p.Acceptable u) :
    (∀ p ∈ points', p.Acceptable u) ∧
      (points.map GoPoint.bytes).sum = (points'.map GoPoint.bytes).sum := by
  induction h with
  | nil => simp
  | cons hpq _ ih =>
    rw [List.forall_mem_cons] at hp
    obtain ⟨hrest, hsum⟩ := ih hp.2
    refine ⟨List.forall_mem_cons.mpr ⟨hpq.acceptable hp.1, hrest⟩, ?_⟩
    rw [List.map_cons, List.map_cons, List.sum_cons, List.sum_cons, hpq.bytes, hsum]

theorem GoBatch.Reordered.acceptable {req req' : GoBatch} (h : req.Reordered req')
    (hreq : req.Acceptable u) : req'.Acceptable u := by
  obtain ⟨hpoints, hbytes⟩ := acceptable_of_forall₂ h.points hreq.points
  exact ⟨h.points.length_eq ▸ hreq.pointCount, h.collectors ▸ hreq.collectorCount, hpoints,
    h.collectors ▸ hreq.collectors, h.collectors ▸ hreq.metricNames,
    h.collectors ▸ hbytes ▸ hreq.bytes⟩

end Reordered

theorem nodup_encodedKeys (labels : StringMap) :
    ((labels.toList.map fun l => (l.1.toUTF8, l.2.toUTF8)).map Prod.fst).Nodup := by
  rw [List.map_map, List.Nodup, List.pairwise_map]
  refine (Std.ExtTreeMap.distinct_keys_toList (t := labels)).imp fun hne heq => hne ?_
  have hkey := String.toByteArray_inj.mp heq
  rw [hkey]
  exact Std.ReflCmp.compare_self

def MetricPoint.encode (p : MetricPoint) : GoPoint where
  name := p.name.toUTF8
  value := p.value
  labels := ⟨p.labels.toList.map fun l => (l.1.toUTF8, l.2.toUTF8), nodup_encodedKeys p.labels⟩

def CollectorStatus.encode (c : CollectorStatus) : GoCollector where
  name := c.name.toUTF8
  state := c.state
  metricNames := c.metricNames.map String.toUTF8
  durationMicros := c.durationMicros

def PushMetricBatchRequest.encode (req : PushMetricBatchRequest) : GoBatch where
  points := req.points.map MetricPoint.encode
  collectors := req.collectors.map CollectorStatus.encode

section Encode
variable {u : Unicode} {index names bytes : ℕ}

@[simp] theorem text_toUTF8 (s : String) : GoString.text s.toUTF8 = s := by
  rw [GoString.text, fromUTF8?_eq_some_iff.mpr rfl, Option.getD_some]

theorem validIdentifier_toUTF8 (s : String) (n : ℕ) :
    GoString.validIdentifier u s.toUTF8 n = validIdentifier u s n := by
  rw [GoString.validIdentifier, fromUTF8?_eq_some_iff.mpr rfl, validIdentifier]
  by_cases hs : s = "" <;> by_cases hn : n < s.utf8ByteSize <;>
    simp [hs, hn, Nat.not_le.mpr, Nat.not_lt.mp]

theorem validText_toUTF8 (s : String) (n : ℕ) :
    GoString.validText s.toUTF8 n = validText s n := by
  rw [GoString.validText, fromUTF8?_eq_some_iff.mpr rfl, validText]
  by_cases hn : n < s.utf8ByteSize <;> simp [hn, Nat.not_le.mpr, Nat.not_lt.mp]

theorem checkLabels_encode (labels : List (String × String)) :
    GoBatch.checkLabels u index (labels.map fun l => (l.1.toUTF8, l.2.toUTF8)) bytes =
      checkLabels u index labels bytes := by
  induction labels generalizing bytes with
  | nil => rfl
  | cons l labels ih =>
    obtain ⟨key, value⟩ := l
    rw [List.map_cons, GoBatch.checkLabels, checkLabels, validIdentifier_toUTF8,
      validText_toUTF8, ih, text_toUTF8, ← Nat.add_assoc]
    rfl

theorem checkPoints_encode (points : List MetricPoint) :
    GoBatch.checkPoints u index (points.map MetricPoint.encode) bytes =
      checkPoints u index points bytes := by
  induction points generalizing index bytes with
  | nil => rfl
  | cons p points ih =>
    have hlabels : p.encode.labels.entries.length = p.labels.size := by
      simp [MetricPoint.encode]
    have hloop : GoBatch.checkLabels u index p.encode.labels.entries (bytes + p.encode.name.size) =
        checkLabels u index p.labels.toList (bytes + p.name.utf8ByteSize) :=
      checkLabels_encode p.labels.toList
    rw [List.map_cons, GoBatch.checkPoints, checkPoints, hlabels, hloop]
    simp only [ih]
    rw [show p.encode.name = p.name.toUTF8 from rfl, validIdentifier_toUTF8]
    rfl

theorem checkMetricNames_encode (collector : String) (metricNames : List String) :
    GoBatch.checkMetricNames u collector.toUTF8 (metricNames.map String.toUTF8) bytes =
      checkMetricNames u collector metricNames bytes := by
  induction metricNames generalizing bytes with
  | nil => rfl
  | cons name metricNames ih =>
    rw [List.map_cons, GoBatch.checkMetricNames, checkMetricNames, validIdentifier_toUTF8, ih,
      text_toUTF8]
    rfl

theorem checkCollectors_encode (collectors : List CollectorStatus) :
    GoBatch.checkCollectors u index (collectors.map CollectorStatus.encode) names bytes =
      checkCollectors u index collectors names bytes := by
  induction collectors generalizing index names bytes with
  | nil => rfl
  | cons c collectors ih =>
    have hcount : c.encode.metricNames.length = c.metricNames.length := by
      simp [CollectorStatus.encode]
    have hloop : GoBatch.checkMetricNames u c.encode.name c.encode.metricNames
        (bytes + c.encode.name.size) =
        checkMetricNames u c.name c.metricNames (bytes + c.name.utf8ByteSize) :=
      checkMetricNames_encode c.name c.metricNames
    rw [List.map_cons, GoBatch.checkCollectors, checkCollectors, hcount, hloop]
    simp only [ih]
    rw [show c.encode.name = c.name.toUTF8 from rfl, validIdentifier_toUTF8, text_toUTF8]
    rfl

/-- On text the two models of the check are one. -/
theorem validateMetricBatch_encode (req : PushMetricBatchRequest) :
    GoBatch.validateMetricBatch u req.encode = validateMetricBatch u req := by
  have hloop : ∀ bytes, GoBatch.checkCollectors u 0 req.encode.collectors 0 bytes =
      checkCollectors u 0 req.collectors 0 bytes :=
    fun bytes => checkCollectors_encode req.collectors
  have hpoints : GoBatch.checkPoints u 0 req.encode.points 0 = checkPoints u 0 req.points 0 :=
    checkPoints_encode req.points
  have hcounts : req.encode.points.length = req.points.length ∧
      req.encode.collectors.length = req.collectors.length := by
    simp [PushMetricBatchRequest.encode]
  rw [GoBatch.validateMetricBatch, validateMetricBatch, hcounts.1, hcounts.2, hpoints]
  cases checkPoints u 0 req.points 0 with
  | error e => rfl
  | ok bytes =>
    have hcollectors := hloop bytes
    dsimp only
    generalize GoBatch.checkCollectors u 0 req.encode.collectors 0 bytes = loop at hcollectors
    subst hcollectors
    rfl

end Encode

/-- `processMetricBatch` with everything after the check as a parameter. -/
def GoBatch.process (u : Unicode) (record : Database → IngestOutcome) (req : GoBatch)
    (db : Database) : IngestOutcome :=
  match req.validateMetricBatch u with
  | .error e => ⟨.error (.invalid e), db, []⟩
  | .ok () => record db

/-- What `processMetricBatch` does with a batch that has passed. -/
def recordMetricBatch (s : Store) (available : MetricEffect → Bool) (d : Draws)
    (req : PushMetricBatchRequest) (now : Time) (db : Database) : IngestOutcome :=
  let digest := digestFromMetricBatch req
  match (s.reportMetrics d req digest now).transact db with
  | (.error e, db') => ⟨.error (.store e), db', []⟩
  | (.ok snapshot, db') =>
    let effects := metricEffects req digest now snapshot
    if effects.all available then ⟨.ok "metrics accepted", db', effects⟩
    else ⟨.error .unavailable, db', effects.takeWhile available⟩

theorem processMetricBatch_encode (u : Unicode) (s : Store) (available : MetricEffect → Bool)
    (d : Draws) (req : PushMetricBatchRequest) (now : Time) (db : Database) :
    processMetricBatch u s available d req now db =
      req.encode.process u (recordMetricBatch s available d req now) db := by
  rw [GoBatch.process, validateMetricBatch_encode]
  rfl

theorem process_of_not_acceptable {u : Unicode} {req : GoBatch} (hno : ¬ req.Acceptable u)
    (record : Database → IngestOutcome) (db : Database) : ∃ e : InvalidMetricBatch,
      req.validateMetricBatch u = .error e ∧
      (∃ message, e.text = "invalid metric batch: " ++ message) ∧
      req.process u record db = ⟨.error (.invalid e), db, []⟩ := by
  cases hreq : req.validateMetricBatch u with
  | ok _ => exact absurd (GoBatch.validateMetricBatch_ok_iff.mp hreq) hno
  | error e =>
    refine ⟨e, rfl, ⟨e.message, rfl⟩, ?_⟩
    rw [GoBatch.process, hreq]

/-- The check accepts exactly the acceptable batches, in whatever order their labels come up, and
a refusal leaves the database as it was and has no effect outside it. -/
theorem batch_acceptance (u : Unicode) (req : GoBatch) :
    (req.validateMetricBatch u = .ok () ↔ req.Acceptable u) ∧
    (∀ req', req.Reordered req' →
      (req'.validateMetricBatch u = .ok () ↔ req.validateMetricBatch u = .ok ())) ∧
    (∀ record db, ¬ req.Acceptable u → ∃ e : InvalidMetricBatch,
      req.validateMetricBatch u = .error e ∧
      (∃ message, e.text = "invalid metric batch: " ++ message) ∧
      req.process u record db = ⟨.error (.invalid e), db, []⟩) ∧
    ∀ s available d (r : PushMetricBatchRequest) now db, r.encode = req → ¬ req.Acceptable u →
      ∃ e : InvalidMetricBatch,
        processMetricBatch u s available d r now db = ⟨.error (.invalid e), db, []⟩ := by
  refine ⟨GoBatch.validateMetricBatch_ok_iff, fun req' h => ?_,
    fun record db hno => process_of_not_acceptable hno record db, ?_⟩
  · rw [GoBatch.validateMetricBatch_ok_iff, GoBatch.validateMetricBatch_ok_iff]
    exact ⟨h.symm.acceptable, h.acceptable⟩
  · rintro s available d r now db rfl hno
    obtain ⟨e, -, -, hprocess⟩ :=
      process_of_not_acceptable hno (recordMetricBatch s available d r now) db
    exact ⟨e, by rw [processMetricBatch_encode, hprocess]⟩

end Gaoming
