import Gaoming.Contracts

/-!
# The checks on a metric batch

`validateMetricBatch` with its loops, its running totals and its messages. The
letter and digit tables of Unicode are a parameter. Strings here are valid UTF-8
by type, so the `utf8.ValidString` tests have no counterpart. Labels are visited
in key order where Go's order is unspecified, so which of several faulty labels
is named may differ; whether a batch is accepted does not.
-/

namespace Gaoming

/-- `unicode.IsLetter` and `unicode.IsDigit`. -/
structure Unicode where
  isLetter : Char → Bool
  isDigit : Char → Bool

/-- Letters and digits of ASCII. -/
def asciiOnly : Unicode := ⟨Char.isAlpha, Char.isDigit⟩

/-- `unicode.IsControl`. -/
def isControl (c : Char) : Bool := c.toNat < 0x20 || (0x7F ≤ c.toNat && c.toNat < 0xA0)

def maxMetricPoints : ℕ := 4096
def maxMetricNameBytes : ℕ := 128
def maxLabelsPerPoint : ℕ := 16
def maxLabelKeyBytes : ℕ := 64
def maxLabelValueBytes : ℕ := 256
def maxCollectors : ℕ := 64
def maxCollectorMetricNames : ℕ := 4096
def maxMetricBatchStringBytes : ℕ := 2 ^ 20

inductive InvalidMetricBatch
  | pointCount (count : ℕ)
  | collectorCount (count : ℕ)
  | pointName (index : ℕ)
  | pointValue (index : ℕ)
  | labelCount (index count : ℕ)
  | labelKey (index : ℕ)
  | labelValue (index : ℕ) (key : String)
  | collectorName (index : ℕ)
  | collectorState (name : String)
  | collectorDuration (name : String)
  | metricNameCount
  | metricName (collector : String)
  | stringBytes (size : ℕ)
  deriving DecidableEq

/-- A quoted name has passed `validIdentifier`, so quoting it escapes nothing. -/
def quoted (name : String) : String := "\"" ++ name ++ "\""

def InvalidMetricBatch.message : InvalidMetricBatch → String
  | .pointCount count => s!"point count {count} exceeds {maxMetricPoints}"
  | .collectorCount count => s!"collector count {count} exceeds {maxCollectors}"
  | .pointName index => s!"point {index} has an invalid name"
  | .pointValue index => s!"point {index} has a non-finite value"
  | .labelCount index count =>
    s!"point {index} label count {count} exceeds {maxLabelsPerPoint}"
  | .labelKey index => s!"point {index} has an invalid label key"
  | .labelValue index key => s!"point {index} label {quoted key} has an invalid value"
  | .collectorName index => s!"collector {index} has an invalid name"
  | .collectorState name => s!"collector {quoted name} has an invalid state"
  | .collectorDuration name => s!"collector {quoted name} has a negative duration"
  | .metricNameCount => s!"collector metric name count exceeds {maxCollectorMetricNames}"
  | .metricName name => s!"collector {quoted name} has an invalid metric name"
  | .stringBytes size =>
    s!"string data size {size} exceeds {maxMetricBatchStringBytes} bytes"

def InvalidMetricBatch.text (e : InvalidMetricBatch) : String :=
  "invalid metric batch: " ++ e.message

section Checks
variable (u : Unicode)

def validIdentifier (value : String) (maxBytes : ℕ) : Bool :=
  value ≠ "" && value.utf8ByteSize ≤ maxBytes &&
    value.toList.all fun c => u.isLetter c || u.isDigit c || "_:-.".toList.contains c

def validText (value : String) (maxBytes : ℕ) : Bool :=
  value.utf8ByteSize ≤ maxBytes && value.toList.all fun c => !isControl c

/-- The inner loop over a point's labels; the total of string bytes is passed on. -/
def checkLabels (index : ℕ) : List (String × String) → ℕ → Except InvalidMetricBatch ℕ
  | [], bytes => .ok bytes
  | (key, value) :: rest, bytes =>
    if !validIdentifier u key maxLabelKeyBytes then .error (.labelKey index)
    else if !validText value maxLabelValueBytes then .error (.labelValue index key)
    else checkLabels index rest (bytes + key.utf8ByteSize + value.utf8ByteSize)

def checkPoints : ℕ → List MetricPoint → ℕ → Except InvalidMetricBatch ℕ
  | _, [], bytes => .ok bytes
  | index, point :: rest, bytes =>
    if !validIdentifier u point.name maxMetricNameBytes then .error (.pointName index)
    else if point.value.isNaN || point.value.isInf then .error (.pointValue index)
    else if maxLabelsPerPoint < point.labels.size then
      .error (.labelCount index point.labels.size)
    else
      match checkLabels u index point.labels.toList (bytes + point.name.utf8ByteSize) with
      | .error e => .error e
      | .ok bytes => checkPoints (index + 1) rest bytes

def checkMetricNames (collector : String) : List String → ℕ → Except InvalidMetricBatch ℕ
  | [], bytes => .ok bytes
  | name :: rest, bytes =>
    if !validIdentifier u name maxMetricNameBytes then .error (.metricName collector)
    else checkMetricNames collector rest (bytes + name.utf8ByteSize)

def checkCollectors : ℕ → List CollectorStatus → ℕ → ℕ → Except InvalidMetricBatch ℕ
  | _, [], _, bytes => .ok bytes
  | index, collector :: rest, names, bytes =>
    if !validIdentifier u collector.name maxMetricNameBytes then .error (.collectorName index)
    else if collector.state < CollectorState.unspecified ||
        CollectorState.degraded < collector.state then .error (.collectorState collector.name)
    else if collector.durationMicros < 0 then .error (.collectorDuration collector.name)
    else if maxCollectorMetricNames < names + collector.metricNames.length then
      .error .metricNameCount
    else
      match checkMetricNames u collector.name collector.metricNames
          (bytes + collector.name.utf8ByteSize) with
      | .error e => .error e
      | .ok bytes => checkCollectors (index + 1) rest (names + collector.metricNames.length) bytes

def validateMetricBatch (req : PushMetricBatchRequest) : Except InvalidMetricBatch Unit :=
  if maxMetricPoints < req.points.length then .error (.pointCount req.points.length)
  else if maxCollectors < req.collectors.length then
    .error (.collectorCount req.collectors.length)
  else
    match checkPoints u 0 req.points 0 with
    | .error e => .error e
    | .ok bytes =>
      match checkCollectors u 0 req.collectors 0 bytes with
      | .error e => .error e
      | .ok bytes =>
        if maxMetricBatchStringBytes < bytes then .error (.stringBytes bytes) else .ok ()

end Checks
end Gaoming
