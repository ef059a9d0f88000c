import Gaoming.AgentUpload
import Gaoming.IngestService
import Gaoming.MetricCodec

/-!
# The upload protocol

One agent process, the streams it opens one after another, and the handler that
the server runs for each of them. A stream delivers each message at most once
and in order; every operation may fail, and a failed `Send` may or may not have
delivered its message. Whatever else uses the database changes it between the
steps. The history lists what happened, newest first.
-/

namespace Gaoming
open Relational Transaction

def Agent.new (host : HostIdentity) (agentID : String) (bootTime : Time) : Agent where
  host := host
  agentID := agentID
  hostUID := host.hostUID
  bootTime := bootTime

namespace Upload

structure Message where
  cycle : ℕ
  payload : PushMetricBatchRequest

def Message.request (m : Message) : PushMetricBatchRequest :=
  fromProtoPushMetricBatchRequest (toProtoPushMetricBatchRequest m.payload)

structure MetricBatchAck where
  code : Int32 := 0
  message : String
  batchSeq : Int64

structure Commit where
  draws : Draws
  now : Time
  before : Database
  snapshot : HostSnapshot
  after : Database

inductive Act
  | received (stream : ℕ) (m : Message)
  | committed (stream : ℕ) (m : Message) (c : Commit)
  | performed (stream : ℕ) (effect : MetricEffect)
  | acked (stream : ℕ) (batchSeq : Int64)
  | ended (stream : ℕ)
  /-- `pushMetrics` returned, with `nil` if `ok`. -/
  | returned (m : Message) (ok : Bool)

inductive Stage
  | receiving
  | processing (m : Message)
  /-- Inside `processMetricBatch` after the transaction, with the effects still to come. -/
  | recorded (m : Message) (rest : List MetricEffect)
  | ended

structure Handler where
  stage : Stage := .receiving
  /-- How many messages the handler has received. -/
  taken : ℕ := 0
  acks : List MetricBatchAck := []

inductive Phase
  | idle
  | opening (m : Message)
  | sending (stream : ℕ) (m : Message)
  | awaiting (stream : ℕ) (m : Message)
  | stopped

end Upload

structure Upload where
  agent : Agent
  cycles : ℕ := 0
  metricSink : Option ℕ := none
  phase : Upload.Phase := .idle
  opened : ℕ := 0
  /-- The messages that `Send` delivered, in order, with their streams. -/
  sent : List (ℕ × Upload.Message) := []
  handler : ℕ → Upload.Handler := fun _ => {}
  /-- How many acks of a stream the agent has read. -/
  read : ℕ → ℕ := fun _ => 0
  db : Database
  history : List Upload.Act := []

namespace Upload

inductive Step
  | env (db : Database)
  /-- `sendCycle` up to the call of `pushMetricsGRPC`. -/
  | cycle (now : Time) (uptime : Float) (metrics : SystemMetrics)
  | openStream
  | openFails (fatal : Bool)
  | send
  | sendFails (delivered fatal : Bool)
  | recv
  | recvFails (fatal : Bool)
  | take (stream : ℕ)
  | process (stream : ℕ) (d : Draws) (now : Time)
  | perform (stream : ℕ)
  | ack (stream : ℕ)
  | ackFails (stream : ℕ) (delivered : Bool)
  | handlerFails (stream : ℕ)

def sentOn (s : Upload) (k : ℕ) : List Message :=
  s.sent.filterMap fun x => if x.1 = k then some x.2 else none

def record (s : Upload) (a : Act) : Upload := { s with history := a :: s.history }

/-- `pushMetrics` returns; a fatal error also ends `Run`. -/
def finish (s : Upload) (m : Message) (ok fatal : Bool) : Upload :=
  { s.record (.returned m ok) with phase := if fatal then .stopped else .idle }

def resetMetricStream (s : Upload) : Upload := { s with metricSink := none }

def deliver (s : Upload) (k : ℕ) (m : Message) : Upload := { s with sent := s.sent ++ [(k, m)] }

def setHandler (s : Upload) (k : ℕ) (h : Handler) : Upload :=
  { s with handler := Function.update s.handler k h }

def endHandler (s : Upload) (k : ℕ) : Upload :=
  (s.setHandler k { s.handler k with stage := .ended }).record (.ended k)

def cycle (s : Upload) (now : Time) (uptime : Float) (metrics : SystemMetrics) : Upload :=
  match s.phase with
  | .idle =>
    let (agent, payload) := s.agent.sendCycle now uptime metrics
    let m : Message := ⟨s.cycles + 1, payload⟩
    { s with
      agent := agent, cycles := s.cycles + 1
      phase := match s.metricSink with
        | some k => .sending k m
        | none => .opening m }
  | _ => s

/-- `metricStreamClient` when there is no stream. -/
def openStream (s : Upload) : Upload :=
  match s.phase with
  | .opening m =>
    { s with metricSink := some s.opened, opened := s.opened + 1, phase := .sending s.opened m }
  | _ => s

def openFails (s : Upload) (fatal : Bool) : Upload :=
  match s.phase with
  | .opening m => s.finish m false fatal
  | _ => s

def send (s : Upload) : Upload :=
  match s.phase with
  | .sending k m => { s.deliver k m with phase := .awaiting k m }
  | _ => s

def sendFails (s : Upload) (delivered fatal : Bool) : Upload :=
  match s.phase with
  | .sending k m =>
    (if delivered then s.deliver k m else s).resetMetricStream.finish m false fatal
  | _ => s

/-- The two checks of an ack; neither resets the stream. -/
def recv (s : Upload) : Upload :=
  match s.phase with
  | .awaiting k m =>
    match (s.handler k).acks[s.read k]? with
    | none => s
    | some ack =>
      let s := { s with read := Function.update s.read k (s.read k + 1) }
      if ack.code ≠ 0 then s.finish m false false
      else if ack.batchSeq ≠ 0 ∧ ack.batchSeq ≠ m.payload.batchSeq then s.finish m false false
      else s.finish m true false
  | _ => s

def recvFails (s : Upload) (fatal : Bool) : Upload :=
  match s.phase with
  | .awaiting _ m => s.resetMetricStream.finish m false fatal
  | _ => s

def take (s : Upload) (k : ℕ) : Upload :=
  match (s.handler k).stage, (s.sentOn k)[(s.handler k).taken]? with
  | .receiving, some m =>
    (s.setHandler k { s.handler k with
      stage := .processing m, taken := (s.handler k).taken + 1 }).record (.received k m)
  | _, _ => s

section Server
variable (u : Unicode) (store : Store)

/-- `processMetricBatch` up to the commit of `ReportMetrics`. -/
def process (s : Upload) (k : ℕ) (d : Draws) (now : Time) : Upload :=
  match (s.handler k).stage with
  | .processing m =>
    match validateMetricBatch u m.request with
    | .error _ => s.endHandler k
    | .ok () =>
      let digest := digestFromMetricBatch m.request
      match (store.reportMetrics d m.request digest now).transact s.db with
      | (.error _, _) => s.endHandler k
      | (.ok snapshot, db) =>
        { (s.setHandler k { s.handler k with
            stage := .recorded m (metricEffects m.request digest now snapshot) }).record
              (.committed k m ⟨d, now, s.db, snapshot, db⟩) with db := db }
  | _ => s

/-- The next effect of `processMetricBatch` succeeds. -/
def perform (s : Upload) (k : ℕ) : Upload :=
  match (s.handler k).stage with
  | .recorded m (effect :: rest) =>
    (s.setHandler k { s.handler k with stage := .recorded m rest }).record (.performed k effect)
  | _ => s

def sendAck (s : Upload) (k : ℕ) (m : Message) (stage : Stage) : Upload :=
  let ack : MetricBatchAck := { message := "metrics accepted", batchSeq := m.request.batchSeq }
  (s.setHandler k { s.handler k with
    stage := stage, acks := (s.handler k).acks ++ [ack] }).record (.acked k ack.batchSeq)

def ack (s : Upload) (k : ℕ) : Upload :=
  match (s.handler k).stage with
  | .recorded m [] => s.sendAck k m .receiving
  | _ => s

def ackFails (s : Upload) (k : ℕ) (delivered : Bool) : Upload :=
  match (s.handler k).stage with
  | .recorded m [] => if delivered then s.sendAck k m .ended else s.endHandler k
  | _ => s

/-- A failed `Recv`, a cancelled statement or an effect that cannot be performed. -/
def handlerFails (s : Upload) (k : ℕ) : Upload :=
  match (s.handler k).stage with
  | .ended => s
  | _ => s.endHandler k

def step (s : Upload) : Step → Upload
  | .env db => { s with db := db }
  | .cycle now uptime metrics => s.cycle now uptime metrics
  | .openStream => s.openStream
  | .openFails fatal => s.openFails fatal
  | .send => s.send
  | .sendFails delivered fatal => s.sendFails delivered fatal
  | .recv => s.recv
  | .recvFails fatal => s.recvFails fatal
  | .take k => s.take k
  | .process k d now => s.process u store k d now
  | .perform k => s.perform k
  | .ack k => s.ack k
  | .ackFails k delivered => s.ackFails k delivered
  | .handlerFails k => s.handlerFails k

def run (s : Upload) (steps : List Step) : Upload := steps.foldl (step u store) s

end Server

def commits (history : List Act) : List Message :=
  history.filterMap fun
    | .committed _ m _ => some m
    | _ => none

def receivedOn (k : ℕ) (history : List Act) : List Message :=
  (history.filterMap fun
    | .received j m => if j = k then some m else none
    | _ => none).reverse

def ackedOn (k : ℕ) (history : List Act) : List Int64 :=
  (history.filterMap fun
    | .acked j seq => if j = k then some seq else none
    | _ => none).reverse

end Upload
end Gaoming
