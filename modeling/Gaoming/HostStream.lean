import Gaoming.AccountStoreProgram
import Gaoming.ShareStoreProgram
import Gaoming.MasterRead

/-!
# The host stream as a process

`handleHostStream` statement by statement, beside a system that may change the
database, the metric window and the clock between any two of its steps. The
stream keeps a history of what it read, checked and wrote, newest first; an
attempt to write counts as written, whether or not the client gets it.
-/

namespace Gaoming
open Relational Transaction

/-- `demo` is `none` where the service holds the zero principal. -/
structure ReadService where
  sha256 : String → String
  authStore : Bool := true
  shareStore : Bool := true
  demo : Option Principal := none

/-- The values of the two cookies, empty where the request has none. -/
structure StreamRequest where
  sessionCookie : String := ""
  shareCookie : String := ""

abbrev CheckTx := Tx Database Access AccessError

namespace ReadService
variable (svc : ReadService)

/-- Unlike `TokenHash` it trims, and asks for no particular form. -/
def hashToken (rawToken : String) : String :=
  if trimSpace rawToken = "" then "" else svc.sha256 (trimSpace rawToken)

def resolveSessionUser (rawToken : String) (now : Time) :
    AccountTx (Option (User × SessionRecord)) :=
  if !svc.authStore then return none
  else if svc.hashToken rawToken = "" then return none
  else getUserBySessionTokenHash (svc.hashToken rawToken) now

def authenticateShareSession (token : String) (now : Time) : ShareTx Principal :=
  if !svc.shareStore then throw .unauthorized
  else Gaoming.authenticateShareSession svc.sha256 token now

def demoPrincipal : ShareTx Principal :=
  match svc.demo with
  | none => throw .forbidden
  | some demo =>
    if demo.kind ≠ .demo || demo.tenantCode = "" || demo.allowedHosts.isEmpty ||
        demo.fields.isEmpty then throw .forbidden
    else if !svc.shareStore then throw .forbidden
    else do
      validateDemo demo
      return demo

/-- An error of a statement is the answer `false` as well. -/
def recheckReadAccess (req : StreamRequest) (p : Principal) (now : Time) : CheckTx Bool :=
  match p.kind with
  | .user => do
    let found ← (svc.resolveSessionUser req.sessionCookie now).mapError fun _ => .database
    return found.any fun r =>
      (r.1.id : ℤ) = p.userID && r.1.tenantCode = p.tenantCode && r.1.role = p.role
  | .share => do
    let current ← svc.authenticateShareSession req.shareCookie now
    return current.shareID = p.shareID && current.tenantCode = p.tenantCode &&
      current.allowedHosts = p.allowedHosts && current.fields = p.fields
  | .demo => do
    let current ← svc.demoPrincipal
    return current = p
  | .agent | .worker => return false

end ReadService

/-- `ReadHosts` as its statements. -/
def readHostsProgram (p : Principal) : Tx Database Access ReadError (List HostSnapshot) :=
  if !validReader p then throw .unauthorized
  else do
    let items ← (listHosts "" p.tenantCode).mapError .store
    return items.filter fun item => p.allowsHost item.tenantCode item.hostUID

/-- What a frame is made from. The time of an update is taken when it arrives, before the check. -/
inductive FrameData
  | sync (items : List HostSnapshot) (histories : Option (Std.ExtTreeMap String MetricHistory))
  | update (event : HostEvent) (now : Time)

inductive Frame
  | sync (payload : SyncPayload)
  | hostUpsert (payload : UpsertPayload)
  | keepAlive

def Frame.isData : Frame → Bool
  | .sync _ | .hostUpsert _ => true
  | .keepAlive => false

/-- The frame that the handler goes on to write, if any, once the check has passed at `clock`. -/
def FrameData.frame (p : Principal) (clock : Time) : FrameData → Option Frame
  | .sync items histories => some <| .sync {
      items := projectHosts p items
      histories := histories
      latest := if p.allowsField "metrics" then latestMetricPointsByHost items else none
      serverTime := clock }
  | .update event now =>
    match event.type, event.snapshot with
    | .upsert, some snapshot =>
      if !p.allowsHost snapshot.tenantCode snapshot.hostUID then none
      else some (.hostUpsert (upsertPayload p snapshot now))
    -- Deletions carry no tenant and are dropped.
    | _, _ => none

/-- What the handler does, as far as the client or the database can tell. -/
inductive Happening
  | obtained (data : FrameData)
  | checking (now : Time)
  | statement (db : Database)
  | checked (ok : Bool)
  | wrote (frame : Frame)
  | refused (status : ℕ) (error : String)

def Happening.isFrame : Happening → Bool
  | .wrote _ => true
  | _ => false

/-- Where the handler stands, with the local variables that are still read. -/
inductive Phase : Type 1
  | readHosts (prog : Tx Database Access ReadError (List HostSnapshot))
  | readHistories (items : List HostSnapshot) (rest : List String)
      (histories : Std.ExtTreeMap String MetricHistory)
  | subscribe (data : FrameData)
  /-- Inside `recheckReadAccess`; `next` is the frame's data, or `none` for the ticker's check. -/
  | recheck (prog : CheckTx Bool) (next : Option FrameData)
  | write (frame : Frame)
  | select
  | closed

structure StreamWorld where
  db : Database
  window : MetricWindow := {}
  clock : Time := 0

structure Stream : Type 1 where
  world : StreamWorld
  phase : Phase
  history : List Happening := []

inductive StreamStep
  /-- Everything else: host events, logins and logouts, changes of users, shares and tenants,
  and time. -/
  | env (world : StreamWorld)
  | advance
  /-- The operation in progress fails: a read, a statement, the subscription or the write. -/
  | fail
  /-- `json.Marshal` refuses the payload, so there is nothing to write. -/
  | marshalError
  | ctxDone
  | recheckTick
  | update (event : HostEvent)
  | updatesClosed
  | heartbeat

namespace Stream

def start (p : Principal) (world : StreamWorld) : Stream where
  world := world
  phase := .readHosts (readHostsProgram p)

def enter (s : Stream) (phase : Phase) : Stream := { s with phase := phase }

def record (s : Stream) (h : Happening) : Stream := { s with history := h :: s.history }

def refuse (s : Stream) (status : ℕ) (error : String) : Stream :=
  (s.record (.refused status error)).enter .closed

section Handler
variable (svc : ReadService) (req : StreamRequest) (p : Principal)

def beginCheck (s : Stream) (next : Option FrameData) : Stream :=
  (s.record (.checking s.world.clock)).enter
    (.recheck (svc.recheckReadAccess req p s.world.clock) next)

/-- The first check answers the request; a later one ends the stream. -/
def endCheck (s : Stream) (ok : Bool) (next : Option FrameData) : Stream :=
  let s := s.record (.checked ok)
  match ok, next with
  | false, some (.sync _ _) => s.refuse 401 "unauthorized"
  | false, _ => s.enter .closed
  | true, none => s.enter .select
  | true, some data =>
    match data.frame p s.world.clock with
    | none => s.enter .select
    | some frame => s.enter (.write frame)

def obtain (s : Stream) (data : FrameData) : Stream :=
  (s.record (.obtained data)).enter (.subscribe data)

def advance (s : Stream) : Stream :=
  match s.phase with
  | .readHosts (.fail _) => s.refuse 500 "host state unavailable"
  | .readHosts (.done items) =>
    if p.allowsField "metrics" && !items.isEmpty then
      s.enter (.readHistories items (hostUIDsFromSnapshots items) ∅)
    else s.obtain (.sync items none)
  | .readHosts prog =>
    match prog.advance s.world.db with
    | none => s
    | some (prog, as) =>
      { s with phase := .readHosts prog, world.db := Tx.view s.world.db as }
  | .readHistories items [] histories =>
    s.obtain (.sync items (some (filterHistories histories (items.map HostSnapshot.hostUID))))
  | .readHistories items (hostUID :: rest) histories =>
    let history := s.world.window.getHostMetricHistory hostUID
    s.enter <| .readHistories items rest <|
      if history.isEmpty then histories else histories.insert hostUID history
  | .subscribe data => s.beginCheck svc req p (some data)
  | .recheck (.done ok) next => s.endCheck p ok next
  | .recheck (.fail _) next => s.endCheck p false next
  | .recheck prog next =>
    match prog.advance s.world.db with
    | none => s
    | some (prog, as) =>
      { s.record (.statement s.world.db) with
        phase := .recheck prog next, world.db := Tx.view s.world.db as }
  | .write frame => (s.record (.wrote frame)).enter .select
  | .select | .closed => s

def fail (s : Stream) : Stream :=
  match s.phase with
  | .readHosts _ => s.refuse 500 "host state unavailable"
  | .readHistories .. => s.refuse 500 "history unavailable"
  | .subscribe _ => s.refuse 500 "live updates unavailable"
  | .recheck _ next => s.enter (.recheck (.fail .database) next)
  | .write frame => (s.record (.wrote frame)).enter .closed
  | .select | .closed => s

/-- One round of the `select`. -/
def received (s : Stream) : StreamStep → Stream
  | .ctxDone | .updatesClosed => s.enter .closed
  | .recheckTick => s.beginCheck svc req p none
  | .update event =>
    let data := .update event s.world.clock
    (s.record (.obtained data)).beginCheck svc req p (some data)
  | .heartbeat => s.enter (.write .keepAlive)
  | .env _ | .advance | .fail | .marshalError => s

def step (s : Stream) : StreamStep → Stream
  | .env world => { s with world := world }
  | .advance => s.advance svc req p
  | .fail => s.fail
  | .marshalError =>
    match s.phase with
    | .write frame => if frame.isData then s.enter .select else s
    | _ => s
  | input =>
    match s.phase with
    | .select => s.received svc req p input
    | _ => s

def run (s : Stream) (steps : List StreamStep) : Stream := steps.foldl (step svc req p) s

end Handler
end Stream
end Gaoming
