import Gaoming.Database

/-!
# The PostgreSQL host store

`pkg/hostruntime/repository/postgres/store.go`, statement by statement. Of GORM
it is used here that a struct condition drops fields with a zero value, that
`FirstOrCreate` with `Assign` writes the assigned values to a row it finds, that
`Save` updates all columns (inserting when there is no row) and sets
`updated_at` from GORM's own clock, that `Not` of a struct excludes each of its
values, and that `Preload` is a separate `SELECT`. Row deletions, connection
failures and the columns no function here reads are not modelled.
-/

namespace Gaoming
open Relational Transaction

inductive StoreError
  | hostNotFound
  | tenantNotFound
  | database
  deriving DecidableEq, Repr

abbrev StoreTx := Tx Database Access StoreError

/-- `Store`; `columns` stands for the database handle. -/
structure Store where
  columns : Columns
  defaultTenantID : Serial
  allowCustomTenantCode : Bool

/-- What a call draws from outside: the serial numbers of the rows it may insert,
the random parts of `ids.New`, and GORM's clock. -/
structure Draws where
  tenantID : Serial
  hostID : Serial
  agentInstanceID : Serial
  hostSuffix : String
  tenantSuffix : String
  clock : Time
  deriving DecidableEq

/-- `ids.New`. -/
def idsNew (kind suffix : String) : String := kind ++ "-" ++ suffix

/-- A string field of a GORM struct condition. -/
def zeroOrEq (condition value : String) : Bool := condition = "" || condition = value

def defaultHeartbeatIntervalSec : Int64 := 1
def defaultMetricIntervalSec : Int64 := 1
def defaultConfigVersion : Int64 := 1

namespace Database

/-- `Where(&hostModel{HostUID: hostUID}).Order("id")`, first row. -/
def hostByUID (db : Database) (hostUID : String) : Option HostRow :=
  db.hosts.first HostRow.id fun h => zeroOrEq hostUID h.hostUID

/-- `Where(&tenantModel{TenantCode: tenantCode}).Order("id")`, first row. -/
def tenantByCode (db : Database) (tenantCode : String) : Option TenantRow :=
  db.tenants.first TenantRow.id fun t => zeroOrEq tenantCode t.tenantCode

end Database

/-- A `SELECT` with these texts as parameters; PostgreSQL takes no text with a NUL in it. -/
def queryText {α : Type} (params : List String) (f : Database → α) : StoreTx α :=
  Tx.exec fun db => if params.any hasNul then .error .database else .ok (f db, [])

/-- `INSERT` of a row as its columns keep it. -/
def insertRow {R : Type} (row : Option R) (refused : Database → R → Bool)
    (write : R → List Access) : StoreTx Unit :=
  Tx.exec fun db =>
    match row with
    | none => .error .database
    | some r => if refused db r then .error .database else .ok ((), write r)

/-- GORM's `Save`: `UPDATE`, and `INSERT ... ON CONFLICT DO UPDATE` when no row was there. -/
def saveRow {R : Type} (row : Option R) (found refused : Database → R → Bool)
    (write : R → List Access) : StoreTx Unit := do
  let updated ← Tx.exec fun db =>
    match row with
    | none => .error .database
    | some r =>
      if found db r then
        if refused db r then .error .database else .ok (true, write r)
      else .ok (false, [])
  if updated then return () else insertRow row refused write

def insertTenant (r : TenantRow) : StoreTx Unit :=
  insertRow r.stored
    (fun db r => db.tenants.rows.any fun t => t.id = r.id || t.tenantCode = r.tenantCode)
    fun r => [.lockTenantCode r.tenantCode, .putTenant r]

/-- The unique `host_uid` and the foreign key to `tenants`. -/
def hostRefused (db : Database) (r : HostRow) : Bool :=
  (db.hosts.rows.any fun h => h.id ≠ r.id && h.hostUID = r.hostUID) ||
    (db.tenants.get? r.tenantID).isNone

def insertHost (cols : Columns) (r : HostRow) : StoreTx Unit :=
  insertRow (r.stored cols) (fun db r => (db.hosts.get? r.id).isSome || hostRefused db r)
    fun r => [.lockHostUID r.hostUID, .putHost r]

def saveHost (cols : Columns) (r : HostRow) : StoreTx Unit :=
  saveRow (r.stored cols) (fun db r => (db.hosts.get? r.id).isSome) hostRefused
    fun r => [.putHost r]

/-- The unique `(host_id, agent_id)` and the foreign key to `hosts`. -/
def agentInstanceRefused (db : Database) (r : AgentInstanceRow) : Bool :=
  (db.agentInstances.rows.any fun a =>
    a.id ≠ r.id && a.hostID = r.hostID && a.agentID = r.agentID) ||
    (db.hosts.get? r.hostID).isNone

def insertAgentInstance (r : AgentInstanceRow) : StoreTx Unit :=
  insertRow r.stored
    (fun db r => (db.agentInstances.get? r.id).isSome || agentInstanceRefused db r)
    fun r => [.lockAgentID r.hostID r.agentID, .putAgentInstance r]

def saveAgentInstance (r : AgentInstanceRow) : StoreTx Unit :=
  saveRow r.stored (fun db r => (db.agentInstances.get? r.id).isSome) agentInstanceRefused
    fun r => [.putAgentInstance r]

def hostStatusRefused (db : Database) (r : HostStatusRow) : Bool := (db.hosts.get? r.hostID).isNone

def insertHostStatus (cols : Columns) (r : HostStatusRow) : StoreTx Unit :=
  insertRow (r.stored cols)
    (fun db r => (db.hostStatusCurrent.get? r.hostID).isSome || hostStatusRefused db r)
    fun r => [.putHostStatus r]

def saveHostStatus (cols : Columns) (r : HostStatusRow) : StoreTx Unit :=
  saveRow (r.stored cols) (fun db r => (db.hostStatusCurrent.get? r.hostID).isSome)
    hostStatusRefused fun r => [.putHostStatus r]

def insertHostLabels (rows : List HostLabelRow) : StoreTx Unit :=
  insertRow (rows.mapM HostLabelRow.stored)
    (fun db rows => rows.any (fun r => (db.hostLabels.get? r.key).isSome ||
        (db.hosts.get? r.hostID).isNone) || !decide (rows.map HostLabelRow.key).Nodup)
    fun rows => rows.map .putHostLabel

/-- The `UPDATE` of `FirstOrCreate`: the assigned columns of the row that was found. -/
def assignTenant (id : Serial) (tenantCode tenantName : String) (clock : Time) : StoreTx Unit :=
  Tx.exec fun db =>
    match db.tenants.get? id with
    | none => .ok ((), [])
    | some t =>
      if zeroOrEq tenantCode t.tenantCode then
        match varchar 128 tenantName with
        | none => .error .database
        | some name =>
          .ok ((), [.putTenant { t with
            name := name, status := 1, updatedAt := timestamptz clock }])
      else .ok ((), [])

def ensureTenant (d : Draws) (tenantCode tenantName : String) : StoreTx TenantRow := do
  match ← queryText [tenantCode] fun db => db.tenantByCode tenantCode with
  | none =>
    let tenant : TenantRow :=
      ⟨d.tenantID, tenantCode, tenantName, 1, d.clock, d.clock⟩
    insertTenant tenant
    return tenant
  | some tenant =>
    assignTenant tenant.id tenantCode tenantName d.clock
    return { tenant with name := tenantName, status := 1, updatedAt := d.clock }

def lookupTenantCodeByHostUID (hostUID : String) : StoreTx String := do
  match ← queryText [hostUID] fun db => db.hostByUID hostUID with
  | none => return ""
  | some host =>
    let tenant ← Tx.query fun db => db.tenants.get? host.tenantID
    return (tenant.map TenantRow.tenantCode).getD ""

namespace Store

/-- The code a request falls back to when its host is not known yet. -/
def requestedTenantCode (s : Store) (existing tenantCode : String) : String :=
  if existing ≠ "" then existing
  else if s.allowCustomTenantCode then tenantCode
  else ""

def resolveTenantForRegister (s : Store) (d : Draws) (hostUID tenantCode : String) :
    StoreTx (Serial × String) := do
  let existing ← lookupTenantCodeByHostUID hostUID
  let requested := s.requestedTenantCode existing tenantCode
  let tenantCode := if requested = "" then idsNew "tenant" d.tenantSuffix else requested
  let tenant ← ensureTenant d tenantCode tenantCode
  return (tenant.id, tenantCode)

def resolveTenantForMetric (s : Store) (hostUID tenantCode : String) :
    StoreTx (Serial × String) := do
  let existing ← lookupTenantCodeByHostUID hostUID
  let tenantCode := trimSpace (s.requestedTenantCode existing tenantCode)
  if tenantCode = "" then throw .tenantNotFound
  else
    match ← queryText [tenantCode] fun db => db.tenantByCode tenantCode with
    | none => throw .tenantNotFound
    | some tenant => return (tenant.id, tenant.tenantCode)

def upsertHost (s : Store) (d : Draws) (tenantID : Serial) (hostUID : String)
    (req : RegisterAgentRequest) (now : Time) : StoreTx Serial := do
  match ← queryText [hostUID] fun db => db.hostByUID hostUID with
  | none =>
    insertHost s.columns {
      id := d.hostID, tenantID := tenantID, hostUID := hostUID
      hostname := req.host.hostname, primaryIP := req.host.primaryIP
      osType := req.host.osType, arch := req.host.arch, region := req.host.region
      az := emptyStringPtr req.host.az, env := emptyStringPtr req.host.env
      role := emptyStringPtr req.host.role, status := .up
      registeredAt := now, lastRegisterAt := now, updatedAt := now }
    return d.hostID
  | some host =>
    saveHost s.columns { host with
      tenantID := tenantID
      hostname := req.host.hostname, primaryIP := req.host.primaryIP
      osType := req.host.osType, arch := req.host.arch, region := req.host.region
      az := emptyStringPtr req.host.az, env := emptyStringPtr req.host.env
      role := emptyStringPtr req.host.role, status := .up
      lastRegisterAt := now, updatedAt := d.clock }
    return host.id

end Store

def replaceLabels (hostID : Serial) (labels : StringMap) : StoreTx Unit := do
  Tx.exec fun db => .ok ((),
    (db.hostLabels.select fun l => l.hostID = hostID).map fun l => .eraseHostLabel l.key)
  if labels.isEmpty then return ()
  else insertHostLabels (labels.toList.map fun kv => ⟨hostID, kv.1, kv.2⟩)

def findAgentInstance (hostID : Serial) (agentID : String) : StoreTx (Option AgentInstanceRow) :=
  queryText [agentID] fun db => db.agentInstances.first AgentInstanceRow.id fun a =>
    a.hostID = hostID && zeroOrEq agentID a.agentID

def upsertAgentInstance (d : Draws) (hostID : Serial) (req : RegisterAgentRequest) (now : Time) :
    StoreTx AgentConfig := do
  let cfg : AgentConfig := {
    configVersion := defaultConfigVersion
    heartbeatIntervalSec := defaultHeartbeatIntervalSec
    metricIntervalSec := defaultMetricIntervalSec
    staticLabels := req.host.labels }
  match ← findAgentInstance hostID req.agent.agentID with
  | none =>
    insertAgentInstance {
      id := d.agentInstanceID, hostID := hostID, agentID := req.agent.agentID
      version := req.agent.version, state := .up, configVersion := cfg.configVersion
      heartbeatIntervalSec := cfg.heartbeatIntervalSec
      metricIntervalSec := cfg.metricIntervalSec, lastSeenAt := some now, lastSeq := 0
      capabilities := req.agent.capabilities, updatedAt := now }
    return cfg
  | some agent =>
    saveAgentInstance { agent with
      version := req.agent.version, state := .up, configVersion := cfg.configVersion
      heartbeatIntervalSec := cfg.heartbeatIntervalSec
      metricIntervalSec := cfg.metricIntervalSec, lastSeenAt := some now
      capabilities := req.agent.capabilities, updatedAt := d.clock }
    return cfg

/-- The read that a status row's next version is computed from. -/
def findHostStatus (hostID : Serial) : StoreTx (Option HostStatusRow) :=
  Tx.exec fun db => .ok (db.hostStatusCurrent.get? hostID, [.readHostStatus hostID])

namespace Store

def upsertRegisteredStatus (s : Store) (d : Draws) (hostID : Serial) (now : Time) :
    StoreTx Unit := do
  match ← findHostStatus hostID with
  | none =>
    insertHostStatus s.columns {
      hostID := hostID, agentState := .up, reachabilityState := .unknown
      serviceState := .unknown, overallState := .up, lastAgentSeenAt := some now
      version := 1, updatedAt := now }
  | some statusRow =>
    saveHostStatus s.columns { statusRow with
      agentState := .up, overallState := .up, lastAgentSeenAt := some now
      version := statusRow.version + 1, updatedAt := d.clock }

def findHostByUID (s : Store) (hostUID : String) (limitToDefaultTenant : Bool) :
    StoreTx (Option HostRow) :=
  queryText [hostUID] fun db => db.hosts.first HostRow.id fun h =>
    zeroOrEq hostUID h.hostUID && (!limitToDefaultTenant || h.tenantID = s.defaultTenantID)

end Store

def findAgentConfig (hostID : Serial) (agentID : String) : StoreTx (Option AgentConfig) := do
  match ← findAgentInstance hostID agentID with
  | none => return none
  | some agent =>
    return some ⟨agent.configVersion, agent.heartbeatIntervalSec, agent.metricIntervalSec, ∅⟩

namespace Store

def lookupAgentInTenants (s : Store) (hostUID agentID : String) (limitToDefaultTenant : Bool) :
    StoreTx (Option (Serial × AgentConfig)) := do
  match ← s.findHostByUID hostUID limitToDefaultTenant with
  | none => return none
  | some host =>
    let cfg ← findAgentConfig host.id agentID
    return cfg.map fun cfg => (host.id, cfg)

/-- `none` is `ErrHostNotFound`, which `ReportMetrics` handles and `Heartbeat` returns. The
source passes over an error of the first host look-up, but PostgreSQL has then given the
transaction up, and the second look-up fails. -/
def lookupAgentInstance (s : Store) (hostUID agentID : String) :
    StoreTx (Option (Serial × AgentConfig)) := do
  match ← s.lookupAgentInTenants hostUID agentID true with
  | some found => return some found
  | none => s.lookupAgentInTenants hostUID agentID false

end Store

def updateAgentInstanceState (hostID : Serial) (agentID : String) (seq : Int64) (now : Time) :
    StoreTx Unit :=
  Tx.exec fun db =>
    if hasNul agentID then .error .database
    else .ok ((),
      (db.agentInstances.select fun a => a.hostID = hostID && zeroOrEq agentID a.agentID).map
        fun a => .putAgentInstance { a with
          state := .up, lastSeenAt := some (timestamptz now), lastSeq := seq
          updatedAt := timestamptz now })

/-- The row `upsertDigestStatus` starts from when there is none. -/
def HostStatusRow.initial (hostID : Serial) : HostStatusRow where
  hostID := hostID
  agentState := .up
  reachabilityState := .unknown
  serviceState := .unknown
  overallState := .up
  version := 1

namespace Store

def upsertDigestStatus (s : Store) (d : Draws) (hostID : Serial) (digest : AgentDigest)
    (now : Time) : StoreTx Unit := do
  let found ← findHostStatus hostID
  let statusRow : HostStatusRow := { found.getD (.initial hostID) with
    agentState := .up, overallState := .up, toSummaryMetrics := digest.toSummaryMetrics
    lastAgentSeenAt := some now, lastMetricAt := some now, updatedAt := now }
  if statusRow.version = 0 then insertHostStatus s.columns { statusRow with version := 1 }
  else saveHostStatus s.columns { statusRow with
    version := statusRow.version + 1, updatedAt := d.clock }

end Store

def hostSnapshotFromModel (host : HostRow) (tenant : Option TenantRow)
    (status : Option HostStatusRow) (labels : List HostLabelRow) : HostSnapshot :=
  let item : HostSnapshot := {
    hostUID := host.hostUID, tenantCode := (tenant.map TenantRow.tenantCode).getD ""
    hostname := host.hostname, primaryIP := host.primaryIP
    labels := Std.ExtTreeMap.ofList (labels.map fun l => (l.labelKey, l.labelValue)) }
  match status with
  | none => item
  | some row => { item with
      agentState := row.agentState, reachabilityState := row.reachabilityState
      serviceState := row.serviceState, overallState := row.overallState
      toSummaryMetrics := row.toSummaryMetrics
      openAlertCount := row.openAlertCount, version := row.version
      lastAgentSeenAt := row.lastAgentSeenAt.getD 0, lastMetricAt := row.lastMetricAt.getD 0
      lastProbeAt := row.lastProbeAt.getD 0 }

def listHosts (hostUID tenantCode : String) : StoreTx (List HostSnapshot) := do
  let hosts ← Tx.query fun db =>
    (db.hosts.select fun h => zeroOrEq hostUID h.hostUID &&
      (tenantCode = "" || db.tenants.rows.any fun t =>
        t.id = h.tenantID && t.tenantCode = tenantCode)).insertionSort
      fun g h => g.hostUID ≤ h.hostUID
  let statuses ← Tx.query Database.hostStatusCurrent
  let labels ← Tx.query Database.hostLabels
  let tenants ← Tx.query Database.tenants
  return hosts.map fun h => hostSnapshotFromModel h (tenants.get? h.tenantID)
    (statuses.get? h.id) (labels.select fun l => l.hostID = h.id)

def getHostByUID (hostUID tenantCode : String) : StoreTx (Option HostSnapshot) := do
  let items ← listHosts hostUID tenantCode
  return items.head?

/-- The read-back that ends every agent-facing transaction; an earlier statement has already
had the UID as a parameter. -/
def readBack (hostUID : String) : StoreTx HostSnapshot := do
  match ← getHostByUID hostUID "" with
  | none => throw .hostNotFound
  | some item => return item

namespace Store

structure Config where
  tenantCode : String
  tenantName : String
  allowCustomTenantCode : Bool

def new (cols : Columns) (d : Draws) (cfg : Config) : StoreTx Store := do
  let tenantCode := if cfg.tenantCode = "" then "default" else cfg.tenantCode
  let tenantName := if cfg.tenantName = "" then "Default Tenant" else cfg.tenantName
  let tenant ← ensureTenant d tenantCode tenantName
  return {
    columns := cols, defaultTenantID := tenant.id
    allowCustomTenantCode := cfg.allowCustomTenantCode }

def allocateTenant (d : Draws) : StoreTx String := do
  let tenantCode := idsNew "tenant" d.tenantSuffix
  let tenant ← ensureTenant d tenantCode tenantCode
  return tenant.tenantCode

def registerAgent (s : Store) (d : Draws) (req : RegisterAgentRequest) (now : Time) :
    StoreTx (HostSnapshot × AgentConfig × String) := do
  let hostUID := if req.host.hostUID = "" then idsNew "host" d.hostSuffix else req.host.hostUID
  let (tenantID, tenantCode) ← s.resolveTenantForRegister d hostUID req.host.tenantCode
  let hostID ← s.upsertHost d tenantID hostUID req now
  replaceLabels hostID req.host.labels
  let cfg ← upsertAgentInstance d hostID req now
  s.upsertRegisteredStatus d hostID now
  let snapshot ← readBack hostUID
  return (snapshot, cfg, tenantCode)

def heartbeat (s : Store) (d : Draws) (req : HeartbeatRequest) (now : Time) :
    StoreTx (HostSnapshot × AgentConfig) := do
  match ← s.lookupAgentInstance req.hostUID req.agentID with
  | none => throw .hostNotFound
  | some (hostID, cfg) =>
    updateAgentInstanceState hostID req.agentID req.seq now
    s.upsertDigestStatus d hostID req.digest now
    let snapshot ← readBack req.hostUID
    return (snapshot, cfg)

/-- The registration request that the first metric of an unknown agent stands for. -/
def bootstrapRequest (req : PushMetricBatchRequest) : RegisterAgentRequest where
  host := { req.host with hostUID := orElse (trimSpace req.host.hostUID) (trimSpace req.hostUID) }
  agent := { req.agent with
    agentID := orElse (trimSpace req.agent.agentID) (trimSpace req.agentID) }

def bootstrapHostForMetric (s : Store) (d : Draws) (req : PushMetricBatchRequest) (now : Time) :
    StoreTx Serial := do
  let registerReq := bootstrapRequest req
  if registerReq.host.hostUID = "" ∨ registerReq.agent.agentID = "" then throw .hostNotFound
  else
    let (tenantID, tenantCode) ←
      s.resolveTenantForMetric registerReq.host.hostUID registerReq.host.tenantCode
    let registerReq := { registerReq with
      host := { registerReq.host with tenantCode := tenantCode } }
    let hostID ← s.upsertHost d tenantID registerReq.host.hostUID registerReq now
    replaceLabels hostID registerReq.host.labels
    let _ ← upsertAgentInstance d hostID registerReq now
    s.upsertRegisteredStatus d hostID now
    return hostID

def hostForMetric (s : Store) (d : Draws) (req : PushMetricBatchRequest) (now : Time) :
    StoreTx Serial := do
  match ← s.lookupAgentInstance req.hostUID req.agentID with
  | some (hostID, _) => return hostID
  | none => s.bootstrapHostForMetric d req now

def reportMetrics (s : Store) (d : Draws) (req : PushMetricBatchRequest) (digest : AgentDigest)
    (now : Time) : StoreTx HostSnapshot := do
  let hostID ← s.hostForMetric d req now
  updateAgentInstanceState hostID req.agentID req.batchSeq now
  s.upsertDigestStatus d hostID digest now
  readBack req.hostUID

end Store

/-- Rows not seen for fifteen seconds whose agent and overall states are both not offline. -/
def isStale (now : Time) (row : HostStatusRow) : Bool :=
  (row.lastAgentSeenAt.any fun seen => seen < timestamptz (now - 15 * second)) &&
    row.agentState ≠ .offline && row.overallState ≠ .offline

/-- The candidate `SELECT`, outside any transaction. -/
def findStale (now : Time) : StoreTx (List HostStatusRow) :=
  Tx.exec fun db =>
    let rows := (db.hostStatusCurrent.select (isStale now)).insertionSort
      fun a b => a.hostID ≤ b.hostID
    .ok (rows, rows.map fun r => .readHostStatus r.hostID)

def markOffline (hostID : Serial) (version : Int64) (now : Time) : StoreTx Unit :=
  Tx.exec fun db =>
    match db.hostStatusCurrent.get? hostID with
    | none => .ok ((), [])
    | some row => .ok ((), [.putHostStatus { row with
        agentState := .offline, reachabilityState := .offline, overallState := .offline
        version := version, updatedAt := timestamptz now }])

/-- The loop over the candidates, with the host each of them was preloaded with. -/
def markEachOffline (hosts : Table HostRow.id) (now : Time) :
    List HostStatusRow → StoreTx (List HostSnapshot)
  | [] => return []
  | current :: rest => do
    markOffline current.hostID (current.version + 1) now
    let item ← getHostByUID (((hosts.get? current.hostID).map HostRow.hostUID).getD "") ""
    let changed ← markEachOffline hosts now rest
    return item.toList ++ changed

def reconcileOffline (now : Time) : StoreTx (List HostSnapshot) := do
  let statuses ← findStale now
  let hosts ← Tx.query Database.hosts
  if statuses.isEmpty then return []
  else markEachOffline hosts now statuses

/-- A call of the store, with its arguments. -/
inductive StoreCall
  | allocateTenant (d : Draws)
  | registerAgent (d : Draws) (req : RegisterAgentRequest) (now : Time)
  | heartbeat (d : Draws) (req : HeartbeatRequest) (now : Time)
  | reportMetrics (d : Draws) (req : PushMetricBatchRequest) (digest : AgentDigest) (now : Time)
  | reconcileOffline (now : Time)
  deriving DecidableEq

inductive StoreReply
  | tenant (tenantCode : String)
  | registered (snapshot : HostSnapshot) (cfg : AgentConfig) (tenantCode : String)
  | heartbeat (snapshot : HostSnapshot) (cfg : AgentConfig)
  | metrics (snapshot : HostSnapshot)
  | offline (changed : List HostSnapshot)
  deriving DecidableEq

def Store.program (s : Store) : StoreCall → StoreTx StoreReply
  | .allocateTenant d => do return .tenant (← Store.allocateTenant d)
  | .registerAgent d req now => do
    let (snapshot, cfg, tenantCode) ← s.registerAgent d req now
    return .registered snapshot cfg tenantCode
  | .heartbeat d req now => do
    let (snapshot, cfg) ← s.heartbeat d req now
    return .heartbeat snapshot cfg
  | .reportMetrics d req digest now => do return .metrics (← s.reportMetrics d req digest now)
  | .reconcileOffline now => do return .offline (← Gaoming.reconcileOffline now)

/-- A call on its own: what it returns, and the database it leaves. -/
def Store.call (s : Store) (c : StoreCall) (db : Database) :
    Except StoreError StoreReply × Database :=
  (s.program c).transact db

end Gaoming
