import Gaoming.RelationalTable
import Gaoming.TransactionProgram
import Gaoming.Contracts

/-!
# The PostgreSQL database

The tables of `deployments/sql/init.sql` that the host store, the share store, the
account store and the operations read or write, with the columns they use. Serial ids are
positive, so a GORM struct condition on an id is never dropped as a zero value. The JSON
columns hold the list they encode, and the state columns the code they number.
-/

namespace Gaoming
open Relational Transaction

abbrev Serial := ℕ+

instance (n : ℕ) : OfNat Serial (n + 1) := ⟨n.succPNat⟩

structure TenantRow where
  id : Serial
  tenantCode : String
  name : String
  status : ℤ
  createdAt : Time
  updatedAt : Time
  deriving DecidableEq

structure HostRow where
  id : Serial
  tenantID : Serial
  hostUID : String
  hostname : String
  primaryIP : String
  osType : String
  arch : String
  region : String
  az : Option String
  env : Option String
  role : Option String
  status : Code
  registeredAt : Time
  lastRegisterAt : Time
  updatedAt : Time
  deriving DecidableEq

structure HostLabelRow where
  hostID : Serial
  labelKey : String
  labelValue : String
  deriving DecidableEq

def HostLabelRow.key (r : HostLabelRow) : Serial × String := (r.hostID, r.labelKey)

structure AgentInstanceRow where
  id : Serial
  hostID : Serial
  agentID : String
  version : String
  state : Code
  configVersion : Int64
  heartbeatIntervalSec : Int64
  metricIntervalSec : Int64
  lastSeenAt : Option Time
  lastSeq : Int64
  capabilities : List String
  updatedAt : Time
  deriving DecidableEq

structure HostStatusRow extends SummaryMetrics where
  hostID : Serial
  agentState : Code
  reachabilityState : Code
  serviceState : Code
  overallState : Code
  lastAgentSeenAt : Option Time := none
  lastMetricAt : Option Time := none
  lastProbeAt : Option Time := none
  openAlertCount : Int64 := 0
  version : Int64
  updatedAt : Time := 0
  deriving DecidableEq

structure UserRow where
  id : Serial
  tenantID : Serial
  displayName : String := ""
  avatarURL : Option String := none
  role : String
  status : String
  lastLoginAt : Option Time := none
  createdAt : Time := 0
  updatedAt : Time := 0
  deriving DecidableEq

structure UserIdentityRow where
  id : Serial
  userID : Serial
  provider : String
  providerUserID : String
  deriving DecidableEq

structure UserSessionRow where
  id : Serial
  userID : Serial
  tokenHash : String
  expiresAt : Time
  lastSeenAt : Option Time
  lastSeenIP : Option String
  userAgent : Option String
  createdAt : Time
  updatedAt : Time
  deriving DecidableEq

structure UserPasswordRow where
  userID : Serial
  tenantID : Serial
  username : String
  passwordHash : String
  deriving DecidableEq

structure HostGroupRow where
  id : Serial
  tenantID : Serial
  groupCode : String
  deriving DecidableEq

structure AlertEventRow where
  id : Serial
  tenantID : Serial
  fingerprint : String
  ackedBy : Option String := none
  ackedAt : Option Time := none
  deriving DecidableEq

structure MaintenanceWindowRow where
  id : Serial
  tenantID : Serial
  title : String
  scopeType : String
  scopeRef : String
  startAt : Time
  endAt : Time
  createdBy : String
  reason : Option String
  enabled : Bool
  deriving DecidableEq

structure AccessShareRow where
  id : String
  tenantID : Serial
  title : String
  tokenHash : String
  fields : List String
  expiresAt : Time
  createdBy : Serial
  createdAt : Time
  revokedAt : Option Time := none
  deriving DecidableEq

structure AccessShareHostRow where
  shareID : String
  tenantID : Serial
  hostUID : String
  deriving DecidableEq

def AccessShareHostRow.key (r : AccessShareHostRow) : String × String := (r.shareID, r.hostUID)

structure AccessShareSessionRow where
  tokenHash : String
  shareID : String
  expiresAt : Time
  createdAt : Time
  deriving DecidableEq

structure AuditLogRow where
  tenantID : Serial
  actor : String
  action : String
  resourceType : String
  resourceID : String
  success : Bool
  createdAt : Time
  deriving DecidableEq

structure Database where
  tenants : Table TenantRow.id := .empty
  hosts : Table HostRow.id := .empty
  hostLabels : Table HostLabelRow.key := .empty
  agentInstances : Table AgentInstanceRow.id := .empty
  hostStatusCurrent : Table HostStatusRow.hostID := .empty
  users : Table UserRow.id := .empty
  userIdentities : Table UserIdentityRow.id := .empty
  userSessions : Table UserSessionRow.id := .empty
  userPasswords : Table UserPasswordRow.userID := .empty
  /-- The single row that the check `id = 1` allows. -/
  authBootstrapState : Option Time := none
  hostGroups : Table HostGroupRow.id := .empty
  alertEvents : Table AlertEventRow.id := .empty
  maintenanceWindows : Table MaintenanceWindowRow.id := .empty
  accessShares : Table AccessShareRow.id := .empty
  accessShareHosts : Table AccessShareHostRow.key := .empty
  accessShareSessions : Table AccessShareSessionRow.tokenHash := .empty
  auditLogs : List AuditLogRow := []
  deriving DecidableEq

/-- What one statement does to one row. Inserts lock the unique keys they take;
`readHostStatus` and `readUser` record a plain read that a later write is computed
from. `lockUsers` is the lock on the table, `advisory` the lock of
`pg_advisory_xact_lock`. -/
inductive Access
  | putTenant (r : TenantRow)
  | lockTenant (id : Serial) (m : Mode)
  | lockTenantCode (code : String)
  | putHost (r : HostRow)
  | lockHostUID (hostUID : String)
  | putHostLabel (r : HostLabelRow)
  | eraseHostLabel (k : Serial × String)
  | putAgentInstance (r : AgentInstanceRow)
  | lockAgentID (hostID : Serial) (agentID : String)
  | readHostStatus (hostID : Serial)
  | putHostStatus (r : HostStatusRow)
  | lockUser (id : Serial) (m : Mode)
  | lockUsers (m : Mode)
  | readUser (id : Serial)
  | putUser (r : UserRow)
  | putUserSession (r : UserSessionRow)
  | lockSessionToken (hash : String)
  | putUserPassword (r : UserPasswordRow)
  | lockUsername (tenantID : Serial) (username : String)
  | putBootstrapState (completedAt : Time)
  | advisory (key : ℤ)
  | lockAlertEvent (id : Serial) (m : Mode)
  | putAlertEvent (r : AlertEventRow)
  | putMaintenanceWindow (r : MaintenanceWindowRow)
  | putShare (r : AccessShareRow)
  | lockShare (id : String) (m : Mode)
  | lockShareToken (hash : String)
  | putShareHost (r : AccessShareHostRow)
  | putShareSession (r : AccessShareSessionRow)
  | eraseShareSession (hash : String)
  | insertAuditLog (r : AuditLogRow)

inductive Key
  | tenant (id : Serial)
  | tenantCode (code : String)
  | host (id : Serial)
  | hostUID (hostUID : String)
  | hostLabel (k : Serial × String)
  | agentInstance (id : Serial)
  | agentID (hostID : Serial) (agentID : String)
  | hostStatus (hostID : Serial)
  | user (id : Serial)
  | users
  | userSession (id : Serial)
  | sessionToken (hash : String)
  | userPassword (userID : Serial)
  | username (tenantID : Serial) (username : String)
  | bootstrapState
  | advisory (key : ℤ)
  | alertEvent (id : Serial)
  | maintenanceWindow (id : Serial)
  | share (id : String)
  | shareToken (hash : String)
  | shareHost (k : String × String)
  | shareSession (hash : String)
  | auditLog
  deriving DecidableEq

def Access.key : Access → Key
  | .putTenant r => .tenant r.id
  | .lockTenant id _ => .tenant id
  | .lockTenantCode code => .tenantCode code
  | .putHost r => .host r.id
  | .lockHostUID hostUID => .hostUID hostUID
  | .putHostLabel r => .hostLabel r.key
  | .eraseHostLabel k => .hostLabel k
  | .putAgentInstance r => .agentInstance r.id
  | .lockAgentID hostID agentID => .agentID hostID agentID
  | .readHostStatus hostID => .hostStatus hostID
  | .putHostStatus r => .hostStatus r.hostID
  | .lockUser id _ => .user id
  | .lockUsers _ => .users
  | .readUser id => .user id
  | .putUser r => .user r.id
  | .putUserSession r => .userSession r.id
  | .lockSessionToken hash => .sessionToken hash
  | .putUserPassword r => .userPassword r.userID
  | .lockUsername tenantID username => .username tenantID username
  | .putBootstrapState _ => .bootstrapState
  | .advisory key => .advisory key
  | .lockAlertEvent id _ => .alertEvent id
  | .putAlertEvent r => .alertEvent r.id
  | .putMaintenanceWindow r => .maintenanceWindow r.id
  | .putShare r => .share r.id
  | .lockShare id _ => .share id
  | .lockShareToken hash => .shareToken hash
  | .putShareHost r => .shareHost r.key
  | .putShareSession r => .shareSession r.tokenHash
  | .eraseShareSession hash => .shareSession hash
  | .insertAuditLog _ => .auditLog

def Access.mode : Access → Mode
  | .lockTenant _ m => m
  | .lockUser _ m => m
  | .lockUsers m => m
  | .lockAlertEvent _ m => m
  | .lockShare _ m => m
  | .readHostStatus _ => .unlocked
  | .readUser _ => .unlocked
  | .insertAuditLog _ => .unlocked
  | _ => .exclusive

@[simp] def Database.apply (db : Database) : Access → Database
  | .putTenant r => { db with tenants := db.tenants.put r }
  | .putHost r => { db with hosts := db.hosts.put r }
  | .putHostLabel r => { db with hostLabels := db.hostLabels.put r }
  | .eraseHostLabel k => { db with hostLabels := db.hostLabels.erase k }
  | .putAgentInstance r => { db with agentInstances := db.agentInstances.put r }
  | .putHostStatus r => { db with hostStatusCurrent := db.hostStatusCurrent.put r }
  | .putUser r => { db with users := db.users.put r }
  | .putUserSession r => { db with userSessions := db.userSessions.put r }
  | .putUserPassword r => { db with userPasswords := db.userPasswords.put r }
  | .putBootstrapState t => { db with authBootstrapState := some t }
  | .putAlertEvent r => { db with alertEvents := db.alertEvents.put r }
  | .putMaintenanceWindow r => { db with maintenanceWindows := db.maintenanceWindows.put r }
  | .putShare r => { db with accessShares := db.accessShares.put r }
  | .putShareHost r => { db with accessShareHosts := db.accessShareHosts.put r }
  | .putShareSession r => { db with accessShareSessions := db.accessShareSessions.put r }
  | .eraseShareSession hash =>
    { db with accessShareSessions := db.accessShareSessions.erase hash }
  | .insertAuditLog r => { db with auditLogs := db.auditLogs ++ [r] }
  | .lockTenant _ _ | .lockTenantCode _ | .lockHostUID _ | .lockAgentID _ _
  | .readHostStatus _ | .lockUser _ _ | .lockUsers _ | .readUser _ | .lockSessionToken _
  | .lockUsername _ _ | .advisory _ | .lockAlertEvent _ _ | .lockShare _ _ | .lockShareToken _ => db

instance : Storage Database Access Key where
  apply := Database.apply
  key := Access.key
  mode := Access.mode

@[simp] theorem storage_apply (db : Database) (a : Access) : Storage.apply db a = db.apply a := rfl

-- What a column makes of the value it is given: `none` refuses the statement.

def hasNul (s : String) : Bool := s.toList.any (·.toNat == 0)

/-- An overlong text is refused unless the excess is blanks, which are cut off. -/
def varchar (n : ℕ) (s : String) : Option String :=
  if hasNul s then none
  else if s.length ≤ n then some s
  else if (s.toList.drop n).all (· == ' ') then some (String.ofList (s.toList.take n))
  else none

def varcharNull (n : ℕ) : Option String → Option (Option String)
  | none => some none
  | some s => (varchar n s).map some

def jsonb (l : List String) : Option (List String) := if l.any hasNul then none else some l

/-- Microseconds are kept. -/
def timestamptz (t : Time) : Time := t - t % 1000

theorem timestamptz_le (t : Time) : timestamptz t ≤ t :=
  sub_le_self t (Int.emod_nonneg t (by decide))

/-- The column types whose conversions are left open: `inet`, and `numeric(p, s)`
with its rounding and its overflow. -/
structure Columns where
  inet : String → Option String
  numeric : ℕ → ℕ → Float → Option Float

def TenantRow.stored (r : TenantRow) : Option TenantRow := do
  let tenantCode ← varchar 64 r.tenantCode
  let name ← varchar 128 r.name
  return { r with
    tenantCode := tenantCode, name := name
    createdAt := timestamptz r.createdAt, updatedAt := timestamptz r.updatedAt }

def HostRow.stored (cols : Columns) (r : HostRow) : Option HostRow := do
  let hostUID ← varchar 64 r.hostUID
  let hostname ← varchar 128 r.hostname
  let primaryIP ← cols.inet r.primaryIP
  let osType ← varchar 32 r.osType
  let arch ← varchar 32 r.arch
  let region ← varchar 32 r.region
  let az ← varcharNull 32 r.az
  let env ← varcharNull 32 r.env
  let role ← varcharNull 64 r.role
  return { r with
    hostUID := hostUID, hostname := hostname, primaryIP := primaryIP, osType := osType
    arch := arch, region := region, az := az, env := env, role := role
    registeredAt := timestamptz r.registeredAt
    lastRegisterAt := timestamptz r.lastRegisterAt, updatedAt := timestamptz r.updatedAt }

def HostLabelRow.stored (r : HostLabelRow) : Option HostLabelRow := do
  let labelKey ← varchar 64 r.labelKey
  let labelValue ← varchar 256 r.labelValue
  return { r with labelKey := labelKey, labelValue := labelValue }

def AgentInstanceRow.stored (r : AgentInstanceRow) : Option AgentInstanceRow := do
  let agentID ← varchar 64 r.agentID
  let version ← varchar 32 r.version
  let capabilities ← jsonb r.capabilities
  return { r with
    agentID := agentID, version := version, capabilities := capabilities
    lastSeenAt := r.lastSeenAt.map timestamptz, updatedAt := timestamptz r.updatedAt }

def SummaryMetrics.stored (cols : Columns) (m : SummaryMetrics) : Option SummaryMetrics := do
  let cpuUsagePct ← cols.numeric 6 2 m.cpuUsagePct
  let memUsedPct ← cols.numeric 6 2 m.memUsedPct
  let swapUsedPct ← cols.numeric 6 2 m.swapUsedPct
  let diskUsedPct ← cols.numeric 6 2 m.diskUsedPct
  let diskInodesUsedPct ← cols.numeric 6 2 m.diskInodesUsedPct
  let load1 ← cols.numeric 8 2 m.load1
  return { m with
    cpuUsagePct := cpuUsagePct, memUsedPct := memUsedPct, swapUsedPct := swapUsedPct
    diskUsedPct := diskUsedPct, diskInodesUsedPct := diskInodesUsedPct, load1 := load1 }

def HostStatusRow.stored (cols : Columns) (r : HostStatusRow) : Option HostStatusRow := do
  let metrics ← r.toSummaryMetrics.stored cols
  return { r with
    toSummaryMetrics := metrics
    lastAgentSeenAt := r.lastAgentSeenAt.map timestamptz
    lastMetricAt := r.lastMetricAt.map timestamptz
    lastProbeAt := r.lastProbeAt.map timestamptz, updatedAt := timestamptz r.updatedAt }

end Gaoming
