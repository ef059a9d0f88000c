import Gaoming.AccountStoreProgram
import Gaoming.ShareStoreProgram
import Gaoming.TransactionInterleaving

/-!
# Operations, and the calls of the control plane

`operations.go`: maintenance windows and acknowledged alerts, each with its audit
row. They run beside the share store's administrative calls, the account store's
updates and changes of a tenant's status; all of these form one system of calls.
-/

namespace Gaoming
open Relational Transaction

/-- `strconv.ParseInt(s, 10, 64)`. -/
def parseInt (s : String) : Option ℤ :=
  let (negative, digits) : Bool × List Char :=
    match s.toList with
    | '+' :: rest => (false, rest)
    | '-' :: rest => (true, rest)
    | rest => (false, rest)
  if digits.isEmpty || !digits.all Char.isDigit then none
  else
    let n := digits.foldl (fun n c => n * 10 + (c.toNat - '0'.toNat)) 0
    if negative then if n ≤ 2 ^ 63 then some (-n) else none
    else if n < 2 ^ 63 then some n else none

/-- The join of the actor's row with its tenant, as both permission checks state it. -/
def Database.activeUser (db : Database) (p : Principal) : Option (UserRow × TenantRow) :=
  match db.users.rows.find? fun u => (u.id : ℤ) = p.userID with
  | none => none
  | some u =>
    match db.tenants.get? u.tenantID with
    | none => none
    | some t =>
      if t.tenantCode = p.tenantCode && u.status = "active" && t.status = 1 then some (u, t)
      else none

/-- `SELECT ... FOR SHARE OF users,tenants`, and the checks of the role it returns. -/
def operationTenant (p : Principal) (admin : Bool) : ShareTx Serial :=
  if !p.isUser || (admin && !p.isAdmin) then throw .forbidden
  else do
    let (tenantID, role) ← Tx.exec fun db =>
      match db.activeUser p with
      | none => .error .forbidden
      | some (u, t) =>
        .ok ((u.tenantID, u.role), [.lockUser u.id .share, .lockTenant t.id .share])
    if (role ≠ "admin" ∧ role ≠ "member") ∨ (admin = true ∧ role ≠ "admin") then throw .forbidden
    else return tenantID

def writeOperationAudit (tenantID : Serial) (p : Principal) (action resourceType id : String)
    (now : Time) : ShareTx Unit :=
  Tx.exec fun _ =>
    match varchar 128 id with
    | none => .error .database
    | some id => .ok ((), [.insertAuditLog
        ⟨tenantID, p.actor, action, resourceType, id, true, timestamptz now⟩])

structure CreateMaintenanceRequest where
  title : String
  scopeType : String
  scopeRef : String
  startAt : Time
  endAt : Time
  reason : String
  deriving DecidableEq

structure MaintenanceWindow where
  id : String
  title : String
  scopeType : String
  scopeRef : String
  startAt : Time
  endAt : Time
  createdBy : String
  reason : String
  deriving DecidableEq

/-- Whether the scope names something of the tenant; `none` is an unknown kind of scope. -/
def Database.scopeExists (db : Database) (tenantID : Serial) (p : Principal)
    (req : CreateMaintenanceRequest) : Option Bool :=
  match req.scopeType with
  | "tenant" => some (req.scopeRef = p.tenantCode)
  | "host" => some (db.hosts.rows.any fun h => h.tenantID = tenantID && h.hostUID = req.scopeRef)
  | "group" =>
    some (db.hostGroups.rows.any fun g => g.tenantID = tenantID && g.groupCode = req.scopeRef)
  | _ => none

def MaintenanceWindowRow.stored (r : MaintenanceWindowRow) : Option MaintenanceWindowRow := do
  let title ← varchar 128 r.title
  let scopeType ← varchar 32 r.scopeType
  let scopeRef ← varchar 128 r.scopeRef
  let createdBy ← varchar 64 r.createdBy
  if r.reason.any hasNul then none
  else some { r with
    title := title, scopeType := scopeType, scopeRef := scopeRef, createdBy := createdBy
    startAt := timestamptz r.startAt, endAt := timestamptz r.endAt }

def insertMaintenanceWindow (row : MaintenanceWindowRow) : ShareTx Unit :=
  Tx.exec fun db =>
    match row.stored with
    | none => .error .database
    | some r =>
      if (db.maintenanceWindows.get? r.id).isSome || (db.tenants.get? r.tenantID).isNone then
        .error .database
      else .ok ((), [.putMaintenanceWindow r])

/-- `id` is the serial number of the new row, `clock` the time of its audit row. -/
def createMaintenance (id : Serial) (clock : Time) (p : Principal)
    (req : CreateMaintenanceRequest) :
    ShareTx MaintenanceWindow := do
  let tenantID ← operationTenant p true
  let found ← Tx.query fun db => db.scopeExists tenantID p req
  if found ≠ some true then throw .notFound
  else
    insertMaintenanceWindow {
      id := id, tenantID := tenantID, title := req.title, scopeType := req.scopeType
      scopeRef := req.scopeRef, startAt := req.startAt, endAt := req.endAt
      createdBy := p.actor, reason := emptyStringPtr req.reason, enabled := true }
    let idText := toString (id : ℕ)
    writeOperationAudit tenantID p "maintenance.create" "maintenance" idText clock
    return ⟨idText, req.title, req.scopeType, req.scopeRef, req.startAt, req.endAt, p.actor,
      req.reason⟩

/-- `SELECT * FROM alert_events WHERE id=? AND tenant_id=? FOR UPDATE`. -/
def takeAlert (id : ℤ) (tenantID : Serial) : ShareTx AlertEventRow :=
  Tx.exec fun db =>
    match db.alertEvents.rows.find? fun e => (e.id : ℤ) = id && e.tenantID = tenantID with
    | none => .error .notFound
    | some event => .ok (event, [.lockAlertEvent event.id .exclusive])

def updateAlertAck (id : Serial) (actor : String) (now : Time) : ShareTx Unit :=
  Tx.exec fun db =>
    match db.alertEvents.get? id with
    | none => .ok ((), [])
    | some event => .ok ((), [.putAlertEvent { event with
        ackedBy := some actor, ackedAt := some (timestamptz now) }])

def ackAlert (p : Principal) (alertID : String) (now : Time) : ShareTx Unit :=
  match parseInt alertID with
  | none => throw .notFound
  | some id =>
    if id ≤ 0 then throw .notFound
    else do
      let tenantID ← operationTenant p false
      let event ← takeAlert id tenantID
      if event.ackedAt.isSome then return ()
      else
        updateAlertAck event.id p.actor now
        writeOperationAudit tenantID p "alert.ack" "alert" alertID now

/-- An operator's `UPDATE tenants SET status=?, updated_at=? WHERE tenant_code=?`. -/
def setTenantStatus (tenantCode : String) (status : ℤ) (now : Time) : AccountTx Unit :=
  Tx.exec fun db =>
    match db.tenants.rows.find? fun t => t.tenantCode = tenantCode with
    | none => .ok ((), [])
    | some t => .ok ((), [.putTenant { t with status := status, updatedAt := timestamptz now }])

inductive ControlError
  | access (e : AccessError)
  | account (e : AccountError)
  deriving DecidableEq

abbrev ControlTx := Tx Database Access ControlError

inductive ControlCall
  | createMaintenance (id : Serial) (clock : Time) (p : Principal) (req : CreateMaintenanceRequest)
  | ackAlert (p : Principal) (alertID : String) (now : Time)
  | createShare (d : ShareDraws) (p : Principal) (req : CreateShareRequest) (hash : String)
      (now : Time)
  | revokeShare (p : Principal) (id : String) (now : Time)
  | updateUser (d : AccountDraws) (tenantCode : String) (userID : ℤ) (patch : UserUpdate)
  | createSession (d : AccountDraws) (userID : ℤ) (tokenHash : String) (expiresAt : Time)
      (ip userAgent : String) (now : Time)
  | setTenantStatus (tenantCode : String) (status : ℤ) (now : Time)
  deriving DecidableEq

inductive ControlReply
  | window (w : MaintenanceWindow)
  | share (record : ShareRecord)
  | user (u : User)
  | done
  deriving DecidableEq

def controlProgram : ControlCall → ControlTx ControlReply
  | .createMaintenance id clock p req => do
    return .window (← (createMaintenance id clock p req).mapError .access)
  | .ackAlert p alertID now => do
    (ackAlert p alertID now).mapError .access
    return .done
  | .createShare d p req hash now => do
    return .share (← (createShare d p req hash now).mapError .access)
  | .revokeShare p id now => do
    (revokeShare p id now).mapError .access
    return .done
  | .updateUser d tenantCode userID patch => do
    return .user (← (updateUser d tenantCode userID patch).mapError .account)
  | .createSession d userID tokenHash expiresAt ip userAgent now => do
    (createSession d userID tokenHash expiresAt ip userAgent now).mapError .account
    return .done
  | .setTenantStatus tenantCode status now => do
    (setTenantStatus tenantCode status now).mapError .account
    return .done

abbrev ControlSys := Sys Database Access ControlError ControlReply ControlCall
abbrev ControlWorld := World Database ControlCall ControlReply

end Gaoming
