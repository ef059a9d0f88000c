import Gaoming.HostStoreProgram
import Gaoming.OperationsProgram
import Gaoming.TransactionProcess

/-!
# The database calls of the master's HTTP server

What the handlers of `server/internal/master/transport/http` ask of the account
store, the share store and the operations store, and the two calls of the host store
that write. A store method without a transaction is one call for each of its
statements; `AllocateTenant`, which looks a code up and then writes once, is one call.
Signing out deletes a row of `user_sessions`, an access that the other stores do not
make.
-/

namespace Gaoming
open Relational Transaction

/-- The tables, under the accesses of the master. -/
structure MasterDatabase extends Database where
  deriving DecidableEq

inductive MasterAccess
  | base (a : Access)
  | eraseUserSession (id : Serial)

namespace MasterAccess

def apply (db : MasterDatabase) : MasterAccess → MasterDatabase
  | .base a => ⟨db.toDatabase.apply a⟩
  | .eraseUserSession id => ⟨{ db.toDatabase with userSessions := db.userSessions.erase id }⟩

def key : MasterAccess → Key
  | .base a => a.key
  | .eraseUserSession id => .userSession id

def mode : MasterAccess → Mode
  | .base a => a.mode
  | .eraseUserSession _ => .exclusive

end MasterAccess

instance : Storage MasterDatabase MasterAccess Key where
  apply := MasterAccess.apply
  key := MasterAccess.key
  mode := MasterAccess.mode

inductive MasterError
  | access (e : AccessError)
  | account (e : AccountError)
  | store (e : StoreError)
  deriving DecidableEq

def MasterError.ofControl : ControlError → MasterError
  | .access e => .access e
  | .account e => .account e

abbrev MasterTx := Tx MasterDatabase MasterAccess MasterError

def onTables {ε α : Type} (p : Tx Database Access ε α) : Tx MasterDatabase MasterAccess ε α :=
  p.lift MasterDatabase.toDatabase .base

def ofAccount {α : Type} (p : AccountTx α) : MasterTx α := onTables (p.mapError .account)

def ofShare {α : Type} (p : ShareTx α) : MasterTx α := onTables (p.mapError .access)

def ofStore {α : Type} (p : StoreTx α) : MasterTx α := onTables (p.mapError .store)

def ofControl {α : Type} (p : ControlTx α) : MasterTx α := onTables (p.mapError .ofControl)

def findSession (tokenHash : String) : AccountTx (Option UserSessionRow) :=
  Tx.query fun db => db.userSessions.rows.find? fun x => x.tokenHash = tokenHash

def joinUser (userID : Serial) : AccountTx (Option (UserRow × TenantRow)) :=
  Tx.query fun db => db.userWithTenant userID

/-- `DELETE FROM user_sessions WHERE token_hash=?`. -/
def deleteSession (tokenHash : String) : MasterTx Unit :=
  Tx.exec fun db => .ok ((), (db.userSessions.select fun x => x.tokenHash = tokenHash).map
    fun x => .eraseUserSession x.id)

/-- The joins of `LocalCredentials`; `(tenant_id, username)` is unique. -/
def Database.localCredentials (db : Database) (tenant username : String) : Option (User × String) :=
  db.userPasswords.rows.findSome? fun pw => do
    let user ← db.users.get? pw.userID
    let t ← db.tenants.get? user.tenantID
    if user.tenantID = pw.tenantID && t.tenantCode = tenant && pw.username = username &&
        t.status = 1 then
      some (toUser user t.tenantCode none, pw.passwordHash)
    else none

def localCredentials (tenant username : String) : AccountTx (Option (User × String)) :=
  Tx.query fun db => db.localCredentials tenant username

def setupAvailable : AccountTx Bool := Tx.query Database.setupAvailable

/-- The join of a user with its tenant, and with its identity of the smallest number. -/
def Database.listedUser (db : Database) (tenantCode : String) (user : UserRow) : Option User := do
  let tenant ← db.tenants.get? user.tenantID
  if tenant.tenantCode = tenantCode then
    some (toUser user tenant.tenantCode
      (db.userIdentities.first UserIdentityRow.id fun x => x.userID = user.id))
  else none

/-- `ORDER BY users.created_at`; users of one instant come in no particular order. -/
def listUsers (tenantCode : String) : AccountTx (List User) :=
  Tx.query fun db => (db.users.rows.insertionSort fun x y => x.createdAt ≤ y.createdAt).filterMap
    (db.listedUser tenantCode)

/-- The shares of the tenant, the newest first, at most 100. -/
def Database.sharesOf (db : Database) (tenant : Serial) : List AccessShareRow :=
  ((db.accessShares.select fun x => x.tenantID = tenant).insertionSort
    fun x y => y.createdAt ≤ x.createdAt).take 100

def listShareRecords (p : Principal) (tenant : Serial) :
    List AccessShareRow → ShareTx (List ShareRecord)
  | [] => return []
  | row :: rows => do
    let uids ← Tx.query fun db => ((db.accessShareHosts.select fun h =>
      h.shareID = row.id && h.tenantID = tenant).map AccessShareHostRow.hostUID).insertionSort
        (· ≤ ·)
    let rest ← listShareRecords p tenant rows
    return ⟨row.id, p.tenantCode, row.title, uids, row.fields, row.expiresAt, row.createdAt,
      row.revokedAt⟩ :: rest

def listShares (p : Principal) : ShareTx (List ShareRecord) :=
  if !p.isAdmin then throw .forbidden
  else do
    let tenant ← tenantForAdmin p
    let rows ← Tx.query fun db => db.sharesOf tenant
    listShareRecords p tenant rows

/-- The first statement of `AuthenticateShareSession`. -/
def liveShare (hash : String) (now : Time) : ShareTx (AccessShareRow × String) :=
  validShare fun db x => timestamptz now < x.expiresAt &&
    db.accessShareSessions.rows.any fun r => r.shareID = x.id && r.tokenHash = hash &&
      timestamptz now < r.expiresAt

inductive MasterCall
  | control (c : ControlCall)
  | findSession (tokenHash : String)
  | joinUser (userID : Serial)
  | touchSession (id : Serial) (now : Time)
  | deleteSession (tokenHash : String)
  | localCredentials (tenant username : String)
  | setupAvailable
  | bootstrapAdmin (d : AccountDraws) (account : LocalAccount) (now : Time)
  | listUsers (tenantCode : String)
  | listShares (p : Principal)
  | exchangeShare (d : ShareDraws) (raw : String) (now : Time)
  | liveShare (hash : String) (now : Time)
  | sharePrincipal (row : AccessShareRow) (tenantCode : String)
  | validateDemo (p : Principal)
  | allocateTenant (d : Draws)
  | registerAgent (d : Draws) (req : RegisterAgentRequest) (now : Time)
  deriving DecidableEq

inductive MasterReply
  | control (r : ControlReply)
  | session (found : Option UserSessionRow)
  | joined (found : Option (UserRow × TenantRow))
  | credentials (found : Option (User × String))
  | available (b : Bool)
  | user (u : User)
  | users (items : List User)
  | shares (items : List ShareRecord)
  | shareSession (session : ShareSession)
  | share (row : AccessShareRow) (tenantCode : String)
  | principal (p : Principal)
  | tenant (tenantCode : String)
  | registered (snapshot : HostSnapshot) (cfg : AgentConfig) (tenantCode : String)
  | done
  deriving DecidableEq

def masterProgram (store : Store) (sha256 : String → String) : MasterCall → MasterTx MasterReply
  | .control c => do return .control (← ofControl (controlProgram c))
  | .findSession tokenHash => do return .session (← ofAccount (findSession tokenHash))
  | .joinUser userID => do return .joined (← ofAccount (joinUser userID))
  | .touchSession id now => do
    ofAccount (touchSession id now)
    return .done
  | .deleteSession tokenHash => do
    deleteSession tokenHash
    return .done
  | .localCredentials tenant username => do
    return .credentials (← ofAccount (localCredentials tenant username))
  | .setupAvailable => do return .available (← ofAccount setupAvailable)
  | .bootstrapAdmin d account now => do
    return .user (← ofAccount (bootstrapAdmin d account now))
  | .listUsers tenantCode => do return .users (← ofAccount (listUsers tenantCode))
  | .listShares p => do return .shares (← ofShare (listShares p))
  | .exchangeShare d raw now => do
    return .shareSession (← ofShare (exchangeShare sha256 d raw now))
  | .liveShare hash now => do
    let (row, tenantCode) ← ofShare (liveShare hash now)
    return .share row tenantCode
  | .sharePrincipal row tenantCode => do
    return .principal (← ofShare (sharePrincipal row tenantCode))
  | .validateDemo p => do
    ofShare (validateDemo p)
    return .done
  | .allocateTenant d => do return .tenant (← ofStore (Store.allocateTenant d))
  | .registerAgent d req now => do
    let (snapshot, cfg, tenantCode) ← ofStore (store.registerAgent d req now)
    return .registered snapshot cfg tenantCode

abbrev MasterSys := Sys MasterDatabase MasterAccess MasterError MasterReply MasterCall
abbrev MasterWorld := World MasterDatabase MasterCall MasterReply
abbrev MasterCommit := Commit MasterCall MasterReply

end Gaoming
