import Gaoming.Database

/-!
# The account store

`server/internal/master/auth` as trees of statements: the users, their sessions
and the first administrator. As in the host store, GORM's `Save` updates all
columns, inserts when there was no row, and takes `updated_at` from GORM's clock.
-/

namespace Gaoming
open Relational Transaction

inductive AccountError
  | recordNotFound
  | setupUnavailable
  | startupPassword
  | bcrypt
  | database
  deriving DecidableEq

/-- The texts of the package; the others come from GORM, the hash and the driver. -/
def AccountError.text : AccountError → Option String
  | .setupUnavailable => some "administrator setup unavailable"
  | .startupPassword => some "startup administrator password must contain 1 to 72 bytes"
  | .recordNotFound | .bcrypt | .database => none

abbrev AccountTx := Tx Database Access AccountError

/-- The serial numbers of the rows a call may insert, GORM's clock and that of the database,
and the salted hash of a password. -/
structure AccountDraws where
  tenantID : Serial := 1
  userID : Serial := 1
  sessionID : Serial := 1
  clock : Time := 0
  passwordHash : Option String := none
  deriving DecidableEq

structure User where
  id : Serial
  tenantCode : String
  displayName : String
  avatarURL : String
  role : String
  status : String
  lastLoginAt : Option Time
  createdAt : Time
  updatedAt : Time
  provider : String
  providerUserID : String
  deriving DecidableEq

structure UserUpdate where
  displayName : Option String := none
  role : Option String := none
  status : Option String := none
  deriving DecidableEq

structure LocalAccount where
  tenantCode : String
  username : String
  displayName : String
  passwordHash : String
  deriving DecidableEq

def UserRow.stored (r : UserRow) : Option UserRow := do
  let displayName ← varchar 128 r.displayName
  let avatarURL ← varcharNull 1024 r.avatarURL
  let role ← varchar 32 r.role
  let status ← varchar 32 r.status
  return { r with
    displayName := displayName, avatarURL := avatarURL, role := role, status := status
    lastLoginAt := r.lastLoginAt.map timestamptz
    createdAt := timestamptz r.createdAt, updatedAt := timestamptz r.updatedAt }

def UserSessionRow.stored (r : UserSessionRow) : Option UserSessionRow := do
  let tokenHash ← varchar 64 r.tokenHash
  let lastSeenIP ← varcharNull 64 r.lastSeenIP
  let userAgent ← varcharNull 512 r.userAgent
  return { r with
    tokenHash := tokenHash, lastSeenIP := lastSeenIP, userAgent := userAgent
    expiresAt := timestamptz r.expiresAt, lastSeenAt := r.lastSeenAt.map timestamptz
    createdAt := timestamptz r.createdAt, updatedAt := timestamptz r.updatedAt }

def UserPasswordRow.stored (r : UserPasswordRow) : Option UserPasswordRow := do
  let username ← varchar 64 r.username
  let passwordHash ← varchar 128 r.passwordHash
  return { r with username := username, passwordHash := passwordHash }

def toUser (user : UserRow) (tenantCode : String) (identity : Option UserIdentityRow) : User where
  id := user.id
  tenantCode := tenantCode
  displayName := user.displayName
  avatarURL := user.avatarURL.getD ""
  role := user.role
  status := user.status
  lastLoginAt := user.lastLoginAt
  createdAt := user.createdAt
  updatedAt := user.updatedAt
  provider := (identity.map UserIdentityRow.provider).getD ""
  providerUserID := (identity.map UserIdentityRow.providerUserID).getD ""

/-- `UPDATE users SET last_login_at=?, updated_at=? WHERE id=?`. -/
def touchLogin (userID : ℤ) (now : Time) : AccountTx Unit :=
  Tx.exec fun db =>
    match db.users.rows.find? fun u => (u.id : ℤ) = userID with
    | none => .ok ((), [.lockUsers .share])
    | some u => .ok ((), [.lockUsers .share, .putUser { u with
        lastLoginAt := some (timestamptz now), updatedAt := timestamptz now }])

/-- `INSERT INTO user_sessions`: the unique `token_hash` and the foreign key to `users`. -/
def insertUserSession (d : AccountDraws) (userID : ℤ) (session : Serial → UserSessionRow) :
    AccountTx Unit :=
  Tx.exec fun db =>
    match db.users.rows.find? fun u => (u.id : ℤ) = userID with
    | none => .error .database
    | some u =>
      match (session u.id).stored with
      | none => .error .database
      | some r =>
        if db.userSessions.rows.any fun x => x.id = d.sessionID || x.tokenHash = r.tokenHash then
          .error .database
        else .ok ((), [.lockSessionToken r.tokenHash, .putUserSession r])

def createSession (d : AccountDraws) (userID : ℤ) (tokenHash : String) (expiresAt : Time)
    (ip userAgent : String) (now : Time) : AccountTx Unit := do
  touchLogin userID now
  insertUserSession d userID fun id => {
    id := d.sessionID, userID := id, tokenHash := tokenHash, expiresAt := expiresAt
    lastSeenAt := some now, lastSeenIP := emptyStringPtr ip, userAgent := emptyStringPtr userAgent
    createdAt := now, updatedAt := d.clock }

structure SessionRecord where
  id : Serial
  userID : Serial
  expiresAt : Time
  deriving DecidableEq

/-- The join of `users` with an active tenant. -/
def Database.userWithTenant (db : Database) (userID : Serial) : Option (UserRow × TenantRow) := do
  let user ← db.users.get? userID
  let tenant ← db.tenants.get? user.tenantID
  if tenant.status = 1 then some (user, tenant) else none

/-- `UPDATE user_sessions SET last_seen_at=?, updated_at=? WHERE id=?`. -/
def touchSession (id : Serial) (now : Time) : AccountTx Unit :=
  Tx.exec fun db =>
    match db.userSessions.get? id with
    | none => .ok ((), [])
    | some r => .ok ((), [.putUserSession { r with
        lastSeenAt := some (timestamptz now), updatedAt := timestamptz now }])

/-- Three statements, with no transaction around them. -/
def getUserBySessionTokenHash (tokenHash : String) (now : Time) :
    AccountTx (Option (User × SessionRecord)) := do
  match ← Tx.query fun db => db.userSessions.rows.find? fun x => x.tokenHash = tokenHash with
  | none => return none
  | some session =>
    if session.expiresAt ≤ now then return none
    else
      match ← Tx.query fun db => db.userWithTenant session.userID with
      | none => return none
      | some (user, tenant) =>
        if user.status ≠ "active" then return none
        else
          touchSession session.id now
          return some (toUser user tenant.tenantCode none,
            ⟨session.id, session.userID, session.expiresAt⟩)

/-- The three assignments of `UpdateUser`. -/
def UserUpdate.apply (patch : UserUpdate) (user : UserRow) : UserRow :=
  { user with
    displayName := patch.displayName.getD user.displayName
    role := patch.role.getD user.role
    status := patch.status.getD user.status }

def takeTenant (tenantCode : String) : AccountTx TenantRow := do
  match ← Tx.query fun db => db.tenants.rows.find? fun t => t.tenantCode = tenantCode with
  | none => throw .recordNotFound
  | some tenant => return tenant

/-- The `SELECT` without a lock that the row written later is computed from. -/
def takeUser (userID : ℤ) (tenantID : Serial) : AccountTx UserRow :=
  Tx.exec fun db =>
    match db.users.rows.find? fun u => (u.id : ℤ) = userID && u.tenantID = tenantID with
    | none => .error .recordNotFound
    | some u => .ok (u, [.readUser u.id])

/-- The foreign key of `users` to `tenants`. -/
def userRefused (db : Database) (r : UserRow) : Bool := (db.tenants.get? r.tenantID).isNone

def saveUser (user : UserRow) : AccountTx Unit := do
  let updated ← Tx.exec fun db =>
    match user.stored with
    | none => .error .database
    | some r =>
      if (db.users.get? r.id).isNone then .ok (false, [.lockUsers .share])
      else if userRefused db r then .error .database
      else .ok (true, [.lockUsers .share, .putUser r])
  if updated then return ()
  else Tx.exec fun db =>
    match user.stored with
    | none => .error .database
    | some r =>
      if userRefused db r then .error .database else .ok ((), [.lockUsers .share, .putUser r])

def updateUser (d : AccountDraws) (tenantCode : String) (userID : ℤ) (patch : UserUpdate) :
    AccountTx User := do
  let tenant ← takeTenant tenantCode
  let user ← takeUser userID tenant.id
  let user := { patch.apply user with updatedAt := d.clock }
  saveUser user
  let identity ← Tx.query fun db => db.userIdentities.first UserIdentityRow.id fun x =>
    x.userID = user.id
  return toUser user tenant.tenantCode identity

def setupLock : ℤ := 291013431

/-- `SELECT pg_advisory_xact_lock(291013431)`. -/
def lockSetup : AccountTx Unit := Tx.exec fun _ => .ok ((), [.advisory setupLock])

/-- `LOCK TABLE users IN SHARE ROW EXCLUSIVE MODE`, which excludes every writer of the table. -/
def lockUsersTable : AccountTx Unit := Tx.exec fun _ => .ok ((), [.lockUsers .exclusive])

def Database.setupAvailable (db : Database) : Bool :=
  db.authBootstrapState.isNone && db.users.rows.isEmpty

/-- `INSERT INTO tenants ... ON CONFLICT(tenant_code) DO NOTHING`. -/
def insertTenantOnce (d : AccountDraws) (tenantCode : String) : AccountTx Unit :=
  Tx.exec fun db =>
    match (TenantRow.mk d.tenantID tenantCode tenantCode 1 d.clock d.clock).stored with
    | none => .error .database
    | some r =>
      if db.tenants.rows.any fun t => t.tenantCode = r.tenantCode then .ok ((), [])
      else if (db.tenants.get? r.id).isSome then .error .database
      else .ok ((), [.lockTenantCode r.tenantCode, .putTenant r])

def takeActiveTenant (tenantCode : String) : AccountTx TenantRow := do
  match ← Tx.query fun db => db.tenants.rows.find? fun t =>
      t.tenantCode = tenantCode && t.status = 1 with
  | none => throw .recordNotFound
  | some tenant => return tenant

def insertUser (user : UserRow) : AccountTx Unit :=
  Tx.exec fun db =>
    match user.stored with
    | none => .error .database
    | some r =>
      if (db.users.get? r.id).isSome || userRefused db r then .error .database
      else .ok ((), [.lockUsers .share, .putUser r])

/-- The primary key, the unique `(tenant_id, username)` and the foreign keys. -/
def insertUserPassword (row : UserPasswordRow) : AccountTx Unit :=
  Tx.exec fun db =>
    match row.stored with
    | none => .error .database
    | some r =>
      if (db.userPasswords.rows.any fun x =>
          x.userID = r.userID || (x.tenantID = r.tenantID && x.username = r.username)) ||
          !(db.users.rows.any fun u => u.id = r.userID && u.tenantID = r.tenantID) then
        .error .database
      else .ok ((), [.lockUsername r.tenantID r.username, .putUserPassword r])

def createLocalAdmin (d : AccountDraws) (account : LocalAccount) (now : Time) : AccountTx User := do
  insertTenantOnce d account.tenantCode
  let tenant ← takeActiveTenant account.tenantCode
  let user : UserRow := {
    id := d.userID, tenantID := tenant.id, displayName := account.displayName
    role := "admin", status := "active", createdAt := now, updatedAt := now }
  insertUser user
  insertUserPassword ⟨user.id, tenant.id, account.username, account.passwordHash⟩
  return toUser user account.tenantCode none

/-- `INSERT INTO auth_bootstrap_state(id,completed_at) VALUES (1,?)`. -/
def insertBootstrapState (now : Time) : AccountTx Unit :=
  Tx.exec fun db =>
    if db.authBootstrapState.isSome then .error .database
    else .ok ((), [.putBootstrapState (timestamptz now)])

/-- The same with `ON CONFLICT DO NOTHING`. -/
def insertBootstrapStateOnce (now : Time) : AccountTx Unit :=
  Tx.exec fun db =>
    if db.authBootstrapState.isSome then .ok ((), [])
    else .ok ((), [.putBootstrapState (timestamptz now)])

def bootstrapAdmin (d : AccountDraws) (account : LocalAccount) (now : Time) : AccountTx User := do
  lockSetup
  let available ← Tx.query Database.setupAvailable
  if !available then throw .setupUnavailable
  else
    let user ← createLocalAdmin d account now
    insertBootstrapState now
    return user

/-- The result tells whether an account was created. -/
def ensureStartupAdmin (d : AccountDraws) (password : String) (now : Time) : AccountTx Bool := do
  lockSetup
  lockUsersTable
  let existing ← Tx.query fun db => !db.users.rows.isEmpty
  if existing then return false
  else if password.utf8ByteSize = 0 ∨ 72 < password.utf8ByteSize then throw .startupPassword
  else
    match d.passwordHash with
    | none => throw .bcrypt
    | some hash =>
      let _ ← createLocalAdmin d ⟨"default", "admin", "Administrator", hash⟩ now
      insertBootstrapStateOnce now
      return true

end Gaoming
