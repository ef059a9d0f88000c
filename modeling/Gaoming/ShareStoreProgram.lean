import Gaoming.Database
import Gaoming.Principals

/-!
# The share store

`pkg/access/postgres` as trees of statements. The key-share locks that foreign
keys take on their parent rows are left out: they only make a statement wait
longer, so every interleaving of the database is still among those considered.
-/

namespace Gaoming
open Relational Transaction

abbrev ShareTx := Tx Database Access AccessError

/-- The random values of one call: the suffix of a share ID, and a new token. -/
structure ShareDraws where
  shareSuffix : String := ""
  token : Option String := none
  deriving DecidableEq

structure ShareRecord where
  id : String
  tenantCode : String
  title : String
  hostUIDs : List String
  fields : List String
  expiresAt : Time
  createdAt : Time
  revokedAt : Option Time := none
  deriving DecidableEq

structure ShareSession where
  token : String
  expiresAt : Time
  principal : Principal
  deriving DecidableEq

/-- `SELECT ... FOR SHARE OF users FOR UPDATE OF tenants`. -/
def tenantForAdmin (p : Principal) : ShareTx Serial :=
  if !p.isAdmin then throw .forbidden
  else Tx.exec fun db =>
    match db.users.rows.find? fun u => (u.id : ℤ) = p.userID with
    | none => .error .forbidden
    | some u =>
      match db.tenants.get? u.tenantID with
      | none => .error .forbidden
      | some t =>
        if t.tenantCode = p.tenantCode && u.status = "active" && u.role = "admin" &&
            t.status = 1 then
          .ok (t.id, [.lockUser u.id .share, .lockTenant t.id .exclusive])
        else .error .forbidden

def audit (p : Principal) (tenant : Serial) (action id : String) (now : Time) : ShareTx Unit :=
  Tx.exec fun _ =>
    .ok ((), [.insertAuditLog ⟨tenant, p.actor, action, "share", id, true, timestamptz now⟩])

/-- The unique `id` and `token_hash`, and the foreign keys of `access_shares`. -/
def shareRefused (db : Database) (r : AccessShareRow) : Bool :=
  (db.accessShares.rows.any fun x => x.id = r.id || x.tokenHash = r.tokenHash) ||
    (db.tenants.get? r.tenantID).isNone ||
    !(db.users.rows.any fun u => u.id = r.createdBy && u.tenantID = r.tenantID)

def insertShare (id : String) (tenant : Serial) (title hash : String) (fields : List String)
    (expires : Time) (userID : ℤ) (now : Time) : ShareTx Unit :=
  Tx.exec fun db =>
    match varchar 64 id, varchar 128 title, varchar 64 hash, jsonb fields,
        db.users.rows.find? fun u => (u.id : ℤ) = userID with
    | some id, some title, some hash, some fields, some u =>
      let r : AccessShareRow :=
        ⟨id, tenant, title, hash, fields, timestamptz expires, u.id, timestamptz now, none⟩
      if shareRefused db r then .error .database
      else .ok ((), [.lockShareToken r.tokenHash, .putShare r])
    | _, _, _, _, _ => .error .database

def insertShareHost (shareID : String) (tenant : Serial) (hostUID : String) : ShareTx Unit :=
  Tx.exec fun db =>
    match varchar 64 shareID, varchar 64 hostUID with
    | some id, some uid =>
      let r : AccessShareHostRow := ⟨id, tenant, uid⟩
      if (db.accessShareHosts.get? r.key).isSome ||
          !(db.accessShares.rows.any fun x => x.id = id && x.tenantID = tenant) ||
          !(db.hosts.rows.any fun h => h.tenantID = tenant && h.hostUID = uid) then
        .error .database
      else .ok ((), [.putShareHost r])
    | _, _ => .error .database

def insertShareHosts (shareID : String) (tenant : Serial) : List String → ShareTx Unit
  | [] => return ()
  | uid :: rest => do
    insertShareHost shareID tenant uid
    insertShareHosts shareID tenant rest

/-- The count of the hosts with `tenant_id=? AND host_uid IN ?`; a text with a NUL is
refused as a parameter. -/
def countHosts (tenant : Serial) (uids : List String) : ShareTx ℕ :=
  Tx.exec fun db =>
    if uids.any hasNul then .error .database
    else .ok (db.hosts.count fun h => h.tenantID = tenant && uids.contains h.hostUID, [])

def createShareTx (d : ShareDraws) (p : Principal) (req : CreateShareRequest) (hash : String)
    (now : Time) : ShareTx ShareRecord := do
  let tenant ← tenantForAdmin p
  let count ← Tx.query fun db => db.accessShares.count fun x => x.tenantID = tenant
  if 100 ≤ count then throw .quota
  else
    let count ← countHosts tenant req.hostUIDs
    if count ≠ req.hostUIDs.length then throw .notFound
    else
      let id := "share-" ++ d.shareSuffix
      let expires := now + req.ttlSeconds * second
      insertShare id tenant req.title hash req.fields expires p.userID now
      insertShareHosts id tenant req.hostUIDs
      audit p tenant "share.create" id now
      return ⟨id, p.tenantCode, req.title, req.hostUIDs, req.fields, expires, now, none⟩

def createShare (d : ShareDraws) (p : Principal) (req : CreateShareRequest) (hash : String)
    (now : Time) : ShareTx ShareRecord :=
  if !p.isAdmin then throw .forbidden
  else
    match validateShareRequest req with
    | .error e => throw e
    | .ok () =>
        if hash.utf8ByteSize ≠ 64 then throw .unauthorized else createShareTx d p req hash now

/-- `UPDATE access_shares SET revoked_at=COALESCE(revoked_at,?)`. -/
def markRevoked (id : String) (tenant : Serial) (now : Time) : ShareTx Unit :=
  Tx.exec fun db =>
    match db.accessShares.get? id with
    | none => .ok ((), [])
    | some x =>
      if x.tenantID = tenant then
        .ok ((), [.putShare { x with revokedAt := some (x.revokedAt.getD (timestamptz now)) }])
      else .ok ((), [])

/-- `DELETE FROM access_share_sessions WHERE share_id=?`, with a further condition. -/
def deleteSessions (id : String) (p : AccessShareSessionRow → Bool) : ShareTx Unit :=
  Tx.exec fun db => .ok ((), (db.accessShareSessions.select fun r => r.shareID = id && p r).map
    fun r => .eraseShareSession r.tokenHash)

def revokeShare (p : Principal) (id : String) (now : Time) : ShareTx Unit := do
  let tenant ← tenantForAdmin p
  let found ← Tx.query fun db => db.accessShares.rows.any fun x => x.id = id && x.tenantID = tenant
  if !found then throw .notFound
  else
    markRevoked id tenant now
    deleteSessions id fun _ => true
    audit p tenant "share.revoke" id now

/-- `validShare`: the joins with an active tenant and an active administrator. -/
def Database.validShare (db : Database) (p : AccessShareRow → Bool) : Option AccessShareRow :=
  db.accessShares.first AccessShareRow.id fun x =>
    (db.tenants.get? x.tenantID).any (fun t => t.status = 1) &&
    db.users.rows.any (fun u => u.id = x.createdBy && u.tenantID = x.tenantID &&
      u.status = "active" && u.role = "admin") &&
    x.revokedAt.isNone && p x

/-- The row with its tenant's code, or `ErrUnauthorized`. -/
def validShare (p : Database → AccessShareRow → Bool) : ShareTx (AccessShareRow × String) := do
  let found ← Tx.query fun db => (db.validShare (p db)).map fun x =>
    (x, ((db.tenants.get? x.tenantID).map TenantRow.tenantCode).getD "")
  match found with
  | none => throw .unauthorized
  | some row => return row

def sharePrincipal (row : AccessShareRow) (tenantCode : String) : ShareTx Principal := do
  let hosts ← Tx.query fun db => ((db.accessShareHosts.select fun h =>
    h.shareID = row.id && h.tenantID = row.tenantID).map AccessShareHostRow.hostUID).insertionSort
      (· ≤ ·)
  return {
    kind := .share, tenantID := row.tenantID, tenantCode := tenantCode, shareID := row.id
    allowedHosts := hosts, fields := row.fields }

section Tokens
variable (sha256 : String → String)

def authenticate (raw : String) (kind : Kind) (now : Time) : ShareTx Principal :=
  if kind ≠ .share ∨ tokenHash sha256 raw = "" then throw .unauthorized
  else do
    let (row, tenantCode) ← validShare fun _ x =>
      x.tokenHash = tokenHash sha256 raw && timestamptz now < x.expiresAt
    sharePrincipal row tenantCode

/-- `SELECT id FROM access_shares WHERE token_hash=? FOR UPDATE`. -/
def lockShareByToken (hash : String) : ShareTx String :=
  Tx.exec fun db =>
    match db.accessShares.rows.find? fun x => x.tokenHash = hash with
    | none => .error .unauthorized
    | some x => .ok (x.id, [.lockShare x.id .exclusive])

def insertShareSession (r : AccessShareSessionRow) : ShareTx Unit :=
  Tx.exec fun db =>
    if (db.accessShareSessions.get? r.tokenHash).isSome || (db.accessShares.get? r.shareID).isNone
    then .error .database
    else .ok ((), [.putShareSession r])

def exchangeShareTx (d : ShareDraws) (raw : String) (now : Time) : ShareTx ShareSession := do
  let id ← lockShareByToken (tokenHash sha256 raw)
  if id = "" then throw .unauthorized
  else
    let (row, tenantCode) ← validShare fun _ x => x.id = id && timestamptz now < x.expiresAt
    deleteSessions id fun r => r.expiresAt ≤ timestamptz now
    let count ← Tx.query fun db => db.accessShareSessions.count fun r => r.shareID = id
    if 100 ≤ count then throw .quota
    else
      match d.token with
      | none => throw .random
      | some token =>
        insertShareSession ⟨tokenHash sha256 token, id, row.expiresAt, timestamptz now⟩
        let p ← sharePrincipal row tenantCode
        return ⟨token, row.expiresAt, p⟩

def exchangeShare (d : ShareDraws) (raw : String) (now : Time) : ShareTx ShareSession :=
  if tokenHash sha256 raw = "" then throw .unauthorized else exchangeShareTx sha256 d raw now

def authenticateShareSession (raw : String) (now : Time) : ShareTx Principal :=
  if tokenHash sha256 raw = "" then throw .unauthorized
  else do
    let (row, tenantCode) ← validShare fun db x => timestamptz now < x.expiresAt &&
      db.accessShareSessions.rows.any fun r => r.shareID = x.id &&
        r.tokenHash = tokenHash sha256 raw && timestamptz now < r.expiresAt
    sharePrincipal row tenantCode

end Tokens

def validateDemo (p : Principal) : ShareTx Unit := do
  if p.kind ≠ .demo || p.tenantCode = "" || p.allowedHosts.isEmpty then throw .forbidden
  else
    let active ← Tx.query fun db => db.tenants.rows.any fun t =>
      t.tenantCode = p.tenantCode && t.status = 1
    if !active then throw .forbidden else return ()

inductive ShareCall
  | createShare (d : ShareDraws) (p : Principal) (req : CreateShareRequest) (hash : String)
      (now : Time)
  | revokeShare (p : Principal) (id : String) (now : Time)
  | authenticate (raw : String) (kind : Kind) (now : Time)
  | exchangeShare (d : ShareDraws) (raw : String) (now : Time)
  | authenticateShareSession (raw : String) (now : Time)
  deriving DecidableEq

inductive ShareReply
  | created (record : ShareRecord)
  | revoked
  | principal (p : Principal)
  | session (session : ShareSession)
  deriving DecidableEq

def shareProgram (sha256 : String → String) : ShareCall → ShareTx ShareReply
  | .createShare d p req hash now => do return .created (← createShare d p req hash now)
  | .revokeShare p id now => do
    revokeShare p id now
    return .revoked
  | .authenticate raw kind now => do return .principal (← authenticate sha256 raw kind now)
  | .exchangeShare d raw now => do return .session (← exchangeShare sha256 d raw now)
  | .authenticateShareSession raw now => do
    return .principal (← authenticateShareSession sha256 raw now)

end Gaoming
