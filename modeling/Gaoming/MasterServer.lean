import Gaoming.HostStream
import Gaoming.MasterCalls

/-!
# The HTTP server of the master

The routes, the middleware and the handlers of `server/internal/master/transport/http`
over the methods of `server/internal/master/service`, as processes that make database
calls. Hashes, bcrypt, the decoding of request bodies and Unicode lower case are
parameters; a request brings the random values, clock readings and serial numbers
that it will use. Reads of hosts are handed on with the principal they run under. The
redirects of gin to a path with or without a slash at its end are not modelled.
-/

namespace Gaoming
namespace MasterServer
open Transaction

structure LoginRequest where
  tenantCode : String
  username : String
  password : String
  deriving DecidableEq

structure SetupRequest where
  setupToken : String
  tenantCode : String
  username : String
  displayName : String
  password : String
  deriving DecidableEq

/-- The answer of `limitAuthWork`, which depends on the other requests of the peer. -/
inductive Admission
  | admitted
  | tooMany
  | busy
  deriving DecidableEq

structure Draws where
  resolvedAt : Time := 0
  now : Time := 0
  account : AccountDraws := {}
  token : Option String := none
  share : ShareDraws := {}
  maintenanceID : Serial := 1
  agent : Gaoming.Draws := ⟨1, 1, 1, "", "", 0⟩
  /-- What the event bus answers, if it does not take the event. -/
  publishError : Option String := none
  admission : Admission := .admitted
  deriving DecidableEq

/-- The path is cut at its slashes; cookies, headers and parameters that are absent are empty. -/
structure Request where
  method : String
  path : List String
  tenant : String := ""
  origin : String := ""
  csrf : String := ""
  sessionCookie : String := ""
  shareCookie : String := ""
  contentType : String := "application/json"
  body : String := ""
  draws : Draws := {}
  deriving DecidableEq

structure MasterService extends ReadService where
  hostStore : Store
  csrfToken : String → String
  bcrypt : String → String → Bool
  toLower : String → String
  dummyHash : String := ""
  setupToken : String := ""
  sessionTTL : ℤ := 0
  allowedOrigins : List String := []
  bindLogin : String → Option LoginRequest
  bindSetup : String → Option SetupRequest
  bindShare : String → Option CreateShareRequest
  bindToken : String → Option String
  bindMaintenance : String → Option CreateMaintenanceRequest
  bindAck : String → Bool
  bindUserUpdate : String → Option UserUpdate
  bindRegister : String → Option RegisterAgentRequest

/-- The read handlers, with the parameter of their path. -/
inductive HostRead
  | stream
  | list
  | host (uid : String)
  | latest (uid : String)
  | publicLatest (uid : String)
  deriving DecidableEq

inductive Payload
  | error (code message : String)
  | plainError (message : String)
  | health
  | session (user : Option User)
  | csrf (token : String)
  | available (b : Bool)
  | users (items : List User)
  | user (u : User)
  | window (w : MaintenanceWindow)
  | acknowledged
  | createdShare (record : ShareRecord) (token : String)
  | shares (items : List ShareRecord)
  | exchanged (expiresAt : Time) (fields : List String)
  | shareInfo (mode : Kind) (fields : List String) (hostCount : ℕ)
  | allocated (tenantCode : String)
  | registered (hostUID tenantCode : String) (cfg : AgentConfig)
  | reads (what : HostRead) (p : Principal)
  | empty
  deriving DecidableEq

inductive Cookie
  | session (token : String) (expiresAt : Time)
  | clearSession
  | share (token : String) (expiresAt : Time)
  deriving DecidableEq

structure Response where
  status : ℕ
  payload : Payload
  cookie : Option Cookie := none
  noStore : Bool := false
  deriving DecidableEq

/-- The errors that `writeError` tells apart. -/
inductive Failure
  | unauthorized
  | quota
  | forbidden
  | notFound
  | authNotConfigured
  | database
  | other (message : String)
  deriving DecidableEq

def writeError (noStore : Bool) : Failure → Response
  | .unauthorized => { status := 401, payload := .error "unauthorized" "unauthorized", noStore }
  | .quota => { status := 429, payload := .error "quota_exceeded" "access quota exceeded", noStore }
  | .forbidden => { status := 403, payload := .error "forbidden" "forbidden", noStore }
  | .notFound => { status := 404, payload := .error "not_found" "resource not found", noStore }
  | .authNotConfigured =>
    { status := 503, payload := .error "unavailable" "auth is not configured", noStore }
  | .database =>
      { status := 500, payload := .error "internal_error" "storage unavailable", noStore }
  | .other message => { status := 400, payload := .error "invalid_request" message, noStore }

/-- An error that has no code. -/
def plainError (status : ℕ) (message : String) (noStore : Bool) : Response :=
  { status, payload := .plainError message, noStore }

/-- The errors of the stores; the texts of the random source and of bcrypt are not modelled. -/
def failureOf : Option MasterError → Failure
  | none => .other "context canceled"
  | some (.access .unauthorized) => .unauthorized
  | some (.access .quota) => .quota
  | some (.access .forbidden) => .forbidden
  | some (.access .notFound) => .notFound
  | some (.access .database) => .database
  | some (.access e) => .other (e.text.getD "")
  | some (.account .recordNotFound) => .other "record not found"
  | some (.account .database) => .database
  | some (.account e) => .other (e.text.getD "")
  | some (.store .hostNotFound) => .other "host not found"
  | some (.store .tenantNotFound) => .other "tenant not found"
  | some (.store .database) => .database

abbrev MasterProcess := Process MasterCall MasterError MasterReply

/-- How the reply of a call is read. -/
structure Reader (α : Type) where
  read : MasterReply → Option α
  write : α → MasterReply
  read_eq : ∀ r a, read r = some a → r = write a

/-- No call answers with the reply of another. -/
def ask {α : Type} (c : MasterCall) (reader : Reader α) :
    MasterProcess (Outcome MasterError α) :=
  .call c fun
    | .error e => .done (.error e)
    | .ok r =>
      match reader.read r with
      | some a => .done (.ok a)
      | none => .done (.error none)

section Replies

def sessionReply : Reader (Option UserSessionRow) where
  read
    | .session found => some found
    | _ => none
  write := .session
  read_eq r a h := by
    cases r <;> cases h
    rfl

def joinedReply : Reader (Option (UserRow × TenantRow)) where
  read
    | .joined found => some found
    | _ => none
  write := .joined
  read_eq r a h := by
    cases r <;> cases h
    rfl

def credentialsReply : Reader (Option (User × String)) where
  read
    | .credentials found => some found
    | _ => none
  write := .credentials
  read_eq r a h := by
    cases r <;> cases h
    rfl

def availableReply : Reader Bool where
  read
    | .available b => some b
    | _ => none
  write := .available
  read_eq r a h := by
    cases r <;> cases h
    rfl

def userReply : Reader User where
  read
    | .user u => some u
    | _ => none
  write := .user
  read_eq r a h := by
    cases r <;> cases h
    rfl

def updatedReply : Reader User where
  read
    | .control (.user u) => some u
    | _ => none
  write := fun u => .control (.user u)
  read_eq r a h := by
    cases r with
    | control r => cases r <;> cases h; rfl
    | _ => cases h

def usersReply : Reader (List User) where
  read
    | .users items => some items
    | _ => none
  write := .users
  read_eq r a h := by
    cases r <;> cases h
    rfl

def sharesReply : Reader (List ShareRecord) where
  read
    | .shares items => some items
    | _ => none
  write := .shares
  read_eq r a h := by
    cases r <;> cases h
    rfl

def shareSessionReply : Reader ShareSession where
  read
    | .shareSession session => some session
    | _ => none
  write := .shareSession
  read_eq r a h := by
    cases r <;> cases h
    rfl

def shareReply : Reader (AccessShareRow × String) where
  read
    | .share row tenantCode => some (row, tenantCode)
    | _ => none
  write := fun x => .share x.1 x.2
  read_eq r a h := by
    cases r <;> cases h
    rfl

def principalReply : Reader Principal where
  read
    | .principal p => some p
    | _ => none
  write := .principal
  read_eq r a h := by
    cases r <;> cases h
    rfl

def windowReply : Reader MaintenanceWindow where
  read
    | .control (.window w) => some w
    | _ => none
  write := fun w => .control (.window w)
  read_eq r a h := by
    cases r with
    | control r => cases r <;> cases h; rfl
    | _ => cases h

def recordReply : Reader ShareRecord where
  read
    | .control (.share record) => some record
    | _ => none
  write := fun record => .control (.share record)
  read_eq r a h := by
    cases r with
    | control r => cases r <;> cases h; rfl
    | _ => cases h

def tenantReply : Reader String where
  read
    | .tenant tenantCode => some tenantCode
    | _ => none
  write := .tenant
  read_eq r a h := by
    cases r <;> cases h
    rfl

def registeredReply : Reader (HostSnapshot × AgentConfig × String) where
  read
    | .registered snapshot cfg tenantCode => some (snapshot, cfg, tenantCode)
    | _ => none
  write := fun x => .registered x.1 x.2.1 x.2.2
  read_eq r a h := by
    cases r <;> cases h
    rfl

def doneReply : Reader Unit where
  read
    | .done => some ()
    | _ => none
  write := fun _ => .done
  read_eq r a h := by
    cases r <;> cases h
    rfl

def controlReply : Reader Unit where
  read
    | .control .done => some ()
    | _ => none
  write := fun _ => .control .done
  read_eq r a h := by
    cases r with
    | control r => cases r <;> cases h; rfl
    | _ => cases h

end Replies

section Service
variable (svc : MasterService)

/-- `GetUserBySessionTokenHash`: three statements, with no transaction around them. -/
def userBySessionTokenHash (tokenHash : String) (now : Time) :
    MasterProcess (Outcome MasterError (Option (User × SessionRecord))) := do
  match ← ask (.findSession tokenHash) sessionReply with
  | .error e => return .error e
  | .ok none => return .ok none
  | .ok (some session) =>
    if session.expiresAt ≤ now then return .ok none
    else
      match ← ask (.joinUser session.userID) joinedReply with
      | .error e => return .error e
      | .ok none => return .ok none
      | .ok (some (user, tenant)) =>
        if user.status ≠ "active" then return .ok none
        else
          match ← ask (.touchSession session.id now) doneReply with
          | .error e => return .error e
          | .ok () => return .ok (some (toUser user tenant.tenantCode none,
              ⟨session.id, session.userID, session.expiresAt⟩))

def resolveSessionUser (rawToken : String) (now : Time) :
    MasterProcess (Outcome MasterError (Option (User × SessionRecord))) :=
  if !svc.authStore then return .ok none
  else if svc.hashToken rawToken = "" then return .ok none
  else userBySessionTokenHash (svc.hashToken rawToken) now

def logout (rawToken : String) : MasterProcess (Outcome MasterError Unit) :=
  if !svc.authStore then return .ok ()
  else if svc.hashToken rawToken = "" then return .ok ()
  else ask (.deleteSession (svc.hashToken rawToken)) doneReply

def sessionTTL : ℤ := if svc.sessionTTL ≤ 0 then 7 * 24 * 3600 * second else svc.sessionTTL

structure Session where
  token : String
  expiresAt : Time
  user : User
  deriving DecidableEq

def createLoginSession (d : Draws) (user : User) : MasterProcess (Except Failure Session) :=
  match d.token with
  | none => return .error (.other "session creation failed")
  | some value => do
    let expires := d.now + sessionTTL svc
    match ← ask (.control (.createSession d.account user.id (svc.hashToken value) expires "" ""
        d.now)) controlReply with
    | .error _ => return .error (.other "session creation failed")
    | .ok () => return .ok ⟨value, expires, user⟩

def verifyPassword (hash password : String) : Bool :=
  password.utf8ByteSize ≤ 72 && svc.bcrypt hash password

def login (d : Draws) (req : LoginRequest) : MasterProcess (Except Failure Session) :=
  if !svc.authStore then return .error .authNotConfigured
  else do
    match ← ask (.localCredentials (trimSpace req.tenantCode)
        (svc.toLower (trimSpace req.username))) credentialsReply with
    | .error _ => return .error (.other "login unavailable")
    | .ok none =>
      -- the work on the dummy hash has no outcome
      return .error .unauthorized
    | .ok (some (user, stored)) =>
      if !verifyPassword svc stored req.password || user.status ≠ "active" then
        return .error .unauthorized
      else createLoginSession svc d user

/-- `^[a-z0-9][a-z0-9_.-]{2,63}$`. -/
def usernamePattern (s : String) : Bool :=
  let alnum (c : Char) : Bool := ('a' ≤ c && c ≤ 'z') || ('0' ≤ c && c ≤ '9')
  match s.toList with
  | [] => false
  | first :: rest => alnum first && 2 ≤ rest.length && rest.length ≤ 63 &&
    rest.all fun c => alnum c || c = '_' || c = '.' || c = '-'

/-- `^[a-zA-Z0-9][a-zA-Z0-9_-]{0,63}$`. -/
def tenantPattern (s : String) : Bool :=
  let alnum (c : Char) : Bool :=
    ('a' ≤ c && c ≤ 'z') || ('A' ≤ c && c ≤ 'Z') || ('0' ≤ c && c ≤ '9')
  match s.toList with
  | [] => false
  | first :: rest => alnum first && rest.length ≤ 63 &&
    rest.all fun c => alnum c || c = '_' || c = '-'

def localAccount (d : Draws) (req : SetupRequest) : Except Failure LocalAccount :=
  let username := svc.toLower (trimSpace req.username)
  let tenant := trimSpace req.tenantCode
  let displayName := trimSpace req.displayName
  if !usernamePattern username || !tenantPattern tenant || displayName.utf8ByteSize = 0 ||
      128 < displayName.utf8ByteSize then
    .error (.other "invalid tenant, username or display name")
  else if req.password.utf8ByteSize < 12 || 72 < req.password.utf8ByteSize then
    .error (.other "password must contain 12 to 72 bytes")
  else
    match d.account.passwordHash with
    | none => .error (.other "")
    | some hash => .ok ⟨tenant, username, displayName, hash⟩

def setupAvailable : MasterProcess (Outcome MasterError Bool) :=
  if !svc.authStore || svc.setupToken.utf8ByteSize < 32 then return .ok false
  else ask .setupAvailable availableReply

def setup (d : Draws) (req : SetupRequest) : MasterProcess (Except Failure Session) :=
  if !svc.authStore || svc.setupToken.utf8ByteSize < 32 then return .error .authNotConfigured
  else if svc.sha256 req.setupToken ≠ svc.sha256 svc.setupToken then return .error .unauthorized
  else
    match localAccount svc d req with
    | .error e => return .error e
    | .ok account => do
      match ← ask (.bootstrapAdmin d.account account d.now) userReply with
      | .error (some (.account .setupUnavailable)) => return .error .forbidden
      | .error _ => return .error (.other "administrator setup failed")
      | .ok user => createLoginSession svc d user

def listUsers (requester : User) : MasterProcess (Except Failure (List User)) :=
  if requester.role ≠ "admin" then return .error .forbidden
  else if !svc.authStore then return .error .authNotConfigured
  else do
    let items ← ask (.listUsers requester.tenantCode) usersReply
    return items.mapError failureOf

def updateUser (d : Draws) (requester : User) (userID : ℤ) (patch : UserUpdate) :
    MasterProcess (Except Failure User) :=
  if requester.role ≠ "admin" then return .error .forbidden
  else if patch.role.any (fun r => r ≠ "admin" && r ≠ "member") then
    return .error (.other ("invalid role " ++ (patch.role.getD "").quote))
  else if patch.status.any (fun s => s ≠ "active" && s ≠ "disabled") then
    return .error (.other ("invalid status " ++ (patch.status.getD "").quote))
  else if !svc.authStore then return .error .authNotConfigured
  else do
    let item ← ask (.control (.updateUser d.account requester.tenantCode userID patch)) updatedReply
    return item.mapError failureOf

/-- `time.Duration(30*24*time.Hour)`. -/
def maxMaintenance : ℤ := 30 * 24 * 3600 * second

def createMaintenance (d : Draws) (p : Principal) (req : CreateMaintenanceRequest) :
    MasterProcess (Except Failure MaintenanceWindow) :=
  if !p.isAdmin then return .error .forbidden
  else
    let req := { req with title := trimSpace req.title, scopeRef := trimSpace req.scopeRef }
    if req.title = "" || 128 < req.title.utf8ByteSize || req.scopeRef = "" ||
        128 < req.scopeRef.utf8ByteSize || 4096 < req.reason.utf8ByteSize ||
        req.endAt ≤ req.startAt || maxMaintenance < (Time.sub req.endAt req.startAt).toInt ||
        req.endAt ≤ d.now then
      return .error (.other "invalid maintenance scope, title or time range")
    else do
      let window ← ask (.control (.createMaintenance d.maintenanceID d.account.clock p req))
        windowReply
      return window.mapError failureOf

def ackAlert (d : Draws) (p : Principal) (alertID : String) : MasterProcess (Except Failure Unit) :=
  if !p.isUser then return .error .forbidden
  else do
    let acked ← ask (.control (.ackAlert p alertID d.now)) controlReply
    return acked.mapError failureOf

def createShare (d : Draws) (p : Principal) (req : CreateShareRequest) :
    MasterProcess (Except Failure (ShareRecord × String)) :=
  if !p.isAdmin then return .error .forbidden
  else if !svc.shareStore then return .error .authNotConfigured
  else
    let req := { req with title := trimSpace req.title }
    match validateShareRequest req with
    | .error e => return .error (failureOf (some (.access e)))
    | .ok () =>
      match d.token with
      | none => return .error (.other "share creation unavailable")
      | some token => do
        let record ← ask (.control (.createShare d.share p req (tokenHash svc.sha256 token) d.now))
          recordReply
        return (record.mapError failureOf).map fun record => (record, token)

def listShares (p : Principal) : MasterProcess (Except Failure (List ShareRecord)) :=
  if !p.isAdmin then return .error .forbidden
  else if !svc.shareStore then return .error .authNotConfigured
  else do
    let items ← ask (.listShares p) sharesReply
    return items.mapError failureOf

def revokeShare (d : Draws) (p : Principal) (id : String) : MasterProcess (Except Failure Unit) :=
  if !p.isAdmin then return .error .forbidden
  else if !svc.shareStore then return .error .authNotConfigured
  else do
    let revoked ← ask (.control (.revokeShare p id d.now)) controlReply
    return revoked.mapError failureOf

def allocateInstallTenant (d : Draws) : MasterProcess (Except Failure String) := do
  let tenantCode ← ask (.allocateTenant d.agent) tenantReply
  return tenantCode.mapError failureOf

/-- The event is published when the registration has committed. -/
def registerAgent (d : Draws) (body : RegisterAgentRequest) :
    MasterProcess (Except Failure (HostSnapshot × AgentConfig × String)) := do
  match ← ask (.registerAgent d.agent body d.now) registeredReply with
  | .error e => return .error (failureOf e)
  | .ok registered =>
    match d.publishError with
    | some message => return .error (.other message)
    | none => return .ok registered

def exchangeShare (d : Draws) (token : String) : MasterProcess (Except Failure ShareSession) :=
  if !svc.shareStore then return .error .unauthorized
  else do
    let session ← ask (.exchangeShare d.share token d.now) shareSessionReply
    return session.mapError failureOf

/-- Two statements, with no transaction around them. -/
def authenticateShareSession (raw : String) (now : Time) :
    MasterProcess (Except Failure Principal) :=
  if !svc.shareStore then return .error .unauthorized
  else if tokenHash svc.sha256 raw = "" then return .error .unauthorized
  else do
    match ← ask (.liveShare (tokenHash svc.sha256 raw) now) shareReply with
    | .error e => return .error (failureOf e)
    | .ok (row, tenantCode) =>
      let p ← ask (.sharePrincipal row tenantCode) principalReply
      return p.mapError failureOf

def demoPrincipal : MasterProcess (Except Failure Principal) :=
  match svc.demo with
  | none => return .error .forbidden
  | some demo =>
    if demo.kind ≠ .demo || demo.tenantCode = "" || demo.allowedHosts.isEmpty ||
        demo.fields.isEmpty then return .error .forbidden
    else if !svc.shareStore then return .error .forbidden
    else do
      let checked ← ask (.validateDemo demo) doneReply
      return (checked.mapError failureOf).map fun _ => demo

end Service

/-- What the middleware leaves in the context of a request. -/
structure Ctx where
  user : Option User := none
  principal : Option Principal := none
  noStore : Bool := false
  deriving DecidableEq

def Ctx.principalFromContext (ctx : Ctx) : Principal :=
  match ctx.principal, ctx.user with
  | some p, _ => p
  | none, some user =>
    { kind := .user, tenantCode := user.tenantCode, userID := user.id, role := user.role }
  | none, none => { kind := .user }

inductive Middleware
  | allowedOrigin
  | authWork
  | session
  | csrf
  | share
  | demo
  | admin
  deriving DecidableEq

def readMethod (method : String) : Bool :=
  method = "GET" || method = "HEAD" || method = "OPTIONS"

section Middleware
variable (svc : MasterService) (req : Request)

def refuse {α : Type} (ctx : Ctx) (e : Failure) : MasterProcess (Except Response α) :=
  return .error (writeError ctx.noStore e)

def requireAllowedOrigin (ctx : Ctx) : Except Response Ctx :=
  let ctx := { ctx with noStore := true }
  if readMethod req.method then .ok ctx
  else if svc.allowedOrigins.isEmpty then .ok ctx
  else if svc.allowedOrigins.contains req.origin then .ok ctx
  else .error (plainError 403 "request origin is not allowed" true)

def limitAuthWork (ctx : Ctx) : Except Response Ctx :=
  match req.draws.admission with
  | .admitted => .ok ctx
  | .tooMany => .error (plainError 429 "too many authentication attempts" ctx.noStore)
  | .busy => .error (plainError 429 "authentication is busy" ctx.noStore)

def requireCSRF (ctx : Ctx) : Except Response Ctx :=
  if readMethod req.method then .ok ctx
  else if req.sessionCookie = "" || req.csrf ≠ svc.csrfToken req.sessionCookie then
    .error (plainError 403 "invalid CSRF token" ctx.noStore)
  else .ok ctx

def requireAdmin (ctx : Ctx) : Except Response Ctx :=
  if (ctx.user.map User.role).getD "" ≠ "admin" then .error (writeError ctx.noStore .forbidden)
  else .ok ctx

/-- The `tenant` parameter may only name the tenant the principal has anyway. -/
def otherTenant (tenantCode : String) : Bool :=
  trimSpace req.tenant ≠ "" && trimSpace req.tenant ≠ tenantCode

def requireSession (ctx : Ctx) : MasterProcess (Except Response Ctx) := do
  match ← resolveSessionUser svc req.sessionCookie req.draws.resolvedAt with
  | .error e => refuse ctx (failureOf e)
  | .ok none => refuse ctx .unauthorized
  | .ok (some (user, _)) =>
    if (user.id : ℤ) ≤ 0 || user.tenantCode = "" || user.status ≠ "active" then
      refuse ctx .unauthorized
    else if otherTenant req user.tenantCode then refuse ctx .forbidden
    else return .ok { ctx with user := some user, noStore := true }

/-- `requireShare` and `requireDemo`. -/
def requirePrincipal (authenticate : MasterProcess (Except Failure Principal)) (ctx : Ctx) :
    MasterProcess (Except Response Ctx) := do
  let ctx := { ctx with noStore := true }
  match ← authenticate with
  | .error e => refuse ctx e
  | .ok p =>
    if otherTenant req p.tenantCode then refuse ctx .forbidden
    else return .ok { ctx with principal := some p }

def requireShare (ctx : Ctx) : MasterProcess (Except Response Ctx) :=
  requirePrincipal req (authenticateShareSession svc req.shareCookie req.draws.resolvedAt) ctx

def requireDemo (ctx : Ctx) : MasterProcess (Except Response Ctx) :=
  requirePrincipal req (demoPrincipal svc) ctx

def Middleware.run (ctx : Ctx) : Middleware → MasterProcess (Except Response Ctx)
  | .allowedOrigin => return requireAllowedOrigin svc req ctx
  | .authWork => return limitAuthWork req ctx
  | .session => requireSession svc req ctx
  | .csrf => return requireCSRF svc req ctx
  | .share => requireShare svc req ctx
  | .demo => requireDemo svc req ctx
  | .admin => return requireAdmin ctx

/-- A middleware that aborts is the last of its chain. -/
def runChain : List Middleware → Ctx → MasterProcess (Except Response Ctx)
  | [], ctx => return .ok ctx
  | m :: chain, ctx => do
    match ← m.run svc req ctx with
    | .error response => return .error response
    | .ok ctx => runChain chain ctx

end Middleware

inductive Endpoint
  | health
  | setup
  | setupStatus
  | login
  | csrf
  | session
  | logout
  | allocateInstallTenant
  | registerAgent
  | hostStream
  | listHosts
  | latestMetricSnapshot
  | getHost
  | exchangeShare
  | shareInfo
  | publicLatestMetrics
  | createMaintenance
  | ackAlert
  | listShares
  | createShare
  | revokeShare
  | listUsers
  | updateUser
  deriving DecidableEq

section Handlers
variable (svc : MasterService) (req : Request) (ctx : Ctx)

def reply (status : ℕ) (payload : Payload) (cookie : Option Cookie := none) : Response :=
  { status, payload, cookie, noStore := ctx.noStore }

def fail (e : Failure) : Response := writeError ctx.noStore e

/-- The refusals of `bindAuthJSON`. -/
def bindAuthJSON {α : Type} (decode : String → Option α) : Except Response α :=
  if req.contentType ≠ "application/json" then
    .error (plainError 415 "application/json required" ctx.noStore)
  else
    match decode req.body with
    | none => .error (plainError 400 "invalid authentication request" ctx.noStore)
    | some value => .ok value

def sessionCreated (status : ℕ) (session : Session) : Response :=
  reply ctx status (.session (some session.user)) (some (.session session.token session.expiresAt))

def handleSetup : MasterProcess Response :=
  match bindAuthJSON req ctx svc.bindSetup with
  | .error response => return response
  | .ok body => do
    match ← setup svc req.draws body with
    | .error e => return fail ctx e
    | .ok session => return sessionCreated ctx 201 session

/-- A successful login replaces the session of the cookie that came with it. -/
def handleLogin : MasterProcess Response :=
  match bindAuthJSON req ctx svc.bindLogin with
  | .error response => return response
  | .ok body =>
    if 64 < body.username.utf8ByteSize || 64 < body.tenantCode.utf8ByteSize ||
        72 < body.password.utf8ByteSize || trimSpace body.username = "" then
      return fail ctx .unauthorized
    else do
      match ← login svc req.draws body with
      | .error e => return fail ctx e
      | .ok session =>
        if req.sessionCookie = "" then return sessionCreated ctx 200 session
        else
          match ← logout svc req.sessionCookie with
          | .ok () => return sessionCreated ctx 200 session
          | .error _ =>
            let _ ← logout svc session.token
            return plainError 503 "session rotation failed" ctx.noStore

def handleSetupStatus : MasterProcess Response := do
  match ← setupAvailable svc with
  | .error _ => return plainError 503 "setup status unavailable" ctx.noStore
  | .ok available => return reply ctx 200 (.available available)

def handleSession : MasterProcess Response := do
  match ← resolveSessionUser svc req.sessionCookie req.draws.resolvedAt with
  | .error e => return fail ctx (failureOf e)
  | .ok found => return reply ctx 200 (.session (found.map Prod.fst))

def handleLogout : MasterProcess Response := do
  match ← logout svc req.sessionCookie with
  | .error e => return fail ctx (failureOf e)
  | .ok () => return reply ctx 204 .empty (some .clearSession)

/-- Wrap up what a method of the service returns. -/
def respond {α : Type} (status : ℕ) (payload : α → Payload)
    (work : MasterProcess (Except Failure α)) : MasterProcess Response := do
  match ← work with
  | .error e => return fail ctx e
  | .ok a => return reply ctx status (payload a)

/-- Where no user is set, the zero user of `currentUser` is no administrator. -/
def asUser {α : Type} (work : User → MasterProcess (Except Failure α)) :
    MasterProcess (Except Failure α) :=
  match ctx.user with
  | none => return .error .forbidden
  | some user => work user

def handleListUsers : MasterProcess Response :=
  respond ctx 200 .users (asUser ctx (listUsers svc))

def handleUpdateUser (param : String) : MasterProcess Response :=
  match parseInt (trimSpace param) with
  | none => return fail ctx (.other "invalid user id")
  | some userID =>
    if userID ≤ 0 then return fail ctx (.other "invalid user id")
    else
      match svc.bindUserUpdate req.body with
      | none => return fail ctx (.other "")
      | some patch =>
        let patch := { patch with displayName := patch.displayName.map trimSpace }
        respond ctx 200 .user (asUser ctx fun user => updateUser svc req.draws user userID patch)

def handleCreateMaintenance : MasterProcess Response :=
  match svc.bindMaintenance req.body with
  | none => return fail ctx (.other "")
  | some body =>
    respond ctx 201 .window (createMaintenance req.draws ctx.principalFromContext body)

def handleAckAlert (param : String) : MasterProcess Response :=
  if trimSpace param = "" then return fail ctx (.other "invalid alert ack path")
  else if !svc.bindAck req.body then return fail ctx (.other "")
  else respond ctx 200 (fun _ => .acknowledged)
    (ackAlert req.draws ctx.principalFromContext (trimSpace param))

def handleAllocateInstallTenant : MasterProcess Response :=
  respond ctx 200 .allocated (allocateInstallTenant req.draws)

def handleRegisterAgent : MasterProcess Response :=
  match svc.bindRegister req.body with
  | none => return fail ctx (.other "")
  | some body => respond ctx 200 (fun r => .registered r.1.hostUID r.2.2 r.2.1)
      (registerAgent req.draws body)

def handleListShares : MasterProcess Response :=
  respond ctx 200 .shares (listShares svc ctx.principalFromContext)

def handleCreateShare : MasterProcess Response :=
  match bindAuthJSON req ctx svc.bindShare with
  | .error response => return response
  | .ok body => respond ctx 201 (fun r => .createdShare r.1 r.2)
      (createShare svc req.draws ctx.principalFromContext body)

def handleRevokeShare (param : String) : MasterProcess Response :=
  respond ctx 204 (fun _ => .empty)
    (revokeShare svc req.draws ctx.principalFromContext (trimSpace param))

def handleExchangeShare : MasterProcess Response :=
  match bindAuthJSON req ctx svc.bindToken with
  | .error response => return response
  | .ok token => do
    match ← exchangeShare svc req.draws token with
    | .error e => return fail ctx e
    | .ok session =>
      return reply ctx 200 (.exchanged session.expiresAt session.principal.fields)
        (some (.share session.token session.expiresAt))

def handleShareInfo : Response :=
  let p := ctx.principalFromContext
  reply ctx 200 (.shareInfo p.kind p.fields p.allowedHosts.length)

def reads (what : HostRead) : Response := reply ctx 200 (.reads what ctx.principalFromContext)

def Endpoint.run (param : String) : Endpoint → MasterProcess Response
  | .health => return reply ctx 200 .health
  | .setup => handleSetup svc req ctx
  | .setupStatus => handleSetupStatus svc ctx
  | .login => handleLogin svc req ctx
  | .csrf => return reply ctx 200 (.csrf (svc.csrfToken req.sessionCookie))
  | .session => handleSession svc req ctx
  | .logout => handleLogout svc req ctx
  | .allocateInstallTenant => handleAllocateInstallTenant req ctx
  | .registerAgent => handleRegisterAgent svc req ctx
  | .hostStream => return reads ctx .stream
  | .listHosts => return reads ctx .list
  | .latestMetricSnapshot => return reads ctx (.latest param)
  | .getHost => return reads ctx (.host param)
  | .exchangeShare => handleExchangeShare svc req ctx
  | .shareInfo => return handleShareInfo ctx
  | .publicLatestMetrics => return reads ctx (.publicLatest param)
  | .createMaintenance => handleCreateMaintenance svc req ctx
  | .ackAlert => handleAckAlert svc req ctx param
  | .listShares => handleListShares svc ctx
  | .createShare => handleCreateShare svc req ctx
  | .revokeShare => handleRevokeShare svc req ctx param
  | .listUsers => handleListUsers svc ctx
  | .updateUser => handleUpdateUser svc req ctx param

end Handlers

inductive Segment
  | word (s : String)
  | param
  deriving DecidableEq

structure Route where
  method : String
  pattern : List Segment
  chain : List Middleware
  endpoint : Endpoint
  deriving DecidableEq

/-- The value of the parameter, if the pattern matches; no pattern has two of them. -/
def matchPath : List Segment → List String → Option String
  | [], [] => some ""
  | .word s :: pattern, x :: path => if s = x then matchPath pattern path else none
  | .param :: pattern, x :: path => if x = "" then none else (matchPath pattern path).map fun _ => x
  | _, _ => none

def words (s : List String) : List Segment := s.map .word

/-- The routes of a group, under its path and after its middleware. -/
def group (path : List String) (chain : List Middleware)
    (routes : List (String × List Segment × List Middleware × Endpoint)) : List Route :=
  routes.map fun r => ⟨r.1, words path ++ r.2.1, chain ++ r.2.2.1, r.2.2.2⟩

def hostPattern : List Segment := [.word "hosts", .param]

def latestPattern : List Segment := hostPattern ++ words ["metrics", "latest"]

def routes : List Route :=
  group ["master"] [] [("GET", words ["healthz"], [], .health)] ++
  group ["master", "api", "v1", "auth"] [.allowedOrigin] [
    ("POST", words ["setup"], [.authWork], .setup),
    ("GET", words ["setup-status"], [], .setupStatus),
    ("POST", words ["login"], [.authWork], .login),
    ("GET", words ["csrf"], [.session], .csrf),
    ("GET", words ["session"], [], .session),
    ("POST", words ["logout"], [.session, .csrf], .logout)] ++
  group ["master", "api", "v1"] [] [
    ("POST", words ["install", "tenant"], [], .allocateInstallTenant),
    ("POST", words ["agents", "register"], [], .registerAgent)] ++
  group ["master", "api", "v1"] [.session] [
    ("GET", words ["stream", "hosts"], [], .hostStream),
    ("GET", words ["hosts"], [], .listHosts),
    ("GET", latestPattern, [], .latestMetricSnapshot),
    ("GET", hostPattern, [], .getHost)] ++
  group ["master", "api", "v1", "public", "shares"] [.allowedOrigin] [
    ("POST", words ["exchange"], [.authWork], .exchangeShare)] ++
  group ["master", "api", "v1", "public", "shares"] [.allowedOrigin, .share] [
    ("GET", words ["session"], [], .shareInfo),
    ("GET", words ["hosts"], [], .listHosts),
    ("GET", hostPattern, [], .getHost),
    ("GET", latestPattern, [], .publicLatestMetrics),
    ("GET", words ["stream", "hosts"], [], .hostStream)] ++
  group ["master", "api", "v1", "public", "demo"] [.demo] [
    ("GET", words ["session"], [], .shareInfo),
    ("GET", words ["hosts"], [], .listHosts),
    ("GET", hostPattern, [], .getHost),
    ("GET", latestPattern, [], .publicLatestMetrics),
    ("GET", words ["stream", "hosts"], [], .hostStream)] ++
  group ["master", "api", "v1"] [.session, .allowedOrigin, .csrf] [
    ("POST", words ["ops", "maintenance"], [], .createMaintenance),
    ("POST", words ["ops", "alerts"] ++ [.param] ++ words ["ack"], [], .ackAlert),
    ("GET", words ["shares"], [.admin], .listShares),
    ("POST", words ["shares"], [.admin], .createShare),
    ("DELETE", words ["shares"] ++ [.param], [.admin], .revokeShare)] ++
  group ["master", "api", "v1", "admin"] [.session, .allowedOrigin, .csrf, .admin] [
    ("GET", words ["users"], [], .listUsers),
    ("PATCH", words ["users"] ++ [.param], [], .updateUser)]

/-- The route of a request, with the value of its parameter. -/
def route (req : Request) : Option (Route × String) :=
  routes.findSome? fun r =>
    if r.method = req.method then (matchPath r.pattern req.path).map fun param => (r, param)
    else none

/-- A path that only other methods know is answered with 405. -/
def noRoute (req : Request) : Response :=
  { status := if routes.any fun r => (matchPath r.pattern req.path).isSome then 405 else 404
    payload := .empty }

def serve (svc : MasterService) (req : Request) : MasterProcess Response :=
  match route req with
  | none => return noRoute req
  | some (r, param) => do
    match ← runChain svc req r.chain {} with
    | .error response => return response
    | .ok ctx => r.endpoint.run svc req ctx param

end MasterServer
end Gaoming
