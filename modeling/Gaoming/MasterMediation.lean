import Gaoming.MasterServer

/-!
# Every database call of the master is authorised

The policy `Allowed` says, for each kind of call, what the request that makes it must
have shown before: a live session of an active user, the CSRF token of that very
session, an allowed origin, the role of an administrator, a verified password or the
setup token. It is judged from the request and the trail of its earlier calls alone.
-/

namespace Gaoming
namespace MasterServer
open Transaction

abbrev MasterTrail := Trail MasterCall MasterError MasterReply

/-- A call of the trail succeeded with this reply. -/
def Answered (tr : MasterTrail) (c : MasterCall) (r : MasterReply) : Prop :=
  ∃ x ∈ tr, x.call = c ∧ x.outcome = .ok r

theorem Answered.append {tr : MasterTrail} {c : MasterCall} {r : MasterReply}
    (h : Answered tr c r) (more : MasterTrail) : Answered (tr ++ more) c r := by
  obtain ⟨x, hx, hcall⟩ := h
  exact ⟨x, List.mem_append_left _ hx, hcall⟩

theorem answered_concat (tr : MasterTrail) (c : MasterCall) (r : MasterReply) (began ended : ℕ) :
    Answered (tr ++ [⟨c, .ok r, began, ended⟩]) c r :=
  ⟨_, List.mem_append_right _ (List.mem_singleton_self _), rfl, rfl⟩

section Evidence
variable (svc : MasterService) (req : Request)

/-- The session cookie was found to belong to the user, by calls of the trail. -/
structure Resolved (tr : MasterTrail) (user : User) : Prop where
  configured : svc.authStore = true
  token : svc.hashToken req.sessionCookie ≠ ""
  found : ∃ session row tenant,
    Answered tr (.findSession (svc.hashToken req.sessionCookie)) (.session (some session)) ∧
    req.draws.resolvedAt < session.expiresAt ∧
    Answered tr (.joinUser session.userID) (.joined (some (row, tenant))) ∧
    row.status = "active" ∧ user = toUser row tenant.tenantCode none

structure SignedIn (tr : MasterTrail) (user : User) : Prop where
  resolved : Resolved svc req tr user
  tenant : user.tenantCode ≠ ""
  sameTenant : otherTenant req user.tenantCode = false

/-- The share cookie was found to belong to the principal. -/
def SharedWith (tr : MasterTrail) (p : Principal) : Prop :=
  ∃ row tenantCode,
    Answered tr (.liveShare (tokenHash svc.sha256 req.shareCookie) req.draws.resolvedAt)
      (.share row tenantCode) ∧
    Answered tr (.sharePrincipal row tenantCode) (.principal p) ∧
    otherTenant req p.tenantCode = false

def DemoAllowed (tr : MasterTrail) (p : Principal) : Prop :=
  svc.demo = some p ∧ p.kind = .demo ∧ Answered tr (.validateDemo p) .done ∧
    otherTenant req p.tenantCode = false

/-- The request was not forged by another site. -/
structure Intended : Prop where
  cookie : req.sessionCookie ≠ ""
  csrf : req.csrf = svc.csrfToken req.sessionCookie
  origin : svc.allowedOrigins = [] ∨ req.origin ∈ svc.allowedOrigins

def userPrincipal (user : User) : Principal :=
  { kind := .user, tenantCode := user.tenantCode, userID := user.id, role := user.role }

/-- The principal is the signed-in user of the request. -/
def ActsFor (tr : MasterTrail) (p : Principal) : Prop :=
  ∃ user, SignedIn svc req tr user ∧ p = userPrincipal user

def AdminActs (tr : MasterTrail) (p : Principal) : Prop := ActsFor svc req tr p ∧ p.isAdmin = true

def ByPassword (tr : MasterTrail) (user : User) : Prop :=
  ∃ body stored, svc.bindLogin req.body = some body ∧
    Answered tr (.localCredentials (trimSpace body.tenantCode)
      (svc.toLower (trimSpace body.username))) (.credentials (some (user, stored))) ∧
    verifyPassword svc stored body.password = true ∧ user.status = "active"

def SetupTokenShown : Prop :=
  32 ≤ svc.setupToken.utf8ByteSize ∧ ∃ body,
    svc.bindSetup req.body = some body ∧ svc.sha256 body.setupToken = svc.sha256 svc.setupToken

/-- The user is the first administrator, whom this request has set up. -/
def BySetup (tr : MasterTrail) (user : User) : Prop :=
  SetupTokenShown svc req ∧ ∃ account,
    Answered tr (.bootstrapAdmin req.draws.account account req.draws.now) (.user user)

def Proved (tr : MasterTrail) (user : User) : Prop :=
  ByPassword svc req tr user ∨ BySetup svc req tr user

def openCall (user : User) (token : String) : MasterCall :=
  .control (.createSession req.draws.account user.id (svc.hashToken token)
    (req.draws.now + sessionTTL svc) "" "" req.draws.now)

def Opened (tr : MasterTrail) (user : User) (token : String) : Prop :=
  req.draws.token = some token ∧ Answered tr (openCall svc req user token) (.control .done)

/-- The policy. Looking things up, exchanging the token of a share, registering an agent and
asking for a tenant are open to anybody. -/
def Allowed (tr : MasterTrail) : MasterCall → Prop
  | .control (.createMaintenance _ _ p _) => AdminActs svc req tr p ∧ Intended svc req
  | .control (.ackAlert p _ _) => ActsFor svc req tr p ∧ Intended svc req
  | .control (.createShare _ p _ _ _) => AdminActs svc req tr p ∧ Intended svc req
  | .control (.revokeShare p _ _) => AdminActs svc req tr p ∧ Intended svc req
  | .control (.updateUser _ tenantCode _ _) => Intended svc req ∧
    ∃ user, SignedIn svc req tr user ∧ user.role = "admin" ∧ tenantCode = user.tenantCode
  | .control (.createSession d userID hash expiresAt ip agent now) =>
    ∃ user token, Proved svc req tr user ∧ req.draws.token = some token ∧
      MasterCall.control (.createSession d userID hash expiresAt ip agent now) =
        openCall svc req user token
  | .control (.setTenantStatus ..) => False
  | .deleteSession hash =>
    (hash = svc.hashToken req.sessionCookie ∧ Intended svc req ∧ ∃ user, SignedIn svc req tr user) ∨
    ∃ user token, ByPassword svc req tr user ∧ Opened svc req tr user token ∧
      (hash = svc.hashToken req.sessionCookie ∨ hash = svc.hashToken token)
  | .bootstrapAdmin .. => SetupTokenShown svc req
  | .listUsers tenantCode =>
    ∃ user, SignedIn svc req tr user ∧ user.role = "admin" ∧ tenantCode = user.tenantCode
  | .listShares p => AdminActs svc req tr p
  | .sharePrincipal row tenantCode =>
    Answered tr (.liveShare (tokenHash svc.sha256 req.shareCookie) req.draws.resolvedAt)
      (.share row tenantCode)
  | .touchSession id _ => ∃ session, session.id = id ∧
    Answered tr (.findSession (svc.hashToken req.sessionCookie)) (.session (some session))
  | _ => True

/-- What an answer may show: nothing that no call of the trail has answered, and to nobody
whom the trail has not told to be entitled to it. -/
def Shown (tr : MasterTrail) (noStore : Bool) : Payload → Prop
  | .session (some user) => Resolved svc req tr user ∨
    ∃ token, Proved svc req tr user ∧ Opened svc req tr user token
  | .csrf token => token = svc.csrfToken req.sessionCookie ∧ ∃ user, SignedIn svc req tr user
  | .users items => ∃ user, SignedIn svc req tr user ∧ user.role = "admin" ∧
    Answered tr (.listUsers user.tenantCode) (.users items)
  | .user u => ∃ user userID patch, SignedIn svc req tr user ∧ user.role = "admin" ∧
    Answered tr (.control (.updateUser req.draws.account user.tenantCode userID patch))
      (.control (.user u))
  | .window w => ∃ p body, AdminActs svc req tr p ∧
    Answered tr
      (.control (.createMaintenance req.draws.maintenanceID req.draws.account.clock p body))
      (.control (.window w))
  | .acknowledged => ∃ p alertID, ActsFor svc req tr p ∧
    Answered tr (.control (.ackAlert p alertID req.draws.now)) (.control .done)
  | .createdShare record token => ∃ p body, AdminActs svc req tr p ∧ req.draws.token = some token ∧
    Answered tr (.control (.createShare req.draws.share p body (tokenHash svc.sha256 token)
      req.draws.now)) (.control (.share record))
  | .shares items => ∃ p, AdminActs svc req tr p ∧ Answered tr (.listShares p) (.shares items)
  | .exchanged expiresAt fields => ∃ token session,
    Answered tr (.exchangeShare req.draws.share token req.draws.now) (.shareSession session) ∧
      expiresAt = session.expiresAt ∧ fields = session.principal.fields
  | .shareInfo mode fields hostCount => noStore = true ∧ ∃ p,
    (SharedWith svc req tr p ∨ DemoAllowed svc req tr p) ∧ mode = p.kind ∧ fields = p.fields ∧
      hostCount = p.allowedHosts.length
  | .allocated tenantCode => Answered tr (.allocateTenant req.draws.agent) (.tenant tenantCode)
  | .registered hostUID tenantCode cfg => ∃ body snapshot, svc.bindRegister req.body = some body ∧
    Answered tr (.registerAgent req.draws.agent body req.draws.now)
      (.registered snapshot cfg tenantCode) ∧ hostUID = snapshot.hostUID
  | .reads _ p => noStore = true ∧
    (ActsFor svc req tr p ∨ SharedWith svc req tr p ∨ DemoAllowed svc req tr p)
  | _ => True

/-- What a cookie stands for. A login, unlike the setup, has ended the session of the cookie
that it replaces. -/
def Granted (tr : MasterTrail) (response : Response) : Cookie → Prop
  | .session token _ => ∃ user, response.payload = .session (some user) ∧
    Opened svc req tr user token ∧
    (response.status = 200 ∧ ByPassword svc req tr user ∧
      (req.sessionCookie ≠ "" → svc.hashToken req.sessionCookie ≠ "" →
        Answered tr (.deleteSession (svc.hashToken req.sessionCookie)) .done) ∨
     response.status = 201 ∧ BySetup svc req tr user)
  | .clearSession => Answered tr (.deleteSession (svc.hashToken req.sessionCookie)) .done
  | .share token expiresAt => ∃ raw session,
    Answered tr (.exchangeShare req.draws.share raw req.draws.now) (.shareSession session) ∧
      token = session.token ∧ expiresAt = session.expiresAt

structure Discloses (tr : MasterTrail) (response : Response) : Prop where
  payload : Shown svc req tr response.noStore response.payload
  cookie : ∀ c ∈ response.cookie, Granted svc req tr response c

end Evidence

section Monotone
variable {svc : MasterService} {req : Request} {tr tr' : MasterTrail} {user : User} {p : Principal}

theorem Answered.mono {c : MasterCall} {r : MasterReply} (h : Answered tr c r) (htr : tr <+: tr') :
    Answered tr' c r := by
  obtain ⟨more, rfl⟩ := htr
  exact h.append more

theorem Resolved.mono (h : Resolved svc req tr user) (htr : tr <+: tr') :
    Resolved svc req tr' user := by
  obtain ⟨session, row, tenant, hfind, hexp, hjoin, hrest⟩ := h.found
  exact ⟨h.configured, h.token, session, row, tenant, hfind.mono htr, hexp, hjoin.mono htr, hrest⟩

theorem SignedIn.mono (h : SignedIn svc req tr user) (htr : tr <+: tr') :
    SignedIn svc req tr' user := ⟨h.resolved.mono htr, h.tenant, h.sameTenant⟩

theorem ActsFor.mono (h : ActsFor svc req tr p) (htr : tr <+: tr') : ActsFor svc req tr' p := by
  obtain ⟨user, hu, hp⟩ := h
  exact ⟨user, hu.mono htr, hp⟩

theorem AdminActs.mono (h : AdminActs svc req tr p) (htr : tr <+: tr') :
    AdminActs svc req tr' p := ⟨h.1.mono htr, h.2⟩

theorem SharedWith.mono (h : SharedWith svc req tr p) (htr : tr <+: tr') :
    SharedWith svc req tr' p := by
  obtain ⟨row, tenantCode, hlive, hp, htenant⟩ := h
  exact ⟨row, tenantCode, hlive.mono htr, hp.mono htr, htenant⟩

theorem DemoAllowed.mono (h : DemoAllowed svc req tr p) (htr : tr <+: tr') :
    DemoAllowed svc req tr' p := by
  obtain ⟨hdemo, hkind, hp, htenant⟩ := h
  exact ⟨hdemo, hkind, hp.mono htr, htenant⟩

theorem ByPassword.mono (h : ByPassword svc req tr user) (htr : tr <+: tr') :
    ByPassword svc req tr' user := by
  obtain ⟨body, stored, hbody, hcreds, hrest⟩ := h
  exact ⟨body, stored, hbody, hcreds.mono htr, hrest⟩

theorem BySetup.mono (h : BySetup svc req tr user) (htr : tr <+: tr') :
    BySetup svc req tr' user := by
  obtain ⟨hshown, account, hadmin⟩ := h
  exact ⟨hshown, account, hadmin.mono htr⟩

theorem Opened.mono {token : String} (h : Opened svc req tr user token) (htr : tr <+: tr') :
    Opened svc req tr' user token := ⟨h.1, h.2.mono htr⟩

end Monotone

section Asking
variable {guard : MasterTrail → MasterCall → Prop} {tr : MasterTrail} {α : Type}

theorem keeps_ask {c : MasterCall} {reader : Reader α}
    {post : MasterTrail → Outcome MasterError α → Prop} (hguard : guard tr c)
    (herr : ∀ tr' e, post tr' (.error e))
    (hok : ∀ a began ended, post (tr ++ [⟨c, .ok (reader.write a), began, ended⟩]) (.ok a)) :
    (ask c reader).Keeps guard post tr := by
  refine .call hguard fun o began ended => ?_
  cases o with
  | error e => exact .done (herr _ e)
  | ok r =>
    dsimp only
    cases hr : reader.read r with
    | some a =>
      rw [reader.read_eq r a hr]
      exact .done (hok a began ended)
    | none => exact .done (herr _ none)

end Asking

/-- A failure owes nothing. -/
def OnOk {ε α : Type} (P : MasterTrail → α → Prop) (tr : MasterTrail) : Except ε α → Prop
  | .ok a => P tr a
  | .error _ => True

/-- An answer that ends the request early shows nothing. -/
def OrRefused (svc : MasterService) (req : Request) {α : Type} (P : MasterTrail → α → Prop)
    (tr : MasterTrail) : Except Response α → Prop
  | .ok a => P tr a
  | .error response => Discloses svc req tr response

theorem discloses_writeError {svc : MasterService} {req : Request} {tr : MasterTrail}
    (noStore : Bool) (e : Failure) : Discloses svc req tr (writeError noStore e) := by
  cases e <;> exact ⟨trivial, fun _ hc => by cases hc⟩

theorem discloses_plainError {svc : MasterService} {req : Request} {tr : MasterTrail} {status : ℕ}
    {message : String} {noStore : Bool} :
    Discloses svc req tr (plainError status message noStore) :=
  ⟨trivial, fun _ hc => by cases hc⟩

section Middleware
variable {svc : MasterService} {req : Request} {tr : MasterTrail} {ctx : Ctx}

theorem resolve_keeps : (resolveSessionUser svc req.sessionCookie req.draws.resolvedAt).Keeps
    (Allowed svc req) (OnOk fun tr found => ∀ x ∈ found, Resolved svc req tr x.1) tr := by
  have hnone : ∀ tr', OnOk (ε := Option MasterError)
      (fun tr (found : Option (User × SessionRecord)) => ∀ x ∈ found, Resolved svc req tr x.1)
      tr' (.ok none) := fun _ _ h => by cases h
  refine Process.keeps_ite (fun _ => .done (hnone tr)) fun hstore => ?_
  refine Process.keeps_ite (fun _ => .done (hnone tr)) fun htoken => ?_
  refine Process.keeps_bind (keeps_ask trivial (fun _ _ => .done trivial) ?_)
  intro found b₁ e₁
  cases found with
  | none => exact .done (hnone _)
  | some session =>
    refine Process.keeps_ite (fun _ => .done (hnone _)) fun hexp => ?_
    refine Process.keeps_bind (keeps_ask trivial (fun _ _ => .done trivial) ?_)
    intro found b₂ e₂
    cases found with
    | none => exact .done (hnone _)
    | some joined =>
      obtain ⟨row, tenant⟩ := joined
      refine Process.keeps_ite (fun _ => .done (hnone _)) fun hactive => ?_
      have hsession := answered_concat tr (.findSession (svc.hashToken req.sessionCookie))
        (.session (some session)) b₁ e₁
      refine Process.keeps_bind (keeps_ask ⟨session, rfl, hsession.append _⟩
        (fun _ _ => .done trivial) ?_)
      intro _ b₃ e₃
      refine .done fun x hx => ?_
      cases hx
      have hjoin := answered_concat (tr ++ [⟨.findSession (svc.hashToken req.sessionCookie),
        .ok (.session (some session)), b₁, e₁⟩]) (.joinUser session.userID)
        (.joined (some (row, tenant))) b₂ e₂
      exact ⟨by simpa using hstore, htoken, session, row, tenant, (hsession.append _).append _,
        not_le.mp hexp, hjoin.append _, not_not.mp hactive, rfl⟩

theorem requireSession_keeps : (requireSession svc req ctx).Keeps (Allowed svc req)
    (OrRefused svc req fun tr ctx' => ∃ user,
      ctx' = { ctx with user := some user, noStore := true } ∧
      SignedIn svc req tr user) tr := by
  refine Process.keeps_bind (resolve_keeps.mono fun tr' o h => ?_)
  cases o with
  | error e => exact .done (discloses_writeError _ _)
  | ok found =>
    cases found with
    | none => exact .done (discloses_writeError _ _)
    | some x =>
      obtain ⟨user, record⟩ := x
      refine Process.keeps_ite (fun _ => .done (discloses_writeError _ _)) fun hvalid => ?_
      refine Process.keeps_ite (fun _ => .done (discloses_writeError _ _)) fun htenant => ?_
      simp only [Bool.or_eq_true, decide_eq_true_eq, not_or] at hvalid
      exact .done ⟨user, rfl, h _ rfl, hvalid.1.2, by simpa using htenant⟩

theorem requireShare_keeps : (requireShare svc req ctx).Keeps (Allowed svc req)
    (OrRefused svc req fun tr ctx' => ∃ p,
      ctx' = { ctx with principal := some p, noStore := true } ∧
      SharedWith svc req tr p) tr := by
  have hauth : (authenticateShareSession svc req.shareCookie req.draws.resolvedAt).Keeps
      (Allowed svc req) (OnOk fun tr p => ∃ row tenantCode,
        Answered tr (.liveShare (tokenHash svc.sha256 req.shareCookie) req.draws.resolvedAt)
          (.share row tenantCode) ∧
        Answered tr (.sharePrincipal row tenantCode) (.principal p)) tr := by
    refine Process.keeps_ite (fun _ => .done trivial) fun _ => ?_
    refine Process.keeps_ite (fun _ => .done trivial) fun _ => ?_
    refine Process.keeps_bind (keeps_ask trivial (fun _ _ => .done trivial) ?_)
    rintro ⟨row, tenantCode⟩ b₁ e₁
    have hlive := answered_concat tr
      (.liveShare (tokenHash svc.sha256 req.shareCookie) req.draws.resolvedAt)
      (.share row tenantCode) b₁ e₁
    refine Process.keeps_bind (keeps_ask hlive (fun _ _ => .done trivial) ?_)
    intro p b₂ e₂
    exact .done ⟨row, tenantCode, hlive.append _, answered_concat _ _ _ _ _⟩
  refine Process.keeps_bind (hauth.mono fun tr' o h => ?_)
  cases o with
  | error e => exact .done (discloses_writeError _ _)
  | ok p =>
    obtain ⟨row, tenantCode, hlive, hp⟩ := h
    refine Process.keeps_ite (fun _ => .done (discloses_writeError _ _)) fun htenant => ?_
    exact .done ⟨p, rfl, row, tenantCode, hlive, hp, by simpa using htenant⟩

theorem requireDemo_keeps : (requireDemo svc req ctx).Keeps (Allowed svc req)
    (OrRefused svc req fun tr ctx' => ∃ p,
      ctx' = { ctx with principal := some p, noStore := true } ∧
      DemoAllowed svc req tr p) tr := by
  have hauth : (demoPrincipal svc).Keeps (Allowed svc req) (OnOk fun tr p =>
      svc.demo = some p ∧ p.kind = .demo ∧ Answered tr (.validateDemo p) .done) tr := by
    unfold demoPrincipal
    split
    · exact .done trivial
    · rename_i demo hdemo
      refine Process.keeps_ite (fun _ => .done trivial) fun hkind => ?_
      refine Process.keeps_ite (fun _ => .done trivial) fun _ => ?_
      refine Process.keeps_bind (keeps_ask trivial (fun _ _ => .done trivial) ?_)
      intro _ b e
      simp only [Bool.or_eq_true, decide_eq_true_eq, not_or, not_not] at hkind
      exact .done ⟨hdemo, hkind.1.1.1, answered_concat _ _ _ _ _⟩
  refine Process.keeps_bind (hauth.mono fun tr' o h => ?_)
  cases o with
  | error e => exact .done (discloses_writeError _ _)
  | ok p =>
    obtain ⟨hdemo, hkind, hp⟩ := h
    refine Process.keeps_ite (fun _ => .done (discloses_writeError _ _)) fun htenant => ?_
    exact .done ⟨p, rfl, hdemo, hkind, hp, by simpa using htenant⟩

end Middleware

section Chains
variable {svc : MasterService} {req : Request} {tr : MasterTrail} {ctx : Ctx}

/-- What the middleware that has run has established. -/
structure Vetted (svc : MasterService) (req : Request) (chain : List Middleware)
    (tr : MasterTrail) (ctx : Ctx) : Prop where
  user : ∀ u ∈ ctx.user, SignedIn svc req tr u
  signed : .session ∈ chain → ctx.user.isSome
  csrf : .csrf ∈ chain → readMethod req.method = false →
    req.sessionCookie ≠ "" ∧ req.csrf = svc.csrfToken req.sessionCookie
  origin : .allowedOrigin ∈ chain → readMethod req.method = false →
    svc.allowedOrigins = [] ∨ req.origin ∈ svc.allowedOrigins
  admin : .admin ∈ chain → ∃ u ∈ ctx.user, u.role = "admin"
  principal : ∀ p ∈ ctx.principal, SharedWith svc req tr p ∨ DemoAllowed svc req tr p
  own : .share ∉ chain → .demo ∉ chain → ctx.principal = none
  noStore : (.session ∈ chain ∨ .share ∈ chain ∨ .demo ∈ chain) → ctx.noStore = true
  reader : (.share ∈ chain ∨ .demo ∈ chain) → ctx.principal.isSome

theorem vetted_nil : Vetted svc req [] tr {} where
  user := by simp
  signed := by simp
  csrf := by simp
  origin := by simp
  admin := by simp
  principal := by simp
  own := by simp
  noStore := by simp
  reader := by simp

theorem Vetted.mono {done : List Middleware} (h : Vetted svc req done tr ctx)
    {tr' : MasterTrail} (htr : tr <+: tr') : Vetted svc req done tr' ctx :=
  { h with
    user := fun u hu => (h.user u hu).mono htr
    principal := fun p hp => (h.principal p hp).imp (·.mono htr) (·.mono htr) }

theorem Vetted.session {done : List Middleware} (h : Vetted svc req done tr ctx) {user : User}
    (hadmin : .admin ∉ done) (hu : SignedIn svc req tr user) :
    Vetted svc req (done ++ [.session]) tr { ctx with user := some user, noStore := true } where
  user := by
    intro u hmem
    cases hmem
    exact hu
  signed := fun _ => rfl
  csrf := fun hm => h.csrf (by simpa using hm)
  origin := fun hm => h.origin (by simpa using hm)
  admin := fun hm => absurd (by simpa using hm) hadmin
  principal := h.principal
  own := fun hs hd => h.own (by simpa using hs) (by simpa using hd)
  noStore := fun _ => rfl
  reader := fun hm => h.reader (by simpa using hm)

theorem Vetted.principalSet {done : List Middleware} {m : Middleware}
    (h : Vetted svc req done tr ctx) {p : Principal} (hm : m = .share ∨ m = .demo)
    (hp : SharedWith svc req tr p ∨ DemoAllowed svc req tr p) :
    Vetted svc req (done ++ [m]) tr { ctx with principal := some p, noStore := true } where
  user := h.user
  signed := by rcases hm with rfl | rfl <;> simpa using h.signed
  csrf := by rcases hm with rfl | rfl <;> simpa using h.csrf
  origin := by rcases hm with rfl | rfl <;> simpa using h.origin
  admin := by rcases hm with rfl | rfl <;> simpa using h.admin
  principal := by
    intro q hq
    cases hq
    exact hp
  own := by rcases hm with rfl | rfl <;> simp
  noStore := fun _ => rfl
  reader := fun _ => rfl

theorem Vetted.checked {done : List Middleware} {m : Middleware} {noStore : Bool}
    (h : Vetted svc req done tr ctx)
    (hm : m = .allowedOrigin ∨ m = .authWork ∨ m = .csrf ∨ m = .admin)
    (hno : ctx.noStore = true → noStore = true)
    (hcsrf : m = .csrf → readMethod req.method = false →
      req.sessionCookie ≠ "" ∧ req.csrf = svc.csrfToken req.sessionCookie)
    (horigin : m = .allowedOrigin → readMethod req.method = false →
      svc.allowedOrigins = [] ∨ req.origin ∈ svc.allowedOrigins)
    (hadmin : m = .admin → ∃ u ∈ ctx.user, u.role = "admin") :
    Vetted svc req (done ++ [m]) tr { ctx with noStore := noStore } where
  user := h.user
  signed := by rcases hm with rfl | rfl | rfl | rfl <;> simpa using h.signed
  csrf := by
    intro hmem
    rcases List.mem_append.mp hmem with hmem | hmem
    · exact h.csrf hmem
    · exact hcsrf (List.mem_singleton.mp hmem).symm
  origin := by
    intro hmem
    rcases List.mem_append.mp hmem with hmem | hmem
    · exact h.origin hmem
    · exact horigin (List.mem_singleton.mp hmem).symm
  admin := by
    intro hmem
    rcases List.mem_append.mp hmem with hmem | hmem
    · exact h.admin hmem
    · exact hadmin (List.mem_singleton.mp hmem).symm
  principal := h.principal
  own := fun hs hd => h.own (fun hmem => hs (List.mem_append_left _ hmem))
    (fun hmem => hd (List.mem_append_left _ hmem))
  noStore := by
    intro hmem
    refine hno (h.noStore ?_)
    rcases hm with rfl | rfl | rfl | rfl <;> simpa using hmem
  reader := by rcases hm with rfl | rfl | rfl | rfl <;> simpa using h.reader

theorem middleware_keeps {done : List Middleware} {m : Middleware}
    (h : Vetted svc req done tr ctx) (hm : m = .session → .admin ∉ done) :
    (m.run svc req ctx).Keeps (Allowed svc req)
      (OrRefused svc req fun tr ctx => Vetted svc req (done ++ [m]) tr ctx) tr := by
  cases m with
  | allowedOrigin =>
    refine .done ?_
    have hok : (readMethod req.method = false →
        svc.allowedOrigins = [] ∨ req.origin ∈ svc.allowedOrigins) →
        Vetted svc req (done ++ [.allowedOrigin]) tr { ctx with noStore := true } := fun horigin =>
      h.checked (.inl rfl) (fun _ => rfl) (fun h => by cases h) (fun _ => horigin)
        fun h => by cases h
    unfold requireAllowedOrigin
    split_ifs with hread hempty hmem
    · exact hok fun hno => by simp [hread] at hno
    · exact hok fun _ => .inl (List.isEmpty_iff.mp hempty)
    · exact hok fun _ => .inr (by simpa using hmem)
    · exact discloses_plainError
  | authWork =>
    refine .done ?_
    unfold limitAuthWork
    split
    · exact h.checked (.inr (.inl rfl)) id (fun h => by cases h) (fun h => by cases h)
        fun h => by cases h
    · exact discloses_plainError
    · exact discloses_plainError
  | session =>
    refine requireSession_keeps.grows.mono fun tr' o ho => ?_
    obtain ⟨htr, ho⟩ := ho
    cases o with
    | error e => exact ho
    | ok ctx' =>
      obtain ⟨user, rfl, hu⟩ := ho
      exact (h.mono htr).session (hm rfl) hu
  | csrf =>
    refine .done ?_
    unfold requireCSRF
    split_ifs with hread hbad
    · exact h.checked (.inr (.inr (.inl rfl))) id (fun _ hno => by simp [hread] at hno)
        (fun h => by cases h) fun h => by cases h
    · exact discloses_plainError
    · simp only [Bool.or_eq_true, decide_eq_true_eq, not_or, not_not] at hbad
      exact h.checked (.inr (.inr (.inl rfl))) id (fun _ _ => hbad) (fun h => by cases h)
        fun h => by cases h
  | share =>
    refine requireShare_keeps.grows.mono fun tr' o ho => ?_
    obtain ⟨htr, ho⟩ := ho
    cases o with
    | error e => exact ho
    | ok ctx' =>
      obtain ⟨p, rfl, hp⟩ := ho
      exact (h.mono htr).principalSet (.inl rfl) (.inl hp)
  | demo =>
    refine requireDemo_keeps.grows.mono fun tr' o ho => ?_
    obtain ⟨htr, ho⟩ := ho
    cases o with
    | error e => exact ho
    | ok ctx' =>
      obtain ⟨p, rfl, hp⟩ := ho
      exact (h.mono htr).principalSet (.inr rfl) (.inr hp)
  | admin =>
    refine .done ?_
    unfold requireAdmin
    split_ifs with hrole
    · exact discloses_writeError _ _
    · refine h.checked (.inr (.inr (.inr rfl))) id (fun h => by cases h) (fun h => by cases h)
        fun _ => ?_
      cases hu : ctx.user with
      | none => simp [hu] at hrole
      | some u => exact ⟨u, rfl, by simpa [hu] using hrole⟩

/-- No session is looked up again after the check of the role. -/
def Ordered (chain : List Middleware) : Prop :=
  chain.Pairwise fun a b => ¬(a = .admin ∧ b = .session)

instance (chain : List Middleware) : Decidable (Ordered chain) :=
  inferInstanceAs (Decidable (List.Pairwise _ chain))

theorem runChain_keeps {chain : List Middleware} {done : List Middleware}
    (h : Vetted svc req done tr ctx) (hord : Ordered (done ++ chain)) :
    (runChain svc req chain ctx).Keeps (Allowed svc req)
      (OrRefused svc req fun tr ctx => Vetted svc req (done ++ chain) tr ctx) tr := by
  induction chain generalizing done tr ctx with
  | nil =>
    rw [List.append_nil]
    exact .done h
  | cons m chain ih =>
    have hm : m = .session → .admin ∉ done := by
      rintro rfl hmem
      exact (List.pairwise_append.mp hord).2.2 _ hmem _ (List.mem_cons_self ..) ⟨rfl, rfl⟩
    refine Process.keeps_bind ((middleware_keeps h hm).mono fun tr' o ho => ?_)
    cases o with
    | error response => exact .done ho
    | ok ctx' =>
      have hsplit : done ++ m :: chain = (done ++ [m]) ++ chain := by simp
      rw [hsplit] at hord ⊢
      exact ih ho hord

end Chains

end MasterServer
end Gaoming
