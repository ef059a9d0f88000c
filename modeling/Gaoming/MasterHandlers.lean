import Gaoming.MasterMediation

/-!
# The handlers keep the policy

One lemma for each handler: given what the middleware of its route has established,
its calls are `Allowed` and its answer `Discloses` no more than it may. The table of
routes is then checked to give each handler the middleware it relies on.
-/

namespace Gaoming
namespace MasterServer
open Transaction

section Answers
variable {svc : MasterService} {req : Request} {tr : MasterTrail} {ctx : Ctx} {α : Type}

theorem discloses_reply {status : ℕ} {payload : Payload}
    (h : Shown svc req tr ctx.noStore payload) : Discloses svc req tr (reply ctx status payload) :=
  ⟨h, fun _ hc => by cases hc⟩

theorem discloses_fail (e : Failure) : Discloses svc req tr (fail ctx e) :=
  discloses_writeError ctx.noStore e

theorem bindAuthJSON_cases (req : Request) (ctx : Ctx) (decode : String → Option α) :
    (∃ status message, bindAuthJSON req ctx decode =
      .error (plainError status message ctx.noStore)) ∨
    ∃ a, decode req.body = some a ∧ bindAuthJSON req ctx decode = .ok a := by
  unfold bindAuthJSON
  by_cases hc : req.contentType ≠ "application/json"
  · rw [if_pos hc]
    exact .inl ⟨_, _, rfl⟩
  · rw [if_neg hc]
    cases hd : decode req.body with
    | none => exact .inl ⟨_, _, rfl⟩
    | some a => exact .inr ⟨a, rfl, rfl⟩

theorem respond_keeps {work : MasterProcess (Except Failure α)} {status : ℕ} {payload : α → Payload}
    (h : work.Keeps (Allowed svc req)
      (OnOk fun tr a => Shown svc req tr ctx.noStore (payload a)) tr) :
    (respond ctx status payload work).Keeps (Allowed svc req) (Discloses svc req) tr := by
  refine Process.keeps_bind (h.mono fun tr' o ho => ?_)
  cases o with
  | error e => exact .done (discloses_fail e)
  | ok a => exact .done (discloses_reply ho)

/-- A call whose error is handed on. -/
theorem keeps_pass {c : MasterCall} {reader : Reader α} {P : MasterTrail → α → Prop}
    (hguard : Allowed svc req tr c)
    (hok : ∀ tr' a, tr <+: tr' → Answered tr' c (reader.write a) → P tr' a) :
    Process.Keeps (Allowed svc req) (OnOk P)
      (do let x ← ask c reader; return x.mapError failureOf : MasterProcess (Except Failure α))
      tr :=
  Process.keeps_bind (keeps_ask hguard (fun _ _ => .done trivial) fun a _ _ =>
    .done (hok _ a (List.prefix_append _ _) (answered_concat _ _ _ _ _)))

end Answers

section Acting
variable {svc : MasterService} {req : Request} {tr : MasterTrail} {ctx : Ctx} {p : Principal}
  {user : User} {noStore : Bool}

theorem listUsers_keeps (hu : SignedIn svc req tr user) :
    (listUsers svc user).Keeps (Allowed svc req)
      (OnOk fun tr items => Shown svc req tr noStore (.users items)) tr := by
  refine Process.keeps_ite (fun _ => .done trivial) fun hrole => ?_
  refine Process.keeps_ite (fun _ => .done trivial) fun _ => ?_
  refine keeps_pass ⟨user, hu, not_not.mp hrole, rfl⟩ fun tr' items htr hitems => ?_
  exact ⟨user, hu.mono htr, not_not.mp hrole, hitems⟩

theorem updateUser_keeps (hu : SignedIn svc req tr user) (hi : Intended svc req) {userID : ℤ}
    {patch : UserUpdate} :
    (updateUser svc req.draws user userID patch).Keeps (Allowed svc req)
      (OnOk fun tr u => Shown svc req tr noStore (.user u)) tr := by
  refine Process.keeps_ite (fun _ => .done trivial) fun hrole => ?_
  refine Process.keeps_ite (fun _ => .done trivial) fun _ => ?_
  refine Process.keeps_ite (fun _ => .done trivial) fun _ => ?_
  refine Process.keeps_ite (fun _ => .done trivial) fun _ => ?_
  refine keeps_pass ⟨hi, user, hu, not_not.mp hrole, rfl⟩ fun tr' u htr hdone => ?_
  exact ⟨user, userID, patch, hu.mono htr, not_not.mp hrole, hdone⟩

theorem createMaintenance_keeps (hp : ActsFor svc req tr p) (hi : Intended svc req)
    {body : CreateMaintenanceRequest} :
    (createMaintenance req.draws p body).Keeps (Allowed svc req)
      (OnOk fun tr w => Shown svc req tr noStore (.window w)) tr := by
  refine Process.keeps_ite (fun _ => .done trivial) fun hadmin => ?_
  refine Process.keeps_ite (fun _ => .done trivial) fun _ => ?_
  have hacts : AdminActs svc req tr p := ⟨hp, by simpa using hadmin⟩
  refine keeps_pass ⟨hacts, hi⟩ fun tr' w htr hdone => ?_
  exact ⟨p, _, hacts.mono htr, hdone⟩

theorem ackAlert_keeps (hp : ActsFor svc req tr p) (hi : Intended svc req) {alertID : String} :
    (ackAlert req.draws p alertID).Keeps (Allowed svc req)
      (OnOk fun tr _ => Shown svc req tr noStore .acknowledged) tr := by
  refine Process.keeps_ite (fun _ => .done trivial) fun _ => ?_
  refine keeps_pass ⟨hp, hi⟩ fun tr' _ htr hdone => ?_
  exact ⟨p, alertID, hp.mono htr, hdone⟩

theorem listShares_keeps (hp : ActsFor svc req tr p) :
    (listShares svc p).Keeps (Allowed svc req)
      (OnOk fun tr items => Shown svc req tr noStore (.shares items)) tr := by
  refine Process.keeps_ite (fun _ => .done trivial) fun hadmin => ?_
  refine Process.keeps_ite (fun _ => .done trivial) fun _ => ?_
  have hacts : AdminActs svc req tr p := ⟨hp, by simpa using hadmin⟩
  exact keeps_pass hacts fun tr' items htr hitems => ⟨p, hacts.mono htr, hitems⟩

theorem createShare_keeps (hp : ActsFor svc req tr p) (hi : Intended svc req)
    {body : CreateShareRequest} :
    (createShare svc req.draws p body).Keeps (Allowed svc req)
      (OnOk fun tr r => Shown svc req tr noStore (.createdShare r.1 r.2)) tr := by
  refine Process.keeps_ite (fun _ => .done trivial) fun hadmin => ?_
  refine Process.keeps_ite (fun _ => .done trivial) fun _ => ?_
  have hacts : AdminActs svc req tr p := ⟨hp, by simpa using hadmin⟩
  dsimp only
  cases validateShareRequest { body with title := trimSpace body.title } with
  | error e => exact .done trivial
  | ok _ =>
    cases htoken : req.draws.token with
    | none => exact .done trivial
    | some token =>
      refine Process.keeps_bind (keeps_ask ⟨hacts, hi⟩ (fun _ _ => .done trivial) ?_)
      intro record began ended
      exact .done ⟨p, _, hacts.mono (List.prefix_append _ _), htoken, answered_concat _ _ _ _ _⟩

theorem revokeShare_keeps (hp : ActsFor svc req tr p) (hi : Intended svc req) {id : String} :
    (revokeShare svc req.draws p id).Keeps (Allowed svc req)
      (OnOk fun tr _ => Shown svc req tr noStore .empty) tr := by
  refine Process.keeps_ite (fun _ => .done trivial) fun hadmin => ?_
  refine Process.keeps_ite (fun _ => .done trivial) fun _ => ?_
  exact keeps_pass ⟨⟨hp, by simpa using hadmin⟩, hi⟩ fun _ _ _ _ => trivial

theorem handleLogout_keeps (hu : SignedIn svc req tr user) (hi : Intended svc req) :
    (handleLogout svc req ctx).Keeps (Allowed svc req) (Discloses svc req) tr := by
  refine Process.keeps_bind ?_
  refine Process.keeps_ite (fun h => by simp [hu.resolved.configured] at h) fun _ => ?_
  refine Process.keeps_ite (fun h => absurd h hu.resolved.token) fun _ => ?_
  refine keeps_ask (.inl ⟨rfl, hi, user, hu⟩) (fun _ _ => .done (discloses_fail _)) ?_
  intro _ began ended
  refine .done ⟨trivial, fun c hc => ?_⟩
  cases hc
  exact answered_concat _ _ _ _ _

end Acting

section Opening
variable {svc : MasterService} {req : Request} {tr : MasterTrail} {ctx : Ctx} {user : User}

theorem createLoginSession_keeps (hproved : Proved svc req tr user) :
    (createLoginSession svc req.draws user).Keeps (Allowed svc req)
      (OnOk fun tr' s => tr <+: tr' ∧ s.user = user ∧ Opened svc req tr' user s.token) tr := by
  unfold createLoginSession
  cases htoken : req.draws.token with
  | none => exact .done trivial
  | some token =>
    refine Process.keeps_bind (keeps_ask ⟨user, token, hproved, htoken, rfl⟩
      (fun _ _ => .done trivial) ?_)
    intro _ began ended
    exact .done ⟨List.prefix_append _ _, rfl, htoken, answered_concat _ _ _ _ _⟩

theorem login_keeps {body : LoginRequest} (hbody : svc.bindLogin req.body = some body) :
    (login svc req.draws body).Keeps (Allowed svc req)
      (OnOk fun tr s => svc.authStore = true ∧ ByPassword svc req tr s.user ∧
        Opened svc req tr s.user s.token) tr := by
  refine Process.keeps_ite (fun _ => .done trivial) fun hstore => ?_
  refine Process.keeps_bind (keeps_ask trivial (fun _ _ => .done trivial) ?_)
  intro found began ended
  cases found with
  | none => exact .done trivial
  | some found =>
    obtain ⟨user, stored⟩ := found
    refine Process.keeps_ite (fun _ => .done trivial) fun hverified => ?_
    simp only [Bool.or_eq_true, decide_eq_true_eq, not_or, not_not, Bool.not_eq_true',
      Bool.not_eq_false] at hverified
    have hby : ByPassword svc req _ user :=
      ⟨body, stored, hbody, answered_concat tr _ _ began ended, hverified⟩
    refine (createLoginSession_keeps (.inl hby)).mono fun tr' o h => ?_
    cases o with
    | error e => trivial
    | ok s =>
      obtain ⟨htr, hs, hopened⟩ := h
      exact ⟨by simpa using hstore, hs ▸ hby.mono htr, hs ▸ hopened⟩

theorem logout_keeps {raw : String}
    (hguard : Allowed svc req tr (.deleteSession (svc.hashToken raw))) :
    (logout svc raw).Keeps (Allowed svc req) (OnOk fun tr' _ => svc.authStore = true →
      svc.hashToken raw ≠ "" → Answered tr' (.deleteSession (svc.hashToken raw)) .done) tr := by
  refine Process.keeps_ite (fun h => .done fun hstore => by simp [hstore] at h) fun _ => ?_
  refine Process.keeps_ite (fun h => .done fun _ hne => absurd h hne) fun _ => ?_
  refine keeps_ask hguard (fun _ _ => trivial) fun _ began ended _ _ => ?_
  exact answered_concat _ _ _ _ _

theorem discloses_sessionCreated {status : ℕ} {s : Session}
    (hopened : Opened svc req tr s.user s.token)
    (h : status = 200 ∧ ByPassword svc req tr s.user ∧ (req.sessionCookie ≠ "" →
        svc.hashToken req.sessionCookie ≠ "" →
          Answered tr (.deleteSession (svc.hashToken req.sessionCookie)) .done) ∨
      status = 201 ∧ BySetup svc req tr s.user) :
    Discloses svc req tr (sessionCreated ctx status s) := by
  refine ⟨.inr ⟨s.token, h.imp (·.2.1) And.right, hopened⟩, fun c hc => ?_⟩
  cases hc
  exact ⟨s.user, rfl, hopened, h⟩

theorem handleLogin_keeps :
    (handleLogin svc req ctx).Keeps (Allowed svc req) (Discloses svc req) tr := by
  unfold handleLogin
  rcases bindAuthJSON_cases req ctx svc.bindLogin with
    ⟨status, message, hbind⟩ | ⟨body, hbody, hbind⟩
  · rw [hbind]
    exact .done discloses_plainError
  rw [hbind]
  refine Process.keeps_ite (fun _ => .done (discloses_fail _)) fun _ => ?_
  refine Process.keeps_bind ((login_keeps hbody).mono fun tr₁ o h => ?_)
  cases o with
  | error e => exact .done (discloses_fail e)
  | ok s =>
    obtain ⟨hstore, hby, hopened⟩ := h
    refine Process.keeps_ite (fun hnone => ?_) fun _ => ?_
    · exact .done <| discloses_sessionCreated hopened (.inl ⟨rfl, hby, fun h => absurd hnone h⟩)
    have hdelete : Allowed svc req tr₁ (.deleteSession (svc.hashToken req.sessionCookie)) :=
      .inr ⟨s.user, s.token, hby, hopened, .inl rfl⟩
    refine Process.keeps_bind ((logout_keeps hdelete).grows.mono fun tr₂ o h => ?_)
    obtain ⟨htr, h⟩ := h
    cases o with
    | ok _ =>
      exact .done <| discloses_sessionCreated (hopened.mono htr)
        (.inl ⟨rfl, hby.mono htr, fun _ => h hstore⟩)
    | error e =>
      -- the displaced session stays, so the new one is taken back
      have hback : Allowed svc req tr₂ (.deleteSession (svc.hashToken s.token)) :=
        .inr ⟨s.user, s.token, hby.mono htr, hopened.mono htr, .inr rfl⟩
      exact Process.keeps_bind ((logout_keeps hback).mono fun _ _ _ => .done discloses_plainError)

theorem setup_keeps {body : SetupRequest} (hbody : svc.bindSetup req.body = some body) :
    (setup svc req.draws body).Keeps (Allowed svc req)
      (OnOk fun tr s => BySetup svc req tr s.user ∧ Opened svc req tr s.user s.token) tr := by
  refine Process.keeps_ite (fun _ => .done trivial) fun hready => ?_
  refine Process.keeps_ite (fun _ => .done trivial) fun htoken => ?_
  simp only [Bool.or_eq_true, decide_eq_true_eq, not_or, not_lt] at hready
  have hshown : SetupTokenShown svc req := ⟨hready.2, body, hbody, not_not.mp htoken⟩
  cases localAccount svc req.draws body with
  | error e => exact .done trivial
  | ok account =>
    refine Process.keeps_bind (keeps_ask hshown (fun _ e => ?_) ?_)
    · cases e with
      | none => exact .done trivial
      | some e =>
        cases e with
        | access e => exact .done trivial
        | store e => exact .done trivial
        | account e => cases e <;> exact .done trivial
    intro user began ended
    have hby : BySetup svc req _ user := ⟨hshown, account, answered_concat tr _ _ began ended⟩
    refine (createLoginSession_keeps (.inr hby)).mono fun tr' o h => ?_
    cases o with
    | error e => trivial
    | ok s =>
      obtain ⟨htr, hs, hopened⟩ := h
      exact ⟨hs ▸ hby.mono htr, hs ▸ hopened⟩

theorem handleSetup_keeps :
    (handleSetup svc req ctx).Keeps (Allowed svc req) (Discloses svc req) tr := by
  unfold handleSetup
  rcases bindAuthJSON_cases req ctx svc.bindSetup with
    ⟨status, message, hbind⟩ | ⟨body, hbody, hbind⟩
  · rw [hbind]
    exact .done discloses_plainError
  rw [hbind]
  refine Process.keeps_bind ((setup_keeps hbody).mono fun tr' o h => ?_)
  cases o with
  | error e => exact .done (discloses_fail e)
  | ok s => exact .done <| discloses_sessionCreated h.2 (.inr ⟨rfl, h.1⟩)

end Opening

section Routes
variable {svc : MasterService} {req : Request} {tr : MasterTrail} {ctx : Ctx}

/-- The endpoints that act for the signed-in user. -/
def Endpoint.acts : Endpoint → Bool
  | .csrf | .logout | .createMaintenance | .ackAlert | .listShares | .createShare | .revokeShare
  | .listUsers | .updateUser => true
  | _ => false

/-- Those of them that change something. -/
def Endpoint.changes : Endpoint → Bool
  | .logout | .createMaintenance | .ackAlert | .createShare | .revokeShare | .updateUser => true
  | _ => false

def Endpoint.readsHosts : Endpoint → Bool
  | .hostStream | .listHosts | .latestMetricSnapshot | .getHost | .publicLatestMetrics => true
  | _ => false

/-- The middleware of a route is what its endpoint relies on. -/
structure Route.Guarded (r : Route) : Prop where
  ordered : Ordered r.chain
  acts : r.endpoint.acts = true → .session ∈ r.chain ∧ .share ∉ r.chain ∧ .demo ∉ r.chain
  changes : r.endpoint.changes = true →
    .csrf ∈ r.chain ∧ .allowedOrigin ∈ r.chain ∧ readMethod r.method = false
  reads : r.endpoint.readsHosts = true →
    .session ∈ r.chain ∨ .share ∈ r.chain ∨ .demo ∈ r.chain
  info : r.endpoint = .shareInfo → .share ∈ r.chain ∨ .demo ∈ r.chain

theorem routes_guarded {r : Route} (hr : r ∈ routes) : r.Guarded := by
  have hall : ∀ r ∈ routes, Ordered r.chain ∧
      (r.endpoint.acts = true → .session ∈ r.chain ∧ .share ∉ r.chain ∧ .demo ∉ r.chain) ∧
      (r.endpoint.changes = true →
        .csrf ∈ r.chain ∧ .allowedOrigin ∈ r.chain ∧ readMethod r.method = false) ∧
      (r.endpoint.readsHosts = true →
        .session ∈ r.chain ∨ .share ∈ r.chain ∨ .demo ∈ r.chain) ∧
      (r.endpoint = .shareInfo → .share ∈ r.chain ∨ .demo ∈ r.chain) := by decide
  obtain ⟨hordered, hacts, hchanges, hreads, hinfo⟩ := hall r hr
  exact ⟨hordered, hacts, hchanges, hreads, hinfo⟩

theorem Vetted.signedIn {chain : List Middleware} (h : Vetted svc req chain tr ctx)
    (hs : .session ∈ chain) : ∃ user, ctx.user = some user ∧ SignedIn svc req tr user := by
  obtain ⟨user, hu⟩ := Option.isSome_iff_exists.mp (h.signed hs)
  exact ⟨user, hu, h.user user hu⟩

theorem principalFromContext_user {user : User} (hu : ctx.user = some user)
    (hp : ctx.principal = none) : ctx.principalFromContext = userPrincipal user := by
  simp [Ctx.principalFromContext, hu, hp, userPrincipal]

theorem principalFromContext_some {p : Principal} (hp : ctx.principal = some p) :
    ctx.principalFromContext = p := by
  simp [Ctx.principalFromContext, hp]

theorem Vetted.actsFor {chain : List Middleware} (h : Vetted svc req chain tr ctx)
    (hs : .session ∈ chain) (hshare : .share ∉ chain) (hdemo : .demo ∉ chain) :
    ActsFor svc req tr ctx.principalFromContext := by
  obtain ⟨user, hu, hsigned⟩ := h.signedIn hs
  exact ⟨user, hsigned, principalFromContext_user hu (h.own hshare hdemo)⟩

/-- The principal under which hosts are read. -/
theorem Vetted.mayRead {chain : List Middleware} (h : Vetted svc req chain tr ctx)
    (hc : .session ∈ chain ∨ .share ∈ chain ∨ .demo ∈ chain) :
    ActsFor svc req tr ctx.principalFromContext ∨ SharedWith svc req tr ctx.principalFromContext ∨
      DemoAllowed svc req tr ctx.principalFromContext := by
  cases hp : ctx.principal with
  | some p =>
    rw [principalFromContext_some hp]
    exact .inr (h.principal p hp)
  | none =>
    have hs : .session ∈ chain := by
      rcases hc with hs | hc
      · exact hs
      · have := h.reader hc
        simp [hp] at this
    obtain ⟨user, hu, hsigned⟩ := h.signedIn hs
    exact .inl ⟨user, hsigned, principalFromContext_user hu hp⟩

theorem asUser_keeps {α : Type} {user : User} {P : MasterTrail → Except Failure α → Prop}
    {work : User → MasterProcess (Except Failure α)} (hu : ctx.user = some user)
    (h : (work user).Keeps (Allowed svc req) P tr) :
    (asUser ctx work).Keeps (Allowed svc req) P tr := by
  unfold asUser
  rw [hu]
  exact h

theorem handleUpdateUser_keeps {user : User} (hctx : ctx.user = some user)
    (hu : SignedIn svc req tr user) (hi : Intended svc req) {param : String} :
    (handleUpdateUser svc req ctx param).Keeps (Allowed svc req) (Discloses svc req) tr := by
  unfold handleUpdateUser
  cases parseInt (trimSpace param) with
  | none => exact .done (discloses_fail _)
  | some userID =>
    refine Process.keeps_ite (fun _ => .done (discloses_fail _)) fun _ => ?_
    cases svc.bindUserUpdate req.body with
    | none => exact .done (discloses_fail _)
    | some patch => exact respond_keeps (asUser_keeps hctx (updateUser_keeps hu hi))

theorem handleCreateMaintenance_keeps (hp : ActsFor svc req tr ctx.principalFromContext)
    (hi : Intended svc req) :
    (handleCreateMaintenance svc req ctx).Keeps (Allowed svc req) (Discloses svc req) tr := by
  unfold handleCreateMaintenance
  cases svc.bindMaintenance req.body with
  | none => exact .done (discloses_fail _)
  | some body => exact respond_keeps (createMaintenance_keeps hp hi)

theorem handleCreateShare_keeps (hp : ActsFor svc req tr ctx.principalFromContext)
    (hi : Intended svc req) :
    (handleCreateShare svc req ctx).Keeps (Allowed svc req) (Discloses svc req) tr := by
  unfold handleCreateShare
  rcases bindAuthJSON_cases req ctx svc.bindShare with ⟨_, _, hbind⟩ | ⟨body, _, hbind⟩
  · rw [hbind]
    exact .done discloses_plainError
  · rw [hbind]
    exact respond_keeps (createShare_keeps hp hi)

theorem handleExchangeShare_keeps :
    (handleExchangeShare svc req ctx).Keeps (Allowed svc req) (Discloses svc req) tr := by
  unfold handleExchangeShare
  rcases bindAuthJSON_cases req ctx svc.bindToken with ⟨_, _, hbind⟩ | ⟨raw, _, hbind⟩
  · rw [hbind]
    exact .done discloses_plainError
  rw [hbind]
  have hsession : (exchangeShare svc req.draws raw).Keeps (Allowed svc req)
      (OnOk fun tr session => Answered tr (.exchangeShare req.draws.share raw req.draws.now)
        (.shareSession session)) tr :=
    Process.keeps_ite (fun _ => .done trivial) fun _ =>
      keeps_pass trivial fun _ _ _ h => h
  refine Process.keeps_bind (hsession.mono fun tr' o h => ?_)
  cases o with
  | error e => exact .done (discloses_fail e)
  | ok session =>
    refine .done ⟨⟨raw, session, h, rfl, rfl⟩, fun c hc => ?_⟩
    cases hc
    exact ⟨raw, session, h, rfl, rfl⟩

theorem handleSession_keeps :
    (handleSession svc req ctx).Keeps (Allowed svc req) (Discloses svc req) tr := by
  refine Process.keeps_bind (resolve_keeps.mono fun tr' o h => ?_)
  cases o with
  | error e => exact .done (discloses_fail _)
  | ok found =>
    cases found with
    | none => exact .done <| discloses_reply trivial
    | some x => exact .done <| discloses_reply (.inl (h x rfl))

theorem handleAllocateInstallTenant_keeps :
    (handleAllocateInstallTenant req ctx).Keeps (Allowed svc req) (Discloses svc req) tr :=
  respond_keeps (keeps_pass trivial fun _ _ _ hallocated => hallocated)

theorem handleRegisterAgent_keeps :
    (handleRegisterAgent svc req ctx).Keeps (Allowed svc req) (Discloses svc req) tr := by
  unfold handleRegisterAgent
  cases hbody : svc.bindRegister req.body with
  | none => exact .done (discloses_fail _)
  | some body =>
    refine respond_keeps (Process.keeps_bind (keeps_ask trivial (fun _ _ => .done trivial) ?_))
    intro registered began ended
    dsimp only
    cases req.draws.publishError with
    | some message => exact .done trivial
    | none => exact .done ⟨body, registered.1, hbody, answered_concat _ _ _ _ _, rfl⟩

theorem handleSetupStatus_keeps :
    (handleSetupStatus svc ctx).Keeps (Allowed svc req) (Discloses svc req) tr := by
  refine Process.keeps_bind ?_
  refine Process.keeps_ite (fun _ => .done (.done (discloses_reply trivial))) fun _ => ?_
  exact keeps_ask trivial (fun _ _ => .done discloses_plainError)
    fun _ _ _ => .done (discloses_reply trivial)

/-- An endpoint, behind the middleware of a route to it. -/
theorem endpoint_keeps {r : Route} (hr : r.Guarded) (hmethod : r.method = req.method)
    (h : Vetted svc req r.chain tr ctx) (param : String) :
    (r.endpoint.run svc req ctx param).Keeps (Allowed svc req) (Discloses svc req) tr := by
  have hacts : r.endpoint.acts = true → ActsFor svc req tr ctx.principalFromContext := fun he =>
    h.actsFor (hr.acts he).1 (hr.acts he).2.1 (hr.acts he).2.2
  have hsigned : r.endpoint.acts = true →
      ∃ user, ctx.user = some user ∧ SignedIn svc req tr user := fun he =>
    h.signedIn (hr.acts he).1
  have hi : r.endpoint.changes = true → Intended svc req := by
    intro he
    obtain ⟨hcsrf, horigin, hm⟩ := hr.changes he
    rw [hmethod] at hm
    exact ⟨(h.csrf hcsrf hm).1, (h.csrf hcsrf hm).2, h.origin horigin hm⟩
  have hreads : ∀ what, r.endpoint.readsHosts = true →
      Discloses svc req tr (reads ctx what) := fun what he =>
    discloses_reply ⟨h.noStore (hr.reads he), h.mayRead (hr.reads he)⟩
  have hinfo := hr.info
  cases he : r.endpoint <;> rw [he] at hacts hsigned hi hreads hinfo <;> dsimp only [Endpoint.run]
  case health => exact .done (discloses_reply trivial)
  case allocateInstallTenant => exact handleAllocateInstallTenant_keeps
  case registerAgent => exact handleRegisterAgent_keeps
  case setup => exact handleSetup_keeps
  case setupStatus => exact handleSetupStatus_keeps
  case login => exact handleLogin_keeps
  case csrf =>
    obtain ⟨user, _, hu⟩ := hsigned rfl
    exact .done <| discloses_reply ⟨rfl, user, hu⟩
  case session => exact handleSession_keeps
  case logout =>
    obtain ⟨user, _, hu⟩ := hsigned rfl
    exact handleLogout_keeps hu (hi rfl)
  case hostStream | listHosts | latestMetricSnapshot | getHost | publicLatestMetrics =>
    exact .done (hreads _ rfl)
  case exchangeShare => exact handleExchangeShare_keeps
  case shareInfo =>
    obtain ⟨p, hp⟩ := Option.isSome_iff_exists.mp (h.reader (hinfo rfl))
    refine .done <| discloses_reply ⟨h.noStore (.inr (hinfo rfl)), p, h.principal p hp, ?_⟩
    rw [principalFromContext_some hp]
    exact ⟨rfl, rfl, rfl⟩
  case createMaintenance => exact handleCreateMaintenance_keeps (hacts rfl) (hi rfl)
  case ackAlert =>
    refine Process.keeps_ite (fun _ => .done (discloses_fail _)) fun _ => ?_
    refine Process.keeps_ite (fun _ => .done (discloses_fail _)) fun _ => ?_
    exact respond_keeps (ackAlert_keeps (hacts rfl) (hi rfl))
  case listShares => exact respond_keeps (listShares_keeps (hacts rfl))
  case createShare => exact handleCreateShare_keeps (hacts rfl) (hi rfl)
  case revokeShare => exact respond_keeps (revokeShare_keeps (hacts rfl) (hi rfl))
  case listUsers =>
    obtain ⟨user, hctx, hu⟩ := hsigned rfl
    exact respond_keeps (asUser_keeps hctx (listUsers_keeps hu))
  case updateUser =>
    obtain ⟨user, hctx, hu⟩ := hsigned rfl
    exact handleUpdateUser_keeps hctx hu (hi rfl)

theorem mem_routes_of_route {r : Route} {param : String} (h : route req = some (r, param)) :
    r ∈ routes ∧ r.method = req.method := by
  unfold route at h
  generalize routes = table at h ⊢
  obtain ⟨r', hr', hsome⟩ := List.exists_of_findSome?_eq_some h
  split_ifs at hsome with hmethod
  obtain ⟨x, _, hx⟩ := Option.map_eq_some_iff.mp hsome
  obtain ⟨rfl, -⟩ := Prod.mk.inj hx
  exact ⟨hr', hmethod⟩

theorem serve_keeps (svc : MasterService) (req : Request) :
    (serve svc req).Keeps (Allowed svc req) (Discloses svc req) [] := by
  unfold serve
  cases hroute : route req with
  | none => exact .done ⟨trivial, fun _ hc => by cases hc⟩
  | some found =>
    obtain ⟨r, param⟩ := found
    obtain ⟨hmem, hmethod⟩ := mem_routes_of_route hroute
    have hr := routes_guarded hmem
    have hvetted : Vetted svc req [] [] {} := vetted_nil
    refine Process.keeps_bind ((runChain_keeps hvetted hr.ordered).mono fun tr o h => ?_)
    cases o with
    | error response => exact .done h
    | ok ctx => exact endpoint_keeps hr hmethod h param

end Routes

end MasterServer
end Gaoming
