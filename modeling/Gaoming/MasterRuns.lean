import Gaoming.HostStreamAccess
import Gaoming.MasterHandlers
import Gaoming.SessionHistory

/-!
# Runs of the master's HTTP server

Any number of requests, each between two of its statements at any moment, some of them
cancelled, with other programs at work on the same database.
-/

namespace Gaoming
namespace MasterServer
open Relational Transaction

abbrev Master :=
  Server MasterDatabase MasterAccess MasterError MasterReply MasterCall Request Response

abbrev Served := Transaction.Request Request MasterCall MasterError MasterReply Response

/-- A run that begins with an idle server; other programs change the database as `adm` allows. -/
abbrev MasterRun (svc : MasterService) (adm : MasterSys → MasterDatabase → Prop)
    (db₀ : MasterDatabase) (s : Master) : Prop :=
  Server.Run (masterProgram svc.hostStore svc.sha256) (serve svc) adm (Server.idle db₀) s

/-- The successful calls of the trail are commits, begun at `since` or later and over by `until`. -/
def Backed (commits : List MasterCommit) (since till : ℕ) (tr : MasterTrail) : Prop :=
  ∀ x ∈ tr, ∀ reply, x.outcome = .ok reply →
    ∃ n, commits[n]? = some ⟨x.began, x.call, reply⟩ ∧ since ≤ x.began ∧ x.began ≤ n ∧ n < till

section Runs
variable {svc : MasterService} {adm : MasterSys → MasterDatabase → Prop}
variable {db₀ : MasterDatabase} {s : Master}

theorem MasterRun.tracked (h : MasterRun svc adm db₀ s) : Server.Tracked (serve svc) s :=
  Server.Run.tracked h (Server.tracked_idle db₀)

theorem MasterRun.backed (h : MasterRun svc adm db₀ s) {r : Served} (hr : r ∈ s.requests) :
    Backed s.sys.world.commits r.began s.sys.world.commits.length r.trail := by
  intro x hx reply hreply
  have hlogged := h.tracked.logged r hr
  obtain ⟨n, _, hbegan, hn⟩ := hlogged.committed x hx reply hreply
  exact ⟨n, hn, (hlogged.times x hx).1, hbegan, (List.getElem?_eq_some_iff.mp hn).1⟩

theorem MasterRun.backed_before (h : MasterRun svc adm db₀ s) {r : Served} (hr : r ∈ s.requests)
    {before after : MasterTrail} {x : Performed MasterCall MasterError MasterReply}
    (htrail : r.trail = before ++ x :: after) :
    Backed s.sys.world.commits r.began x.began before := by
  intro y hy reply hreply
  have hlogged := h.tracked.logged r hr
  have hmem : y ∈ r.trail := htrail ▸ List.mem_append_left _ hy
  obtain ⟨n, hended, hbegan, hn⟩ := hlogged.committed y hmem reply hreply
  have hordered := hlogged.ordered
  rw [htrail, List.pairwise_append] at hordered
  have hle : y.ended ≤ x.began := hordered.2.2 y hy x (List.mem_cons_self ..)
  exact ⟨n, hn, (hlogged.times y hmem).1, hbegan, by omega⟩

theorem MasterRun.answered_commit (h : MasterRun svc adm db₀ s) {r : Served} (hr : r ∈ s.requests)
    {c : MasterCall} {reply : MasterReply} (ha : Answered r.trail c reply) :
    ∃ n began, s.sys.world.commits[n]? = some ⟨began, c, reply⟩ ∧ r.began ≤ began ∧ began ≤ n := by
  obtain ⟨x, hx, rfl, hreply⟩ := ha
  obtain ⟨n, hn, hsince, hbegan, -⟩ := h.backed hr x hx reply hreply
  exact ⟨n, x.began, hn, hsince, hbegan⟩

theorem MasterRun.joined_id (h : MasterRun svc adm db₀ s) {n began : ℕ} {userID : Serial}
    {row : UserRow} {tenant : TenantRow}
    (hn : s.sys.world.commits[n]? = some ⟨began, .joinUser userID, .joined (some (row, tenant))⟩) :
    row.id = userID := by
  have hall := Server.Run.results
    (P := fun c reply => c = .joinUser userID → reply = .joined (some (row, tenant)) →
      row.id = userID) (fun c w => ?_) h
  · exact hall _ (List.mem_of_getElem? hn) rfl rfl
  by_cases hc : c = .joinUser userID
  · subst hc
    refine wp_ofAccount_exec fun v _ found as he u _ _ hreply => ?_
    cases he
    exact (Database.userWithTenant_eq_some (MasterReply.joined.inj hreply)).2.1
  · exact Tx.wp_of_post (fun _ _ _ h => absurd h hc) _ _ _

/-- How a session came about: it is one of the start, or was opened by a request to which the
password of its account, or the setup token, was shown. -/
def OpenedBy (svc : MasterService) (db₀ : MasterDatabase) (s : Master) (session : UserSessionRow) :
    ℕ → Prop
  | 0 => ∃ x ∈ db₀.userSessions.rows, SameSession x session
  | n + 1 => ∃ k account token, s.sys.world.commits[n]? = some k ∧
    ∃ r ∈ s.requests, ∃ before after,
      r.trail = before ++ ⟨k.call, .ok k.result, k.began, n + 1⟩ :: after ∧
      Proved svc r.input before account ∧ Backed s.sys.world.commits r.began k.began before ∧
      r.input.draws.token = some token ∧ k.call = openCall svc r.input account token ∧
      session.userID = account.id ∧ varchar 64 (svc.hashToken token) = some session.tokenHash

theorem Opens.allowed {session : UserSessionRow} {req : Request} {tr : MasterTrail} {c : MasterCall}
    (h : Opens session c) (hallowed : Allowed svc req tr c) :
    ∃ account token, Proved svc req tr account ∧ req.draws.token = some token ∧
      c = openCall svc req account token ∧ session.userID = account.id ∧
      varchar 64 (svc.hashToken token) = some session.tokenHash := by
  cases c with
  | control c =>
    cases c with
    | createSession d userID hash expiresAt ip agent now =>
      obtain ⟨account, token, hproved, htoken, hcall⟩ := hallowed
      cases hcall
      obtain ⟨-, huser, hhash, -⟩ := h
      exact ⟨account, token, hproved, htoken, rfl, by exact_mod_cast huser, hhash⟩
    | _ => exact h.elim
  | _ => exact h.elim

theorem MasterRun.openedBy (h : MasterRun svc adm db₀ s) {session : UserSessionRow} {p : ℕ}
    (hp : OpenedAt db₀ s.sys.world.commits session p) : OpenedBy svc db₀ s session p := by
  cases p with
  | zero => exact hp
  | succ n =>
    obtain ⟨k, hk, hopens⟩ := hp
    obtain ⟨r, hr, before, after, htrail, hallowed⟩ := h.tracked.guarded (serve_keeps svc) hk
    obtain ⟨account, token, hproved, htoken, hcall, huser, hhash⟩ := Opens.allowed hopens hallowed
    exact ⟨k, account, token, hk, r, hr, before, after, htrail, hproved, h.backed_before hr htrail,
      htoken, hcall, huser, hhash⟩

/-- An accepted session cookie belongs to a session of that user which a login has opened, is
not over its time, and was not signed out before the request came in: the sign-outs with its
token that were over by then had begun before the session was there. -/
theorem MasterRun.session_of_signedIn (h : MasterRun svc LeavesSessions db₀ s) {r : Served}
    (hr : r ∈ s.requests) {user : User} (hu : SignedIn svc r.input r.trail user) :
    ∃ session p, OpenedBy svc db₀ s session p ∧ session.userID = user.id ∧
      session.tokenHash = svc.hashToken r.input.sessionCookie ∧
      r.input.draws.resolvedAt < session.expiresAt ∧
      ∀ n k, n < r.began → s.sys.world.commits[n]? = some k →
        k.call = .deleteSession session.tokenHash → k.began < p := by
  obtain ⟨session, row, tenant, hfind, hexp, hjoin, -, rfl⟩ := hu.resolved.found
  obtain ⟨j, began, hj, -, -⟩ := h.answered_commit hr hjoin
  obtain ⟨n, began, hn, hsince, -⟩ := h.answered_commit hr hfind
  have hinv := sessionInv_of_run h.sys
  obtain ⟨m, hm, -, htoken, p, hstanding⟩ := hinv.found n _ _ _ hn rfl rfl
  refine ⟨session, p, h.openedBy (hstanding.opened.of_take), (h.joined_id hj).symm, htoken, hexp,
    ?_⟩
  intro i k hi hk hcall
  refine hstanding.undeleted i k ?_ hcall
  rw [List.getElem?_take_of_lt (hi.trans_le (hsince.trans hm))]
  exact hk

/-- The user in whose name a call changes something. -/
def ActsAs (user : User) : MasterCall → Prop
  | .control (.createMaintenance _ _ p _) | .control (.createShare _ p _ _ _)
  | .control (.revokeShare p _ _) => p = userPrincipal user ∧ user.role = "admin"
  | .control (.ackAlert p _ _) => p = userPrincipal user
  | .control (.updateUser _ tenantCode _ _) => tenantCode = user.tenantCode ∧ user.role = "admin"
  | _ => False

/-- The calls that the console makes for a signed-in user. -/
def changesConsole : MasterCall → Bool
  | .control (.createMaintenance ..) | .control (.createShare ..) | .control (.revokeShare ..)
  | .control (.ackAlert ..) | .control (.updateUser ..) => true
  | _ => false

theorem AdminActs.user {req : Request} {tr : MasterTrail} {p : Principal}
    (h : AdminActs svc req tr p) :
    ∃ user, SignedIn svc req tr user ∧ p = userPrincipal user ∧ user.role = "admin" := by
  obtain ⟨⟨user, hu, rfl⟩, hadmin⟩ := h
  rw [Principal.isAdmin, Bool.and_eq_true] at hadmin
  exact ⟨user, hu, rfl, of_decide_eq_true hadmin.2⟩

theorem Allowed.actsAs {req : Request} {tr : MasterTrail} {c : MasterCall}
    (h : Allowed svc req tr c) (hc : changesConsole c = true) :
    Intended svc req ∧ ∃ user, SignedIn svc req tr user ∧ ActsAs user c := by
  cases c with
  | control c =>
    cases c with
    | createMaintenance | createShare | revokeShare =>
      obtain ⟨user, hu, hp, hrole⟩ := h.1.user
      exact ⟨h.2, user, hu, hp, hrole⟩
    | ackAlert =>
      obtain ⟨user, hu, hp⟩ := h.1
      exact ⟨h.2, user, hu, hp⟩
    | updateUser =>
      obtain ⟨hi, user, hu, hrole, htenant⟩ := h
      exact ⟨hi, user, hu, htenant, hrole⟩
    | createSession | setTenantStatus => cases hc
  | _ => cases hc

/-- The answer to a sign-out, and to a login that came with the cookie of an older session. -/
def EndsSession (svc : MasterService) (req : Request) (out : Response) : Prop :=
  out.cookie = some .clearSession ∨ out.status = 200 ∧ req.sessionCookie ≠ "" ∧
    svc.hashToken req.sessionCookie ≠ "" ∧
      ∃ token expiresAt, out.cookie = some (.session token expiresAt)

theorem EndsSession.deleted {req : Request} {tr : MasterTrail} {out : Response}
    (h : EndsSession svc req out) (hout : Discloses svc req tr out) :
    Answered tr (.deleteSession (svc.hashToken req.sessionCookie)) .done := by
  rcases h with hclear | ⟨hstatus, hcookie, hhash, token, expiresAt, hset⟩
  · exact hout.cookie _ hclear
  · obtain ⟨user, -, -, ⟨-, -, hdeleted⟩ | ⟨hcreated, -⟩⟩ := hout.cookie _ hset
    · exact hdeleted hcookie hhash
    · omega

end Runs

-- A sign-out, and a login that draws the token of the session it has ended once more.

section Sample

instance (tr : MasterTrail) (c : MasterCall) (r : MasterReply) : Decidable (Answered tr c r) :=
  inferInstanceAs (Decidable (∃ x ∈ tr, x.call = c ∧ x.outcome = .ok r))

def sampleMaster : MasterService where
  sha256 := fun s => s
  csrfToken := fun s => "csrf:" ++ s
  bcrypt := fun hash password => hash = password
  toLower := fun s => s
  bindLogin := fun body => if body = "login" then some ⟨"ops", "alice", "password"⟩ else none
  bindSetup := fun _ => none
  bindShare := fun _ => none
  bindToken := fun _ => none
  bindMaintenance := fun _ => none
  bindAck := fun _ => true
  bindUserUpdate := fun _ => none
  hostStore := sampleStore
  bindRegister := fun body =>
    if body = "register" then
      some { host := { hostUID := "web-1", tenantCode := "acme", primaryIP := "10.0.0.1" }
             agent := { agentID := "agent-1" } }
    else none

def sampleTenant : TenantRow := ⟨1, "ops", "ops", 1, 0, 0⟩

def sampleUser : UserRow := { id := 1, tenantID := 1, role := "admin", status := "active" }

def sampleAccounts : MasterDatabase where
  tenants := Table.empty.put sampleTenant
  users := Table.empty.put sampleUser
  userPasswords := Table.empty.put ⟨1, 1, "alice", "password"⟩
  alertEvents := Table.empty.put { id := 7, tenantID := 1, fingerprint := "f" }

def consoleRequest (path : List String) : Request where
  method := "POST"
  path := ["master", "api", "v1"] ++ path
  sessionCookie := "t0"
  csrf := "csrf:t0"

def loginRequest (session : Serial) : Request :=
  { consoleRequest ["auth", "login"] with
    sessionCookie := ""
    body := "login"
    draws := { token := some "t0", account := { sessionID := session } } }

def logoutRequest : Request := consoleRequest ["auth", "logout"]

def ackRequest : Request := consoleRequest ["ops", "alerts", "7", "ack"]

def advances (i n : ℕ) : List (ServerEvent MasterDatabase Request) := List.replicate n (.advance i)

/-- The cookie is refused between the two logins; the request cancelled beside the second login
is made again after it. -/
def sampleEvents : List (ServerEvent MasterDatabase Request) :=
  [.receive (loginRequest 1)] ++ advances 0 5 ++ [.receive logoutRequest] ++ advances 1 8 ++
  [.receive ackRequest] ++ advances 2 2 ++ [.receive (loginRequest 2), .receive ackRequest] ++
  advances 3 5 ++ [.cancel 4, .receive ackRequest] ++ advances 5 11

def sampleSession (id : Serial) : UserSessionRow where
  id := id
  userID := 1
  tokenHash := "t0"
  expiresAt := 7 * 24 * 3600 * second
  lastSeenAt := some 0
  lastSeenIP := none
  userAgent := none
  createdAt := 0
  updatedAt := 0

def sampleRow : UserRow := { sampleUser with lastLoginAt := some 0 }

def sampleAck : MasterCall :=
  .control (.ackAlert (userPrincipal (toUser sampleRow "ops" none)) "7" 0)

def sampleOpen : MasterCall :=
  openCall sampleMaster (loginRequest 1) (toUser sampleUser "ops" none) "t0"

def sampleEnd (s : Master) : Bool :=
  s.requests[1]?.any fun out => s.requests[5]?.any fun ack =>
    decide (out.input = logoutRequest ∧
      out.progress.answer?.map Response.cookie = some (some .clearSession)) &&
    decide (ack.input = ackRequest ∧ ∀ x ∈ out.trail, x.ended ≤ ack.began) &&
    decide (Answered ack.trail (.findSession "t0") (.session (some (sampleSession 2))) ∧
      Answered ack.trail (.joinUser 1) (.joined (some (sampleRow, sampleTenant))))

/-- The commits that the results below are applied to: the first login opens its session, a
lookup finds nothing, and an alert is acknowledged. -/
def sampleCommits (commits : List MasterCommit) : Bool :=
  decide (commits[1]?.map Commit.call = some sampleOpen) &&
  decide (commits[6]?.map (fun k => (k.began, k.call, k.result)) =
    some (6, .findSession "t0", .session none)) &&
  decide (commits[12]?.map Commit.call = some sampleAck)

theorem sample_run : ∃ s, MasterRun sampleMaster LeavesSessions sampleAccounts s ∧
    sampleEnd s = true ∧ sampleCommits s.sys.world.commits = true := by
  have hend : ((Server.idle sampleAccounts : Master).steps
      (masterProgram sampleMaster.hostStore sampleMaster.sha256) (serve sampleMaster)
      sampleEvents).any
      (fun s => sampleEnd s && sampleCommits s.sys.world.commits) = true := by decide +kernel
  obtain ⟨s, hs, hs'⟩ := (Option.any_eq_true _ _).mp hend
  rw [Bool.and_eq_true] at hs'
  exact ⟨s, Server.run_of_steps (by decide) hs, hs'⟩

theorem sample_commits {commits : List MasterCommit} (h : sampleCommits commits = true) :
    (∃ k, commits[1]? = some k ∧ k.call = sampleOpen) ∧
    (∃ k, commits[6]? = some k ∧ k.began = 6 ∧ k.call = .findSession "t0" ∧
      k.result = .session none) ∧
    ∃ k, commits[12]? = some k ∧ k.call = sampleAck := by
  simp only [sampleCommits, Bool.and_eq_true, decide_eq_true_eq, Option.map_eq_some_iff,
    Prod.mk.injEq] at h
  exact ⟨h.1.1, h.1.2, h.2⟩

theorem sample_requests {s : Master} (h : sampleEnd s = true) :
    ∃ out ∈ s.requests, ∃ answer, out.progress = .answered answer ∧
      EndsSession sampleMaster out.input answer ∧ ∃ ack ∈ s.requests,
        (∀ x ∈ out.trail, x.ended ≤ ack.began) ∧
        sampleMaster.hashToken ack.input.sessionCookie =
          sampleMaster.hashToken out.input.sessionCookie ∧
        SignedIn sampleMaster ack.input ack.trail (toUser sampleRow "ops" none) := by
  obtain ⟨out, hout, h⟩ := (Option.any_eq_true _ _).mp h
  obtain ⟨ack, hack, h⟩ := (Option.any_eq_true _ _).mp h
  simp only [Bool.and_eq_true, decide_eq_true_eq] at h
  obtain ⟨⟨⟨hinput, hcookie⟩, hinput', hlater⟩, hfind, hjoin⟩ := h
  obtain ⟨answer, hanswer, hcookie⟩ := Option.map_eq_some_iff.mp hcookie
  refine ⟨out, List.mem_of_getElem? hout, answer, Progress.eq_answered hanswer, .inl hcookie,
    ack, List.mem_of_getElem? hack, hlater, by rw [hinput, hinput']; rfl, ?_⟩
  rw [hinput']
  exact ⟨⟨rfl, by decide, sampleSession 2, sampleRow, sampleTenant, hfind, by decide, hjoin,
      rfl, rfl⟩,
    by decide, by decide⟩

end Sample

section Main
variable {svc : MasterService} {adm : MasterSys → MasterDatabase → Prop}
variable {db₀ : MasterDatabase} {s : Master}

/-- Complete mediation: whatever requests run beside each other, a change of the database was
asked for by a request that had shown, by calls of its own that were committed before, all
that the policy wants for it. -/
theorem commits_authorised (h : MasterRun svc adm db₀ s) {n : ℕ} {k : MasterCommit}
    (hn : s.sys.world.commits[n]? = some k) :
    ∃ r ∈ s.requests, ∃ before after,
      r.trail = before ++ ⟨k.call, .ok k.result, k.began, n + 1⟩ :: after ∧
      Allowed svc r.input before k.call ∧
      Backed s.sys.world.commits r.began k.began before := by
  obtain ⟨r, hr, before, after, htrail, hallowed⟩ := h.tracked.guarded (serve_keeps svc) hn
  exact ⟨r, hr, before, after, htrail, hallowed, h.backed_before hr htrail⟩

theorem acknowledgement_authorised : ∃ s : Master, ∃ r ∈ s.requests, ∃ before,
    MasterRun sampleMaster LeavesSessions sampleAccounts s ∧
      Allowed sampleMaster r.input before sampleAck := by
  obtain ⟨s, hrun, -, hcommits⟩ := sample_run
  obtain ⟨-, -, k, hk, hcall⟩ := sample_commits hcommits
  obtain ⟨r, hr, before, after, -, hallowed, -⟩ := commits_authorised hrun hk
  exact ⟨s, r, hr, before, hrun, hcall ▸ hallowed⟩

/-- An answer shows what its own committed calls have answered, to somebody entitled to it. -/
theorem answers_disclose (h : MasterRun svc adm db₀ s) {r : Served} (hr : r ∈ s.requests)
    {out : Response} (hout : r.progress = .answered out) :
    Discloses svc r.input r.trail out ∧
      Backed s.sys.world.commits r.began s.sys.world.commits.length r.trail :=
  ⟨h.tracked.answered (serve_keeps svc) hr hout, h.backed hr⟩

theorem sign_out_discloses : ∃ s : Master, ∃ r ∈ s.requests, ∃ out,
    r.progress = .answered out ∧ Discloses sampleMaster r.input r.trail out := by
  obtain ⟨s, hrun, hend, -⟩ := sample_run
  obtain ⟨r, hr, out, hout, -⟩ := sample_requests hend
  exact ⟨s, r, hr, out, hout, (answers_disclose hrun hr hout).1⟩

/-- A change in the console is made in the name of a user by a request that no other site has
forged, and whose cookie belongs to a session of that user which a login has opened, which is
not over its time, and which was not signed out before the request came in. -/
theorem changes_of_live_sessions (h : MasterRun svc LeavesSessions db₀ s) {n : ℕ} {k : MasterCommit}
    (hn : s.sys.world.commits[n]? = some k) (hk : changesConsole k.call = true) :
    ∃ r ∈ s.requests, r.began ≤ k.began ∧ Intended svc r.input ∧
      ∃ user session p, ActsAs user k.call ∧ OpenedBy svc db₀ s session p ∧
        session.userID = user.id ∧ session.tokenHash = svc.hashToken r.input.sessionCookie ∧
        r.input.draws.resolvedAt < session.expiresAt ∧
        ∀ i j, i < r.began → s.sys.world.commits[i]? = some j →
          j.call = .deleteSession session.tokenHash → j.began < p := by
  obtain ⟨r, hr, before, after, htrail, hallowed⟩ := h.tracked.guarded (serve_keeps svc) hn
  obtain ⟨hi, user, hu, hacts⟩ := Allowed.actsAs hallowed hk
  have hwhole : SignedIn svc r.input r.trail user := hu.mono (htrail ▸ List.prefix_append _ _)
  obtain ⟨session, p, hsession⟩ := h.session_of_signedIn hr hwhole
  have hmem : ⟨k.call, .ok k.result, k.began, n + 1⟩ ∈ r.trail := by
    rw [htrail]
    exact List.mem_append_right _ (List.mem_cons_self ..)
  have hbegan : r.began ≤ k.began := ((h.tracked.logged r hr).times _ hmem).1
  exact ⟨r, hr, hbegan, hi, user, session, p, hacts, hsession⟩

theorem acknowledgement_of_live_session : ∃ s : Master, ∃ r ∈ s.requests,
    Intended sampleMaster r.input ∧ ∃ user session p, ActsAs user sampleAck ∧
      OpenedBy sampleMaster sampleAccounts s session p ∧ session.userID = user.id := by
  obtain ⟨s, hrun, -, hcommits⟩ := sample_run
  obtain ⟨-, -, k, hk, hcall⟩ := sample_commits hcommits
  obtain ⟨r, hr, -, hi, user, session, p, hacts, hopened, huser, -⟩ :=
    changes_of_live_sessions hrun hk (by rw [hcall]; rfl)
  exact ⟨s, r, hr, hi, user, session, p, hcall ▸ hacts, hopened, huser⟩

/-- Sign-out is final: once a sign-out, or a login in its place, is answered, a request that
comes in later with the cookie is signed in only by a session that a login has opened since
the sign-out came in, with a token of the same hash. -/
theorem signed_out_stays_out (h : MasterRun svc LeavesSessions db₀ s) {r' : Served}
    (hr' : r' ∈ s.requests) {out : Response} (hout : r'.progress = .answered out)
    (hends : EndsSession svc r'.input out) {r : Served} (hr : r ∈ s.requests)
    (hlater : ∀ x ∈ r'.trail, x.ended ≤ r.began)
    (hcookie : svc.hashToken r.input.sessionCookie = svc.hashToken r'.input.sessionCookie)
    {user : User} (hu : SignedIn svc r.input r.trail user) :
    ∃ session n, r'.began ≤ n ∧ OpenedBy svc db₀ s session (n + 1) ∧ session.userID = user.id ∧
      session.tokenHash = svc.hashToken r.input.sessionCookie := by
  obtain ⟨session, p, hopened, huser, htoken, -, hundeleted⟩ := h.session_of_signedIn hr hu
  obtain ⟨x, hx, hcall, hreply⟩ :=
    hends.deleted (h.tracked.answered (serve_keeps svc) hr' hout)
  have hlogged := h.tracked.logged r' hr'
  obtain ⟨n, hended, -, hn⟩ := hlogged.committed x hx _ hreply
  have hbefore : n < r.began := by
    have := hlater x hx
    omega
  have hp : x.began < p :=
    hundeleted n _ hbefore hn (by rw [htoken, hcookie]; exact hcall)
  obtain ⟨m, rfl⟩ : ∃ m, p = m + 1 := ⟨p - 1, by omega⟩
  have hsince := (hlogged.times x hx).1
  exact ⟨session, m, by omega, hopened, huser, htoken⟩

theorem signed_in_again : ∃ s : Master, ∃ session n,
    OpenedBy sampleMaster sampleAccounts s session (n + 1) ∧ session.userID = 1 := by
  obtain ⟨s, hrun, hend, -⟩ := sample_run
  obtain ⟨out, hout, answer, hanswer, hends, ack, hack, hlater, hcookie, hu⟩ := sample_requests hend
  obtain ⟨session, n, -, hopened, huser, -⟩ :=
    signed_out_stays_out hrun hout hanswer hends hack hlater hcookie hu
  exact ⟨s, session, n, hopened, huser⟩

/-- Nobody is signed out by accident: where the lookup of a token finds nothing, every session
with it that was there when the lookup began had been deleted by a sign-out with the token. -/
theorem lookup_none (h : MasterRun svc LeavesSessions db₀ s) {n : ℕ} {k : MasterCommit}
    {tokenHash : String} (hn : s.sys.world.commits[n]? = some k)
    (hcall : k.call = .findSession tokenHash) (hnone : k.result = .session none)
    {session : UserSessionRow} {p : ℕ}
    (hopened : OpenedAt db₀ (s.sys.world.commits.take k.began) session p)
    (htoken : session.tokenHash = tokenHash) :
    ∃ i j r, p ≤ i ∧ i < n ∧ s.sys.world.commits[i]? = some j ∧
      j.call = .deleteSession tokenHash ∧ r ∈ s.requests ∧ ∃ before after,
        r.trail = before ++ ⟨j.call, .ok j.result, j.began, i + 1⟩ :: after ∧
        Allowed svc r.input before (.deleteSession tokenHash) := by
  have hinv := sessionInv_of_run h.sys
  obtain ⟨m, hm, hmn, hsees⟩ := hinv.found n k tokenHash none hn hcall hnone
  have hgrown : OpenedAt db₀ (s.sys.world.commits.take m) session p := by
    rw [← List.take_append_drop k.began (s.sys.world.commits.take m), List.take_take,
      Nat.min_eq_left hm]
    exact hopened.append _
  obtain ⟨i, j, hpi, hi, hdelete⟩ := hsees session p hgrown htoken
  have him : i < m := by
    have := (List.getElem?_eq_some_iff.mp hi).1
    rw [List.length_take] at this
    omega
  rw [List.getElem?_take_of_lt him] at hi
  obtain ⟨r, hr, before, after, htrail, hallowed⟩ := h.tracked.guarded (serve_keeps svc) hi
  exact ⟨i, j, r, hpi, by omega, hi, hdelete, hr, before, after, htrail, hdelete ▸ hallowed⟩

theorem lookup_after_sign_out : ∃ s : Master, ∃ i j, i < 6 ∧
    s.sys.world.commits[i]? = some j ∧ j.call = .deleteSession "t0" := by
  obtain ⟨s, hrun, -, hcommits⟩ := sample_run
  obtain ⟨⟨k₁, hk₁, hcall₁⟩, ⟨k, hk, hbegan, hcall, hresult⟩, -⟩ := sample_commits hcommits
  have hopened :
      OpenedAt sampleAccounts (s.sys.world.commits.take k.began) (sampleSession 1) 2 := by
    refine ⟨k₁, ?_, ?_⟩
    · rw [hbegan, List.getElem?_take_of_lt (by decide)]
      exact hk₁
    · rw [hcall₁]
      exact ⟨rfl, rfl, by decide, by decide⟩
  obtain ⟨i, j, r, -, hi, hj, hdelete, -⟩ := lookup_none hrun hk hcall hresult hopened rfl
  exact ⟨s, i, j, hi, hj, hdelete⟩

end Main

end MasterServer
end Gaoming
