import Gaoming.HostStream

/-!
# A stream shows nothing that a check has not cleared

Every data frame is made from data that were read before a check of the
principal began, and that check found the authority of the principal in the
databases its statements saw. A failed check is the last thing a stream does
apart from refusing the request.
-/

namespace Gaoming
open Relational Transaction

section Authority
variable (svc : ReadService) (req : StreamRequest) (p : Principal) (now : Time)

/-- `db` holds the session of the request, and `db'` its user with the tenant and role of `p`. -/
def UserAuthority (db db' : Database) : Prop :=
  ∃ session ∈ db.userSessions.rows, ∃ user ∈ db'.users.rows, ∃ tenant ∈ db'.tenants.rows,
    session.tokenHash = svc.hashToken req.sessionCookie ∧ now < session.expiresAt ∧
    user.id = session.userID ∧ user.status = "active" ∧
    tenant.id = user.tenantID ∧ tenant.status = 1 ∧
    (user.id : ℤ) = p.userID ∧ tenant.tenantCode = p.tenantCode ∧ user.role = p.role

/-- `db` holds the session of the request and its share, unrevoked, of an active administrator in
an active tenant, with the tenant and fields of `p`; `db'` holds the hosts of `p`. -/
def ShareAuthority (db db' : Database) : Prop :=
  ∃ share ∈ db.accessShares.rows, ∃ session ∈ db.accessShareSessions.rows,
    ∃ tenant ∈ db.tenants.rows, ∃ admin ∈ db.users.rows,
    session.tokenHash = tokenHash svc.sha256 req.shareCookie ∧ session.shareID = share.id ∧
    timestamptz now < session.expiresAt ∧ timestamptz now < share.expiresAt ∧
    share.revokedAt = none ∧ tenant.id = share.tenantID ∧ tenant.status = 1 ∧
    admin.id = share.createdBy ∧ admin.tenantID = share.tenantID ∧ admin.status = "active" ∧
    admin.role = "admin" ∧
    share.id = p.shareID ∧ tenant.tenantCode = p.tenantCode ∧ share.fields = p.fields ∧
    ∀ uid, uid ∈ p.allowedHosts ↔ ∃ host ∈ db'.accessShareHosts.rows,
      host.shareID = share.id ∧ host.tenantID = share.tenantID ∧ host.hostUID = uid

def DemoAuthority (db : Database) : Prop :=
  svc.demo = some p ∧ ∃ tenant ∈ db.tenants.rows,
    tenant.tenantCode = p.tenantCode ∧ tenant.status = 1

/-- The databases that the statements of one check saw, in their order, hold what `p` may do. -/
inductive Authorised : List Database → Prop
  | user {db db' db'' : Database} (kind : p.kind = .user)
      (authority : UserAuthority svc req p now db db') : Authorised [db, db', db'']
  | share {db db' : Database} (kind : p.kind = .share)
      (authority : ShareAuthority svc req p now db db') : Authorised [db, db']
  | demo {db : Database} (kind : p.kind = .demo)
      (authority : DemoAuthority svc p db) : Authorised [db]

end Authority

theorem Database.userWithTenant_eq_some {db : Database} {userID : Serial} {user : UserRow}
    {tenant : TenantRow} (h : db.userWithTenant userID = some (user, tenant)) :
    user ∈ db.users.rows ∧ user.id = userID ∧ tenant ∈ db.tenants.rows ∧
      tenant.id = user.tenantID ∧ tenant.status = 1 := by
  simp only [Database.userWithTenant, Option.bind_eq_bind, Option.bind_eq_some_iff] at h
  obtain ⟨user', huser, tenant', htenant, h⟩ := h
  split_ifs at h with hstatus
  cases h
  exact ⟨Table.mem_of_get? huser, Table.key_of_get? huser, Table.mem_of_get? htenant,
    Table.key_of_get? htenant, hstatus⟩

theorem getUserBySessionTokenHash_answers {hash : String} {now : Time} {views : List Database}
    {user : User} {record : SessionRecord}
    (h : (getUserBySessionTokenHash hash now).Answers views (some (user, record))) :
    ∃ db db' db'' row tenant, views = [db, db', db''] ∧
      user = toUser row tenant.tenantCode none ∧ row.status = "active" ∧
      db'.userWithTenant record.userID = some (row, tenant) ∧
      ∃ session ∈ db.userSessions.rows, session.tokenHash = hash ∧ now < session.expiresAt ∧
        session.userID = record.userID := by
  simp only [getUserBySessionTokenHash, Tx.answers_bind, Tx.answers_query] at h
  obtain ⟨_, rest, found, rfl, ⟨db, rfl, hfound⟩, h⟩ := h
  cases found with
  | none => simp at h
  | some session =>
    have hhash : session.tokenHash = hash := by simpa using List.find?_some hfound
    dsimp only at h
    split_ifs at h with hexpired
    · simp at h
    simp only [Tx.answers_bind, Tx.answers_query] at h
    obtain ⟨_, rest, joined, rfl, ⟨db', rfl, hjoined⟩, h⟩ := h
    rcases joined with _ | ⟨row, tenant⟩
    · simp at h
    dsimp only at h
    split_ifs at h with hactive
    · simp at h
    simp only [Tx.answers_bind, Tx.answers_pure] at h
    obtain ⟨_, _, u, rfl, htouch, rfl, h⟩ := h
    obtain ⟨db'', rfl⟩ := Tx.Answers.of_exec htouch
    cases h
    exact ⟨db, db', db'', row, tenant, rfl, rfl, not_not.mp hactive, hjoined, session,
      List.mem_of_find?_eq_some hfound, hhash, not_le.mp hexpired, rfl⟩

theorem authenticateShareSession_answers {sha256 : String → String} {raw : String} {now : Time}
    {views : List Database} {p : Principal}
    (h : (authenticateShareSession sha256 raw now).Answers views p) :
    ∃ db db' row code, views = [db, db'] ∧
      db.validShare (fun x => timestamptz now < x.expiresAt &&
        db.accessShareSessions.rows.any fun r => r.shareID = x.id &&
          r.tokenHash = tokenHash sha256 raw && timestamptz now < r.expiresAt) = some row ∧
      code = ((db.tenants.get? row.tenantID).map TenantRow.tenantCode).getD "" ∧
      p.shareID = row.id ∧ p.tenantCode = code ∧ p.fields = row.fields ∧
      p.allowedHosts = ((db'.accessShareHosts.select fun r =>
        r.shareID = row.id && r.tenantID = row.tenantID).map
          AccessShareHostRow.hostUID).insertionSort (· ≤ ·) := by
  unfold authenticateShareSession at h
  split_ifs at h with hempty
  · simp at h
  simp only [validShare, sharePrincipal, Tx.answers_bind, Tx.answers_query] at h
  obtain ⟨_, _, ⟨row, code⟩, rfl, ⟨_, rest, found, rfl, ⟨db, rfl, hfound⟩, h⟩, h'⟩ := h
  cases found with
  | none => simp at h
  | some found =>
    obtain ⟨rfl, rfl⟩ := Tx.answers_pure.mp h
    obtain ⟨row', hrow, heq⟩ := Option.map_eq_some_iff.mp hfound
    cases heq
    obtain ⟨_, rest, hosts, rfl, ⟨db', rfl, rfl⟩, h'⟩ := h'
    obtain ⟨rfl, rfl⟩ := Tx.answers_pure.mp h'
    exact ⟨db, db', row, _, rfl, hrow, rfl, rfl, rfl, rfl, rfl⟩

theorem userAuthority_of_answers {svc : ReadService} {req : StreamRequest} {p : Principal}
    {now : Time} {views : List Database} (hkind : p.kind = .user)
    (h : (svc.recheckReadAccess req p now).Answers views true) :
    Authorised svc req p now views := by
  simp only [ReadService.recheckReadAccess, hkind, ReadService.resolveSessionUser,
    Tx.answers_bind, Tx.answers_mapError] at h
  obtain ⟨before, after, found, rfl, hfound, h⟩ := h
  obtain ⟨rfl, hsame⟩ := Tx.answers_pure.mp h
  rw [List.append_nil]
  split_ifs at hfound with hstore hhash
  · obtain ⟨-, rfl⟩ := Tx.answers_pure.mp hfound
    cases hsame
  · obtain ⟨-, rfl⟩ := Tx.answers_pure.mp hfound
    cases hsame
  rcases found with _ | ⟨user, record⟩
  · cases hsame
  obtain ⟨db, db', db'', row, tenant, rfl, rfl, hactive, hjoined, session, hsession, hhash,
    hexpires, hid⟩ := getUserBySessionTokenHash_answers hfound
  obtain ⟨huser, hrow, htenant, hown, hstatus⟩ := Database.userWithTenant_eq_some hjoined
  simp only [Option.any_some, toUser, Bool.and_eq_true, decide_eq_true_eq] at hsame
  exact .user hkind ⟨session, hsession, row, huser, tenant, htenant, hhash, hexpires,
    hrow.trans hid.symm, hactive, hown, hstatus, hsame.1.1, hsame.1.2,
    hsame.2⟩

theorem shareAuthority_of_answers {svc : ReadService} {req : StreamRequest} {p : Principal}
    {now : Time} {views : List Database} (hkind : p.kind = .share)
    (h : (svc.recheckReadAccess req p now).Answers views true) :
    Authorised svc req p now views := by
  simp only [ReadService.recheckReadAccess, hkind, ReadService.authenticateShareSession,
    Tx.answers_bind] at h
  obtain ⟨before, after, current, rfl, hcurrent, h⟩ := h
  obtain ⟨rfl, hsame⟩ := Tx.answers_pure.mp h
  rw [List.append_nil]
  split_ifs at hcurrent with hstore
  · exact absurd hcurrent Tx.not_answers_throw
  obtain ⟨db, db', row, code, rfl, hrow, hcode, hshare, htenantCode, hfields, hhosts⟩ :=
    authenticateShareSession_answers hcurrent
  simp only [Bool.and_eq_true, decide_eq_true_eq] at hsame
  obtain ⟨⟨⟨hid, hpcode⟩, hphosts⟩, hpfields⟩ := hsame
  obtain ⟨hmem, hvalid⟩ := Table.mem_of_first hrow
  simp only [Bool.and_eq_true, List.any_eq_true, decide_eq_true_eq, Option.any_eq_true,
    Option.isNone_iff_eq_none] at hvalid
  obtain ⟨⟨⟨⟨tenant, htenant, hstatus⟩, admin, hadmin, ⟨⟨⟨hcreated, hown⟩, hactive⟩, hrole⟩⟩,
    hunrevoked⟩, hexpires, session, hsession, ⟨⟨hsid, hhash⟩, hsexpires⟩⟩ := hvalid
  refine .share hkind ⟨row, hmem, session, hsession, tenant, Table.mem_of_get? htenant, admin,
    hadmin, hhash, hsid, hsexpires, hexpires, hunrevoked, Table.key_of_get? htenant, hstatus,
    hcreated, hown, hactive, hrole, hshare.symm.trans hid, ?_, hfields.symm.trans hpfields, ?_⟩
  · rw [← hpcode, htenantCode, hcode, htenant]
    rfl
  · intro uid
    rw [← hphosts, hhosts]
    simp [and_assoc]

theorem demoAuthority_of_answers {svc : ReadService} {req : StreamRequest} {p : Principal}
    {now : Time} {views : List Database} (hkind : p.kind = .demo)
    (h : (svc.recheckReadAccess req p now).Answers views true) :
    Authorised svc req p now views := by
  simp only [ReadService.recheckReadAccess, hkind, ReadService.demoPrincipal, Tx.answers_bind] at h
  obtain ⟨before, after, current, rfl, hcurrent, h⟩ := h
  obtain ⟨rfl, hsame⟩ := Tx.answers_pure.mp h
  rw [List.append_nil]
  cases hdemo : svc.demo with
  | none =>
    rw [hdemo] at hcurrent
    exact absurd hcurrent Tx.not_answers_throw
  | some demo =>
    rw [hdemo] at hcurrent
    dsimp only at hcurrent
    split_ifs at hcurrent with hform hstore
    · exact absurd hcurrent Tx.not_answers_throw
    · exact absurd hcurrent Tx.not_answers_throw
    simp only [validateDemo, Tx.answers_bind] at hcurrent
    obtain ⟨before, after, u, rfl, hvalid, hcurrent⟩ := hcurrent
    obtain ⟨rfl, rfl⟩ := Tx.answers_pure.mp hcurrent
    split_ifs at hvalid with hrefused
    · exact absurd hvalid Tx.not_answers_throw
    simp only [Tx.answers_bind, Tx.answers_query] at hvalid
    obtain ⟨_, rest, active, rfl, ⟨db, rfl, rfl⟩, hvalid⟩ := hvalid
    split_ifs at hvalid with hactive
    · exact absurd hvalid Tx.not_answers_throw
    obtain ⟨rfl, -⟩ := Tx.answers_pure.mp hvalid
    have hp : demo = p := by simpa using hsame
    subst hp
    simp only [Bool.not_eq_true', Bool.not_eq_false, List.any_eq_true, Bool.and_eq_true,
      decide_eq_true_eq] at hactive
    exact .demo hkind ⟨hdemo, hactive⟩

theorem authorised_of_answers {svc : ReadService} {req : StreamRequest} {p : Principal}
    {now : Time} {views : List Database}
    (h : (svc.recheckReadAccess req p now).Answers views true) :
    Authorised svc req p now views := by
  cases hkind : p.kind with
  | user => exact userAuthority_of_answers hkind h
  | share => exact shareAuthority_of_answers hkind h
  | demo => exact demoAuthority_of_answers hkind h
  | agent | worker =>
    simp only [ReadService.recheckReadAccess, hkind] at h
    exact absurd (Tx.answers_pure.mp h).2 Bool.false_ne_true

section History
variable (svc : ReadService) (req : StreamRequest) (p : Principal)

/-- The newest happenings are a check that passed, begun after `data` had been obtained, and
`frame` is what `p` may see of these data. -/
def Cleared (past : List Happening) (frame : Frame) : Prop :=
  ∃ data clock now views early,
    past = .checked true ::
      (views.reverse.map .statement ++ .checking now :: .obtained data :: early) ∧
    data.frame p clock = some frame ∧ Authorised svc req p now views

/-- Every frame was written while no check had failed, and a data frame was cleared. -/
def SoundHistory (history : List Happening) : Prop :=
  ∀ frame past, .wrote frame :: past <:+ history →
    .checked false ∉ past ∧ (frame.isData = true → Cleared svc req p past frame)

/-- A check is running: the history ends with its statements, and `prog` is what remains. -/
def Checking (history : List Happening) (prog : CheckTx Bool) (next : Option FrameData) : Prop :=
  ∃ now views early, history = views.reverse.map .statement ++ .checking now :: early ∧
    (prog = .fail .database ∨ (svc.recheckReadAccess req p now).replay views = some prog) ∧
    ∀ data, next = some data → ∃ earlier, early = .obtained data :: earlier

def SoundPhase (history : List Happening) : Phase → Prop
  | .readHosts _ | .readHistories .. | .select => .checked false ∉ history
  | .subscribe data => .checked false ∉ history ∧ ∃ early, history = .obtained data :: early
  | .recheck prog next => .checked false ∉ history ∧ Checking svc req p history prog next
  | .write frame =>
    .checked false ∉ history ∧ (frame.isData = true → Cleared svc req p history frame)
  | .closed => True

structure Stream.Sound (s : Stream) : Prop where
  history : SoundHistory svc req p s.history
  phase : SoundPhase svc req p s.history s.phase

end History

section Steps
variable {svc : ReadService} {req : StreamRequest} {p : Principal} {s : Stream}

theorem SoundHistory.cons {history : List Happening} {h : Happening}
    (hs : SoundHistory svc req p history)
    (hwrote : ∀ frame, h = .wrote frame → .checked false ∉ history ∧
      (frame.isData = true → Cleared svc req p history frame)) :
    SoundHistory svc req p (h :: history) := by
  intro frame past hpast
  rcases List.suffix_cons_iff.mp hpast with heq | hpast
  · obtain ⟨rfl, rfl⟩ := List.cons.inj heq
    exact hwrote frame rfl
  · exact hs frame past hpast

namespace Stream

theorem Sound.enter (h : s.Sound svc req p) {phase : Phase}
    (hphase : SoundPhase svc req p s.history phase) : (s.enter phase).Sound svc req p :=
  ⟨h.history, hphase⟩

/-- A happening that is no frame, after which the stream goes on in `phase`. -/
theorem Sound.record_enter (h : s.Sound svc req p) {happening : Happening} {phase : Phase}
    (hframe : ∀ frame, happening ≠ .wrote frame)
    (hphase : SoundPhase svc req p (happening :: s.history) phase) :
    ((s.record happening).enter phase).Sound svc req p :=
  ⟨h.history.cons fun frame heq => absurd heq (hframe frame), hphase⟩

theorem Sound.refuse (h : s.Sound svc req p) (status : ℕ) (error : String) :
    (s.refuse status error).Sound svc req p :=
  h.record_enter (by simp) trivial

theorem Sound.obtain (h : s.Sound svc req p) (hopen : .checked false ∉ s.history)
    (data : FrameData) : (s.obtain data).Sound svc req p :=
  h.record_enter (by simp) ⟨by simpa using hopen, s.history, rfl⟩

theorem sound_beginCheck (h : SoundHistory svc req p s.history)
    (hopen : .checked false ∉ s.history) {next : Option FrameData}
    (hnext : ∀ data, next = some data → ∃ early, s.history = .obtained data :: early) :
    (s.beginCheck svc req p next).Sound svc req p :=
  ⟨h.cons (by simp), List.not_mem_cons_of_ne_of_not_mem (by simp) hopen,
    s.world.clock, [], s.history, rfl, .inr rfl, hnext⟩

/-- A check that has failed closes the stream. -/
theorem Sound.endCheck_false (h : s.Sound svc req p) (next : Option FrameData) :
    (s.endCheck p false next).Sound svc req p := by
  have hrecord : (s.record (.checked false)).enter .closed |>.Sound svc req p :=
    h.record_enter (by simp) trivial
  match next with
  | none => exact hrecord
  | some (.update event now) => exact hrecord
  | some (.sync items histories) =>
    exact ⟨(hrecord.refuse 401 "unauthorized").history, trivial⟩

theorem Sound.endCheck_true (h : s.Sound svc req p) {next : Option FrameData}
    (hopen : .checked false ∉ s.history)
    (hchecking : Checking svc req p s.history (.done true) next) :
    (s.endCheck p true next).Sound svc req p := by
  have hopen' : .checked false ∉ Happening.checked true :: s.history := by simpa using hopen
  cases next with
  | none => exact h.record_enter (by simp) hopen'
  | some data =>
    simp only [endCheck]
    cases hframe : data.frame p (s.record (.checked true)).world.clock with
    | none => exact h.record_enter (by simp) hopen'
    | some frame =>
      refine h.record_enter (by simp) ⟨hopen', fun _ => ?_⟩
      obtain ⟨now, views, early, hhistory, hprog | hprog, hnext⟩ := hchecking
      · cases hprog
      obtain ⟨earlier, rfl⟩ := hnext data rfl
      exact ⟨data, _, now, views, earlier, by rw [hhistory], hframe, authorised_of_answers hprog⟩

theorem Sound.checkStatement (h : s.Sound svc req p) {prog prog' : CheckTx Bool}
    {next : Option FrameData} {as : List Access} {world : StreamWorld}
    (hopen : .checked false ∉ s.history) (hchecking : Checking svc req p s.history prog next)
    (hadvance : prog.advance s.world.db = some (prog', as)) :
    ({ s.record (.statement s.world.db) with
      phase := .recheck prog' next, world := world } : Stream).Sound svc req p := by
  refine ⟨h.history.cons (by simp), by simpa [Stream.record] using hopen, ?_⟩
  obtain ⟨now, views, early, hhistory, hprog | hprog, hnext⟩ := hchecking
  · subst hprog
    cases hadvance
  refine ⟨now, views ++ [s.world.db], early, ?_, .inr ?_, hnext⟩
  · simp [Stream.record, hhistory]
  · rw [Tx.replay_concat hprog, hadvance]
    rfl

theorem Sound.wrote (h : s.Sound svc req p) {frame : Frame} {phase : Phase}
    (hopen : .checked false ∉ s.history)
    (hframe : frame.isData = true → Cleared svc req p s.history frame)
    (hphase : SoundPhase svc req p (.wrote frame :: s.history) phase) :
    ((s.record (.wrote frame)).enter phase).Sound svc req p := by
  refine ⟨h.history.cons fun frame' heq => ?_, hphase⟩
  cases heq
  exact ⟨hopen, hframe⟩

theorem Sound.advance (h : s.Sound svc req p) : (s.advance svc req p).Sound svc req p := by
  have hphase := h.phase
  unfold Stream.advance
  cases hs : s.phase with
  | readHosts prog =>
    rw [hs] at hphase
    cases prog with
    | fail e => exact h.refuse 500 _
    | done items =>
      dsimp only
      split_ifs
      · exact h.enter hphase
      · exact h.obtain hphase _
    | stmt exec next =>
      dsimp only
      split
      · exact h
      · exact ⟨h.history, hphase⟩
  | readHistories items rest histories =>
    rw [hs] at hphase
    cases rest with
    | nil => exact h.obtain hphase _
    | cons hostUID rest => exact h.enter hphase
  | subscribe data =>
    rw [hs] at hphase
    refine sound_beginCheck h.history hphase.1 fun data' heq => ?_
    cases heq
    exact hphase.2
  | recheck prog next =>
    rw [hs] at hphase
    cases prog with
    | fail e => exact h.endCheck_false next
    | done ok =>
      cases ok with
      | false => exact h.endCheck_false next
      | true => exact h.endCheck_true hphase.1 hphase.2
    | stmt exec rest =>
      dsimp only
      split
      · exact h
      · exact h.checkStatement hphase.1 hphase.2 (by assumption)
  | write frame =>
    rw [hs] at hphase
    exact h.wrote hphase.1 hphase.2 (by simpa [SoundPhase] using hphase.1)
  | select => exact h
  | closed => exact h

theorem Sound.fail (h : s.Sound svc req p) : s.fail.Sound svc req p := by
  have hphase := h.phase
  unfold Stream.fail
  cases hs : s.phase with
  | readHosts prog => exact h.refuse 500 _
  | readHistories items rest histories => exact h.refuse 500 _
  | subscribe data => exact h.refuse 500 _
  | recheck prog next =>
    rw [hs] at hphase
    obtain ⟨hopen, now, views, early, hhistory, -, hnext⟩ := hphase
    exact h.enter ⟨hopen, now, views, early, hhistory, .inl rfl, hnext⟩
  | write frame =>
    rw [hs] at hphase
    exact h.wrote hphase.1 hphase.2 trivial
  | select => exact h
  | closed => exact h

theorem Sound.received (h : s.Sound svc req p) (hopen : .checked false ∉ s.history)
    (input : StreamStep) : (s.received svc req p input).Sound svc req p := by
  cases input with
  | ctxDone => exact h.enter trivial
  | updatesClosed => exact h.enter trivial
  | recheckTick => exact sound_beginCheck h.history hopen (by simp)
  | update event =>
    refine sound_beginCheck (h.history.cons (by simp)) ?_ fun data heq => ?_
    · exact List.not_mem_cons_of_ne_of_not_mem (by simp) hopen
    · cases heq
      exact ⟨s.history, rfl⟩
  | heartbeat => exact h.enter ⟨hopen, fun hdata => absurd hdata (by simp [Frame.isData])⟩
  | env world => exact h
  | advance => exact h
  | fail => exact h
  | marshalError => exact h

theorem Sound.step (h : s.Sound svc req p) (input : StreamStep) :
    (s.step svc req p input).Sound svc req p := by
  cases input with
  | env world => exact ⟨h.history, h.phase⟩
  | advance => exact h.advance
  | fail => exact h.fail
  | marshalError =>
    have hphase := h.phase
    unfold Stream.step
    cases hs : s.phase with
    | write frame =>
      rw [hs] at hphase
      dsimp only
      split_ifs
      · exact h.enter hphase.1
      · exact h
    | _ => exact h
  | ctxDone | recheckTick | update | updatesClosed | heartbeat =>
    have hphase := h.phase
    unfold Stream.step
    cases hs : s.phase with
    | select =>
      rw [hs] at hphase
      exact h.received hphase _
    | _ => exact h

theorem sound_start (world : StreamWorld) : (start p world).Sound svc req p where
  history := fun frame past hpast => by cases List.suffix_nil.mp hpast
  phase := List.not_mem_nil

theorem Sound.run (h : s.Sound svc req p) (steps : List StreamStep) :
    (s.run svc req p steps).Sound svc req p := by
  induction steps generalizing s with
  | nil => exact h
  | cons input steps ih => exact ih (h.step input)

end Stream
end Steps

/-- However the database, the window, the clock and the pushed events change between the steps
of a stream: before a data frame there is a check that began when the frame's data had been
obtained and that found the authority of the principal for whom they are projected, and no frame
follows a failed check. -/
theorem stream_fails_closed (svc : ReadService) (req : StreamRequest) (p : Principal)
    (world : StreamWorld) (steps : List StreamStep) :
    (∀ frame past, .wrote frame :: past <:+ ((Stream.start p world).run svc req p steps).history →
      frame.isData = true →
      ∃ data clock now views early,
        past = .checked true ::
          (views.reverse.map .statement ++ .checking now :: .obtained data :: early) ∧
        data.frame p clock = some frame ∧ Authorised svc req p now views) ∧
    ∀ late early, ((Stream.start p world).run svc req p steps).history =
      late ++ .checked false :: early → ∀ frame, .wrote frame ∉ late := by
  have hsound := ((Stream.sound_start world).run steps : Stream.Sound svc req p _).history
  constructor
  · intro frame past hpast hdata
    exact (hsound frame past hpast).2 hdata
  · intro late early heq frame hmem
    obtain ⟨after, before, rfl⟩ := List.append_of_mem hmem
    refine (hsound frame (before ++ .checked false :: early) ?_).1 (by simp)
    exact ⟨after, by simp [heq]⟩

def acmeDemo : Principal :=
  { kind := .demo, tenantCode := "acme", allowedHosts := ["h1"], fields := ["status"] }

-- The sync is written; then the tenant is switched off, and neither the next event nor a
-- heartbeat gets through.
example : ((Stream.start acmeDemo { db := acmeDatabase }).run
    { sha256 := id, demo := some acmeDemo } {} acmeDemo
    (List.replicate 9 .advance ++ [.env { db := acmeDatabase.disableTenant "acme" },
      .update ⟨.upsert, "h1", none⟩, .advance, .advance, .heartbeat, .advance])).history.map
      Happening.isFrame = [false, false, false, false, true, false, false, false, false] := by
  decide +kernel

end Gaoming
