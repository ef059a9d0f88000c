import Gaoming.TenantMarks

/-!
# What the calls write of a tenant

What each call of the master writes, in the world in which it commits: a call of the
console writes rows of the tenant it acts for, a login stamps its user's row, and the
other calls write no row that belongs to a tenant.
-/

namespace Gaoming
open Relational Transaction

abbrev TableWorld := World Database MasterCall MasterReply

abbrev Database.tenantMark? (db : Database) (k : Key) : Option Mark := tenantMarks.mark? db k

structure TenantRely (acc : List Access) (u v : TableWorld) : Prop where
  marks : tenantMarks.Rely acc u.db v.db
  users : ∀ id, HoldsKey Database acc (.user id) → v.db.users.get? id = u.db.users.get? id
  sessions : ∀ h, HoldsKey Database acc (.shareSession h) →
    v.db.accessShareSessions.get? h = u.db.accessShareSessions.get? h

/-- The access writes no row of another tenant than `τ`, and no session. -/
def Access.Of (τ : Serial) : Access → Prop
  | .putUser r => r.tenantID = τ
  | .putUserPassword r => r.tenantID = τ
  | .putAlertEvent r => r.tenantID = τ
  | .putMaintenanceWindow r => r.tenantID = τ
  | .putShare r => r.tenantID = τ
  | .putShareHost r => r.tenantID = τ
  | .insertAuditLog r => r.tenantID = τ
  | .putShareSession _ | .eraseShareSession _ => False
  | _ => True

/-- Such an access, or the deletion of a session of one of the tenant's shares. -/
def Access.Confined (τ : Serial) (db : Database) : Access → Prop
  | .eraseShareSession h => ∀ r, db.accessShareSessions.get? h = some r →
    db.tenantMark? (.share r.shareID) = some (.tenant τ)
  | a => a.Of τ

/-- What a call has done that acts for the tenant `τ` with this code. -/
structure Acting (code : String) (τ : Serial) (acc : List Access) (db : Database) : Prop where
  keeps : ∀ a ∈ acc, tenantMarks.Keeps db a
  tenant : (Tx.view db acc).tenantMark? (.tenant τ) = some (.code code)
  confined : ∀ a ∈ acc, a.Confined τ db

section Acting
variable {code : String} {τ : Serial} {acc as : List Access} {db : Database} {a : Access}
variable {u v w : TableWorld} {α ε : Type}

theorem Access.Of.confined (h : a.Of τ) : a.Confined τ db := by
  cases a with
  | eraseShareSession => exact h.elim
  | _ => exact h

theorem Access.Confined.of_rely (h : a.Confined τ u.db) (ha : a ∈ acc) (hr : TenantRely acc u v) :
    a.Confined τ v.db := by
  cases a with
  | eraseShareSession hash =>
    intro r hrow
    rw [hr.sessions hash ⟨_, ha, rfl, by simp [Storage.mode, Access.mode]⟩] at hrow
    exact hr.marks.stays _ _ (h r hrow)
  | _ => exact h

theorem Acting.of_rely (h : Acting code τ acc u.db) (hr : TenantRely acc u v) :
    Acting code τ acc v.db := by
  have hkeeps : ∀ a ∈ acc, tenantMarks.Keeps v.db a :=
    fun a ha => (h.keeps a ha).of_rely ha hr.marks
  exact ⟨hkeeps, hr.marks.stays_seen hkeeps h.tenant,
    fun a ha => (h.confined a ha).of_rely ha hr⟩

theorem Acting.append (h : Acting code τ acc db)
    (hkeeps : ∀ a ∈ as, tenantMarks.Keeps (Tx.view db acc) a)
    (hconfined : ∀ a ∈ as, a.Confined τ db) : Acting code τ (acc ++ as) db where
  keeps := Marking.keeps_append h.keeps hkeeps
  tenant := by
    rw [Tx.view_append]
    exact Marking.stays_view hkeeps h.tenant
  confined := List.forall_mem_append.mpr ⟨h.confined, hconfined⟩

/-- The rows under these keys are known to be the tenant's. -/
def Known (known : Key → Prop) (τ : Serial) (db : Database) : Prop :=
  ∀ k, known k → db.tenantMark? k = some (.tenant τ)

theorem Known.of_rely {known : Key → Prop} (h : Known known τ u.db) (hr : TenantRely acc u v) :
    Known known τ v.db := fun k hk => hr.marks.stays k _ (h k hk)

theorem wp_acting (known : Key → Prop) {p : Tx Database Access ε α}
    (hp : p.UsesAt fun db a => Known known τ db → a.Of τ ∧ tenantMarks.Keeps db a)
    (h : Acting code τ acc w.db) (hknown : Known known τ w.db) :
    p.wp TenantRely (fun _ acc w => Acting code τ acc w.db ∧ Known known τ w.db) acc w := by
  refine Tx.wp_of_usesAt hp ?_ ?_ ⟨h, hknown⟩
  · exact fun acc u v hr hu => ⟨hu.1.of_rely hr, hu.2.of_rely hr⟩
  · intro acc as w hw has
    have hseen : Known known τ (Tx.view w.db acc) :=
      fun k hk => Marking.stays_view hw.1.keeps (hw.2 k hk)
    exact ⟨hw.1.append (fun a ha => (has a ha hseen).2) fun a ha => (has a ha hseen).1.confined,
      hw.2⟩

theorem wp_acting_of {p : Tx Database Access ε α} (hkeeps : p.UsesAt tenantMarks.Keeps)
    (hof : p.Uses (Access.Of τ)) (h : Acting code τ acc w.db) :
    p.wp TenantRely (fun _ acc w => ∃ τ, Acting code τ acc w.db) acc w := by
  have hp : p.UsesAt fun db a =>
      Known (fun _ => False) τ db → a.Of τ ∧ tenantMarks.Keeps db a :=
    (hof.usesAt.and hkeeps).mono fun db a ha _ => ha
  exact Tx.wp_mono (fun _ acc w hw => ⟨τ, hw.1⟩) (wp_acting _ hp h fun k hk => hk.elim)

theorem usesAt_none {p : Tx Database Access ε α} (h : p.Uses fun a => a.record? = none) :
    p.UsesAt tenantMarks.Keeps := h.usesAt.mono fun _ _ ha => Marking.keeps_of_none ha

theorem of_checkLocks (x : UserRow) (t : TenantRow) (m : Mode) :
    ∀ a ∈ checkLocks x t m, a.Of τ ∧ a.record? = none := by
  intro a ha
  simp only [checkLocks, List.mem_cons, List.not_mem_nil, or_false] at ha
  rcases ha with rfl | rfl <;> exact ⟨trivial, rfl⟩

/-- After the permission check. -/
theorem acting_check {p : Principal} {admin : Bool} {x : UserRow} {t : TenantRow} {m : Mode}
    (h : Authorized p admin x t db) : Acting p.tenantCode t.id (checkLocks x t m) db where
  keeps := fun a ha => Marking.keeps_of_none (of_checkLocks (τ := t.id) x t m a ha).2
  tenant := by
    change ((db.tenants.get? t.id).map TenantRecord.tenant).map TenantRecord.mark = _
    rw [h.tenant, ← h.code]
    rfl
  confined := fun a ha => (of_checkLocks x t m a ha).1.confined

end Acting

section Console
variable {w : TableWorld}

theorem acting_createMaintenance (id : Serial) (clock : Time) (p : Principal)
    (req : CreateMaintenanceRequest) :
    (createMaintenance id clock p req).wp TenantRely
      (fun _ acc w => ∃ τ, Acting p.tenantCode τ acc w.db) [] w := by
  refine wp_operationTenant_bind fun v u t _ hauth => wp_acting_of ?_ ?_ (acting_check hauth)
  · refine Tx.usesAt_bind (usesAt_none (Tx.uses_query _)) fun found =>
      Tx.usesAt_ite (Tx.usesAt_throw _) ?_
    refine Tx.usesAt_bind (keeps_insertMaintenanceWindow _) fun _ => ?_
    exact Tx.usesAt_bind (usesAt_none (uses_writeOperationAudit fun _ => rfl)) fun _ =>
      Tx.usesAt_pure _
  · refine Tx.uses_query_bind fun db => Tx.uses_ite (Tx.uses_throw _) ?_
    refine Tx.uses_bind (uses_insertMaintenanceWindow fun r hr => hr) fun _ => ?_
    exact Tx.uses_bind (uses_writeOperationAudit fun _ => rfl) fun _ => Tx.uses_pure _

theorem acting_ackAlert (p : Principal) (alertID : String) (now : Time) :
    (ackAlert p alertID now).wp TenantRely
      (fun _ acc w => ∃ τ, Acting p.tenantCode τ acc w.db) [] w := by
  unfold ackAlert
  cases parseInt alertID with
  | none => exact Tx.wp_throw
  | some id =>
    refine Tx.wp_ite (fun _ => Tx.wp_throw) fun _ => ?_
    refine wp_operationTenant_bind fun v u t _ hauth => ?_
    refine Tx.wp_exec fun v' hv' event as hexec => ?_
    split at hexec
    · cases hexec
    rename_i row hfind
    cases hexec
    have hp := List.find?_some hfind
    simp only [Bool.and_eq_true, decide_eq_true_eq] at hp
    have hrow : v'.db.alertEvents.get? event.id = some event :=
      Table.get?_of_mem (List.mem_of_find?_eq_some hfind)
    have hacting : Acting p.tenantCode t.id
        (checkLocks u t .share ++ [.lockAlertEvent event.id .exclusive]) v'.db := by
      refine ((acting_check hauth).of_rely hv').append ?_ ?_
      · exact fun a ha => List.mem_singleton.mp ha ▸ Marking.keeps_of_none rfl
      · exact fun a ha => List.mem_singleton.mp ha ▸ trivial
    have hknown : Known (fun k => k = .alertEvent event.id) t.id v'.db := by
      rintro k rfl
      change ((v'.db.alertEvents.get? event.id).map _).map _ = _
      rw [hrow, ← hp.2]
      rfl
    refine Tx.wp_mono (fun _ acc w hw => ⟨t.id, hw.1⟩) (wp_acting _ ?_ hacting hknown)
    refine Tx.usesAt_ite (Tx.usesAt_pure _) (Tx.usesAt_bind ?_ fun _ => ?_)
    · -- The row that is written back has the tenant of the row under the lock.
      refine Tx.usesAt_exec fun db x as hx a ha hk =>
        ⟨?_, (keeps_updateAlertAck _ _ _ db x as hx).1 a ha⟩
      split at hx
      · cases hx
        cases ha
      · rename_i e he
        cases hx
        rw [List.mem_singleton.mp ha]
        have hm := hk _ rfl
        change ((db.alertEvents.get? event.id).map _).map _ = _ at hm
        rw [he] at hm
        exact Mark.tenant.inj (Option.some.inj hm)
    · refine Tx.UsesAt.mono (Tx.Uses.usesAt (uses_writeOperationAudit (q := fun a =>
        a.Of t.id ∧ a.record? = none) fun _ => ⟨rfl, rfl⟩)) ?_
      exact fun db a ha _ => ⟨ha.1, Marking.keeps_of_none ha.2⟩

theorem acting_createShare (d : ShareDraws) (p : Principal) (req : CreateShareRequest)
    (hash : String) (now : Time) :
    (createShare d p req hash now).wp TenantRely
      (fun _ acc w => ∃ τ, Acting p.tenantCode τ acc w.db) [] w := by
  unfold createShare
  refine Tx.wp_ite (fun _ => Tx.wp_throw) fun _ => ?_
  cases validateShareRequest req with
  | error e => exact Tx.wp_throw
  | ok _ =>
    refine Tx.wp_ite (fun _ => Tx.wp_throw) fun _ => ?_
    refine wp_tenantForAdmin_control fun v u t hauth => wp_acting_of ?_ ?_ (acting_check hauth)
    · refine Tx.usesAt_bind (usesAt_none (Tx.uses_query _)) fun _ =>
        Tx.usesAt_ite (Tx.usesAt_throw _) ?_
      refine Tx.usesAt_bind (usesAt_none uses_countHosts) fun _ =>
        Tx.usesAt_ite (Tx.usesAt_throw _) ?_
      refine Tx.usesAt_bind (keeps_insertShare _ _ _ _ _ _ _ _) fun _ => ?_
      refine Tx.usesAt_bind (keeps_insertShareHosts _ _ _) fun _ => ?_
      exact Tx.usesAt_bind (usesAt_none (uses_audit rfl)) fun _ => Tx.usesAt_pure _
    · refine Tx.uses_query_bind fun db => Tx.uses_ite (Tx.uses_throw _) ?_
      refine Tx.uses_bind uses_countHosts fun _ => Tx.uses_ite (Tx.uses_throw _) ?_
      refine Tx.uses_bind (uses_insertShare (fun _ => trivial) fun _ hr => hr) fun _ => ?_
      refine Tx.uses_bind (uses_insertShareHosts fun _ hr => hr) fun _ => ?_
      exact Tx.uses_bind (uses_audit rfl) fun _ => Tx.uses_pure _

theorem sessions_of_view {τ : Serial} {acc : List Access} (h : ∀ a ∈ acc, a.Of τ)
    (db : Database) : (Tx.view db acc).accessShareSessions = db.accessShareSessions := by
  refine view_frame (f := Database.accessShareSessions) (fun a ha x => ?_) db
  have hof := h a ha
  cases a with
  | putShareSession | eraseShareSession => exact hof.elim
  | _ => rfl

theorem acting_revokeShare (p : Principal) (id : String) (now : Time) :
    (revokeShare p id now).wp TenantRely
      (fun _ acc w => ∃ τ, Acting p.tenantCode τ acc w.db) [] w := by
  refine wp_tenantForAdmin_control fun v u t hauth => ?_
  refine Tx.wp_query fun v' hv' => Tx.wp_ite (fun _ => Tx.wp_throw) fun hfound => ?_
  have hknown : v'.db.tenantMark? (.share id) = some (.tenant t.id) := by
    simp only [Bool.not_eq_true', Bool.not_eq_false, List.any_eq_true, Bool.and_eq_true,
      decide_eq_true_eq] at hfound
    obtain ⟨x, hx, rfl, hten⟩ := hfound
    change ((v'.db.accessShares.get? x.id).map _).map _ = _
    rw [Table.get?_of_mem (t := v'.db.accessShares) hx, ← hten]
    rfl
  refine Tx.wp_exec fun w hw _ as hexec => ?_
  have hof : ∀ a ∈ checkLocks u t .exclusive ++ as, a.Of t.id :=
    List.forall_mem_append.mpr ⟨fun a ha => (of_checkLocks u t .exclusive a ha).1,
      (uses_markRevoked (fun _ hr => hr) _ _ _ hexec).1⟩
  have hacting := (((acting_check hauth).of_rely hv').of_rely hw).append
    (keeps_markRevoked id t.id now _ _ _ hexec).1
    fun a ha => (hof a (List.mem_append_right _ ha)).confined
  refine Tx.wp_exec fun w' hw' _ bs hdelete => ?_
  -- The sessions deleted are those of the share, which is still the tenant's.
  have hshare := hw'.marks.stays _ _ (hw.marks.stays _ _ hknown)
  cases hdelete
  refine wp_acting_of (usesAt_none (uses_audit rfl)) (uses_audit rfl)
    ((hacting.of_rely hw').append (fun a ha => ?_) fun a ha => ?_)
  · obtain ⟨r, -, rfl⟩ := List.mem_map.mp ha
    exact Marking.keeps_of_none rfl
  · obtain ⟨r, hr, rfl⟩ := List.mem_map.mp ha
    intro x hx
    rw [Table.mem_select, sessions_of_view hof] at hr
    cases (Table.get?_of_mem hr.1).symm.trans hx
    simp only [Bool.and_true, decide_eq_true_eq] at hr
    rw [hr.2]
    exact hshare

/-- The saved row was read without a lock, but its tenant cannot have changed since. -/
theorem acting_updateUser (d : AccountDraws) (tenantCode : String) (userID : ℤ)
    (patch : UserUpdate) :
    (updateUser d tenantCode userID patch).wp TenantRely
      (fun _ acc w => ∃ τ, Acting tenantCode τ acc w.db) [] w := by
  refine Tx.wp_query fun v _ => ?_
  cases hfind : (Tx.view v.db []).tenants.rows.find? fun t => t.tenantCode = tenantCode with
  | none => exact Tx.wp_throw
  | some t =>
    have hcode : t.tenantCode = tenantCode := by simpa using List.find?_some hfind
    have hrow : v.db.tenants.get? t.id = some t :=
      Table.get?_of_mem (List.mem_of_find?_eq_some hfind)
    refine Tx.wp_exec fun v' hv' user as hexec => ?_
    split at hexec
    · cases hexec
    rename_i row huser
    cases hexec
    obtain ⟨hget, -, hten⟩ := find_user_of_tenant huser
    have hacting : Acting tenantCode t.id [.readUser user.id] v'.db := by
      refine ⟨?_, hv'.marks.stays _ _ ?_, ?_⟩
      · exact fun a ha => List.mem_singleton.mp ha ▸ Marking.keeps_of_none rfl
      · change ((v.db.tenants.get? t.id).map _).map _ = _
        rw [hrow, ← hcode]
        rfl
      · exact fun a ha => List.mem_singleton.mp ha ▸ trivial
    have hknown : Known (fun k => k = .user user.id) t.id v'.db := by
      rintro k rfl
      change ((v'.db.users.get? user.id).map _).map _ = _
      rw [show v'.db.users.get? user.id = some user from hget, ← hten]
      rfl
    refine Tx.wp_mono (fun _ acc w hw => ⟨t.id, hw.1⟩) (wp_acting _ ?_ hacting hknown)
    refine Tx.usesAt_bind ?_ fun _ => (Tx.uses_bind (Tx.uses_query _) fun _ =>
      Tx.uses_pure _).usesAt.mono (q := fun _ _ => False) fun _ _ h => h.elim
    refine Tx.UsesAt.mono (Tx.Uses.usesAt (uses_saveUser (q := fun a => a = .lockUsers .share ∨
      ∃ r, a = .putUser r ∧ r.id = user.id ∧ r.tenantID = t.id) (.inl rfl) fun r hr => ?_)) ?_
    · obtain ⟨hid, hsame, -⟩ := UserRow.stored_spec hr
      exact .inr ⟨r, rfl, hid, hsame.trans hten⟩
    · rintro db a (rfl | ⟨r, rfl, hid, hsame⟩) hk
      · exact ⟨trivial, Marking.keeps_of_none rfl⟩
      · refine ⟨hsame, fun x m hx hm => ?_⟩
        cases hx
        change db.tenantMark? (.user r.id) = some m at hm
        rw [hid, hk _ rfl] at hm
        cases hm
        rw [← hsame]
        rfl

end Console

/-- A row, whenever its user has last signed in. -/
def TenantRecord.unstamped : TenantRecord → TenantRecord
  | .user r => .user { r with lastLoginAt := none, updatedAt := 0 }
  | x => x

/-- The access writes no row of any tenant, up to the time of a login. -/
def Access.Stamps (db : Database) : Access → Prop
  | .insertAuditLog _ => False
  | .putTenant _ => True
  | .putUser r => ∃ u, db.users.get? r.id = some u ∧
    (TenantRecord.user u).unstamped = (TenantRecord.user r).unstamped
  | a => a.record? = none

def Access.onShareSession : Access → Bool
  | .putShareSession _ | .eraseShareSession _ => true
  | _ => false

structure Aside (exchanges : Bool) (acc : List Access) (db : Database) : Prop where
  keeps : ∀ a ∈ acc, tenantMarks.Keeps db a
  stamps : ∀ a ∈ acc, a.Stamps db
  sessions : exchanges = false → ∀ a ∈ acc, a.onShareSession = false

/-- The code of the tenant whose rows a call may write. -/
def MasterCall.actsFor : MasterCall → Option String
  | .control (.createMaintenance _ _ p _) | .control (.createShare _ p _ _ _)
  | .control (.revokeShare p _ _) | .control (.ackAlert p _ _) => some p.tenantCode
  | .control (.updateUser _ tenantCode _ _) => some tenantCode
  | .bootstrapAdmin _ account _ => some account.tenantCode
  | _ => none

def MasterCall.exchanges : MasterCall → Bool
  | .exchangeShare _ _ _ => true
  | _ => false

def TenantPost (c : MasterCall) (acc : List Access) (db : Database) : Prop :=
  (∃ code τ, c.actsFor = some code ∧ Acting code τ acc db) ∨
    c.actsFor = none ∧ Aside c.exchanges acc db

section Others
variable {w : TableWorld} {α ε : Type}

theorem TenantRely.refl {acc : List Access} : TenantRely acc w w :=
  ⟨.refl, fun _ _ => rfl, fun _ _ => rfl⟩

/-- No row of a tenant, no audit row and, unless it `exchanges`, no session. -/
def Access.Plain (exchanges : Bool) (a : Access) : Prop :=
  a.record? = none ∧ (∀ r, a ≠ .insertAuditLog r) ∧ (exchanges = false → a.onShareSession = false)

theorem Access.Plain.stamps {b : Bool} {a : Access} {db : Database} (h : a.Plain b) :
    a.Stamps db := by
  cases a with
  | insertAuditLog r => exact (h.2.1 r rfl).elim
  | putTenant => trivial
  | putUser => cases h.1
  | _ => exact h.1

theorem Access.Stamps.of_rely {a : Access} {acc : List Access} {u v : TableWorld}
    (h : a.Stamps u.db) (ha : a ∈ acc) (hr : TenantRely acc u v) : a.Stamps v.db := by
  cases a with
  | putUser r =>
    obtain ⟨x, hx, hsame⟩ := h
    refine ⟨x, (hr.users r.id ⟨_, ha, rfl, ?_⟩).trans hx, hsame⟩
    simp [Storage.mode, Access.mode]
  | _ => exact h

theorem Aside.of_rely {b : Bool} {acc : List Access} {u v : TableWorld} (h : Aside b acc u.db)
    (hr : TenantRely acc u v) : Aside b acc v.db :=
  ⟨fun a ha => (h.keeps a ha).of_rely ha hr.marks, fun a ha => (h.stamps a ha).of_rely ha hr,
    h.sessions⟩

theorem wp_aside_at {b : Bool} {acc : List Access} {p : Tx Database Access ε α}
    (hp : p.UsesAt fun db a => tenantMarks.Keeps db a ∧ (∀ db, a.Stamps db) ∧
      (b = false → a.onShareSession = false)) (h : Aside b acc w.db) :
    p.wp TenantRely (fun _ acc w => Aside b acc w.db) acc w := by
  refine Tx.wp_of_usesAt hp (I := fun acc w => Aside b acc w.db)
    (fun acc u v hr hu => hu.of_rely hr) ?_ h
  intro acc as w hw has
  refine ⟨Marking.keeps_append hw.keeps fun a ha => (has a ha).1, ?_, ?_⟩
  · exact List.forall_mem_append.mpr ⟨hw.stamps, fun a ha => (has a ha).2.1 w.db⟩
  · exact fun hb =>
      List.forall_mem_append.mpr ⟨hw.sessions hb, fun a ha => (has a ha).2.2 hb⟩

theorem wp_aside {b : Bool} {acc : List Access} {p : Tx Database Access ε α}
    (hp : p.Uses (Access.Plain b)) (h : Aside b acc w.db) :
    p.wp TenantRely (fun _ acc w => Aside b acc w.db) acc w :=
  wp_aside_at (hp.usesAt.mono fun _ _ ha =>
    ⟨Marking.keeps_of_none ha.1, fun _ => ha.stamps, ha.2.2⟩) h

theorem aside_nil {b : Bool} {db : Database} : Aside b [] db := ⟨by simp, by simp, by simp⟩

theorem aside_setTenantStatus (tenantCode : String) (status : ℤ) (now : Time) :
    (setTenantStatus tenantCode status now).wp TenantRely (fun _ acc w => Aside false acc w.db)
      [] w := by
  have hputs : (setTenantStatus tenantCode status now).Uses fun a => ∃ r, a = .putTenant r := by
    apply Tx.uses_exec_one
    intro db x as hx
    split at hx
    · cases hx
      exact .inl rfl
    · cases hx
      exact .inr ⟨_, rfl, _, rfl⟩
  intro v _ b as he
  have haside : Aside false as v.db := by
    refine ⟨(keeps_setTenantStatus tenantCode status now _ b as he).1, fun a ha => ?_,
      fun _ a ha => ?_⟩
    all_goals
      obtain ⟨r, rfl⟩ := (hputs _ b as he).1 a ha
    · trivial
    · rfl
  exact fun v' hv' => haside.of_rely hv'

theorem plain_insertUserSession (d : AccountDraws) (userID : ℤ)
    (session : Serial → UserSessionRow) :
    (insertUserSession d userID session).Uses (Access.Plain false) := by
  refine Tx.uses_exec fun db x as hx a ha => ?_
  split at hx
  · cases hx
  · split at hx
    · cases hx
    · split_ifs at hx
      cases hx
      simp only [List.mem_cons, List.not_mem_nil, or_false] at ha
      rcases ha with rfl | rfl <;> exact ⟨rfl, by simp, fun _ => rfl⟩

/-- The row that a login stamps is under its lock until the commit. -/
theorem aside_createSession (d : AccountDraws) (userID : ℤ) (tokenHash : String) (expiresAt : Time)
    (ip userAgent : String) (now : Time) :
    (createSession d userID tokenHash expiresAt ip userAgent now).wp TenantRely
      (fun _ acc w => Aside false acc w.db) [] w := by
  refine Tx.wp_exec fun v _ _ as hexec => wp_aside (plain_insertUserSession d userID _) ?_
  split at hexec
  · cases hexec
    refine ⟨fun a ha => ?_, fun a ha => ?_, fun _ a ha => ?_⟩
    all_goals rw [List.mem_singleton.mp ha]
    · exact Marking.keeps_of_none rfl
    · rfl
    · rfl
  · rename_i u hu
    cases hexec
    have hrow : v.db.users.get? u.id = some u := (find_user hu).1
    refine ⟨fun a ha => ?_, fun a ha => ?_, fun _ a ha => ?_⟩
    all_goals
      simp only [List.nil_append, List.mem_cons, List.not_mem_nil, or_false] at ha
      rcases ha with rfl | rfl
    · exact Marking.keeps_of_none rfl
    · refine keeps_put (t := v.db.users) (f := .user) rfl rfl fun y hy => ?_
      cases hrow.symm.trans hy
      rfl
    · rfl
    · exact ⟨u, hrow, rfl⟩
    · rfl
    · rfl

theorem of_insertUser (user : UserRow) : (insertUser user).Uses (Access.Of user.tenantID) := by
  refine Tx.uses_exec fun db x as hx a ha => ?_
  split at hx
  · cases hx
  · rename_i r hr
    split_ifs at hx
    cases hx
    simp only [List.mem_cons, List.not_mem_nil, or_false] at ha
    rcases ha with rfl | rfl
    · trivial
    · exact (UserRow.stored_spec hr).2.1

theorem of_insertUserPassword (row : UserPasswordRow) :
    (insertUserPassword row).Uses (Access.Of row.tenantID) := by
  refine Tx.uses_exec fun db x as hx a ha => ?_
  split at hx
  · cases hx
  · rename_i r hr
    split_ifs at hx
    cases hx
    simp only [List.mem_cons, List.not_mem_nil, or_false] at ha
    rcases ha with rfl | rfl
    · trivial
    · simp only [UserPasswordRow.stored, Option.bind_eq_bind, Option.bind_eq_some_iff] at hr
      obtain ⟨_, -, _, -, hr⟩ := hr
      cases hr
      rfl

/-- The tenant may be the one that the transaction has just inserted. -/
theorem acting_createLocalAdmin (d : AccountDraws) (account : LocalAccount) (now : Time) :
    (createLocalAdmin d account now).wp TenantRely
      (fun _ acc w => ∃ τ, Acting account.tenantCode τ acc w.db) [.advisory setupLock] w := by
  refine Tx.wp_exec fun v _ _ as hexec => ?_
  have hkeeps : ∀ a ∈ [Access.advisory setupLock] ++ as, tenantMarks.Keeps v.db a := by
    refine Marking.keeps_append (fun a ha => ?_)
      (keeps_insertTenantOnce d account.tenantCode _ _ _ hexec).1
    exact List.mem_singleton.mp ha ▸ Marking.keeps_of_none rfl
  have hputs : ∀ a ∈ as, ∀ τ, a.Of τ := by
    intro a ha τ
    split at hexec
    · cases hexec
    · split_ifs at hexec
      · cases hexec
        cases ha
      · cases hexec
        simp only [List.mem_cons, List.not_mem_nil, or_false] at ha
        rcases ha with rfl | rfl <;> trivial
  refine Tx.wp_query fun v' hv' => ?_
  generalize hfind : (Tx.view v'.db _).tenants.rows.find? _ = found
  cases found with
  | none => exact Tx.wp_throw
  | some t =>
    have hp := List.find?_some hfind
    simp only [Bool.and_eq_true, decide_eq_true_eq] at hp
    have hacting : Acting account.tenantCode t.id ([Access.advisory setupLock] ++ as) v'.db := by
      refine ⟨fun a ha => (hkeeps a ha).of_rely ha hv'.marks, ?_, fun a ha => ?_⟩
      · have hrow : (Tx.view v'.db ([Access.advisory setupLock] ++ as)).tenants.get? t.id =
            some t := Table.get?_of_mem (List.mem_of_find?_eq_some hfind)
        change ((Database.tenants _).get? t.id |>.map TenantRecord.tenant).map _ = _
        rw [hrow, ← hp.1]
        rfl
      · rcases List.mem_append.mp ha with ha | ha
        · exact List.mem_singleton.mp ha ▸ trivial
        · exact (hputs a ha t.id).confined
    let user : UserRow := {
      id := d.userID, tenantID := t.id, displayName := account.displayName
      role := "admin", status := "active", createdAt := now, updatedAt := now }
    let password : UserPasswordRow := ⟨user.id, t.id, account.username, account.passwordHash⟩
    refine wp_acting_of (p := insertUser user >>= fun _ => insertUserPassword password >>=
      fun _ => pure (toUser user account.tenantCode none)) ?_ ?_ hacting
    · exact Tx.usesAt_bind (keeps_insertUser user) fun _ =>
        Tx.usesAt_bind (keeps_insertUserPassword password) fun _ => Tx.usesAt_pure _
    · exact Tx.uses_bind (of_insertUser user) fun _ =>
        Tx.uses_bind (of_insertUserPassword password) fun _ => Tx.uses_pure _

theorem acting_bootstrapAdmin (d : AccountDraws) (account : LocalAccount) (now : Time) :
    (bootstrapAdmin d account now).wp TenantRely
      (fun _ acc w => ∃ τ, Acting account.tenantCode τ acc w.db) [] w := by
  refine Tx.wp_exec fun v _ _ as hlock => ?_
  cases hlock
  refine Tx.wp_query fun v _ => Tx.wp_ite (fun _ => Tx.wp_throw) fun _ => ?_
  refine Tx.wp_bind (fun _ _ _ _ => .refl)
    (Tx.wp_mono ?_ (acting_createLocalAdmin d account now))
  rintro user acc w ⟨τ, hacting⟩
  have hstate : (insertBootstrapState now).Uses fun a => a.record? = none ∧ a.Of τ := by
    apply Tx.uses_exec_one
    intro db x as hx
    split_ifs at hx
    cases hx
    exact .inr ⟨_, rfl, rfl, trivial⟩
  exact wp_acting_of
    (Tx.usesAt_bind (usesAt_none (hstate.mono fun _ h => h.1)) fun _ => Tx.usesAt_pure _)
    (Tx.uses_bind (hstate.mono fun _ h => h.2) fun _ => Tx.uses_pure _) hacting

theorem plain_touchSession (id : Serial) (now : Time) :
    (touchSession id now).Uses (Access.Plain false) := by
  apply Tx.uses_exec_one
  intro db x as hx
  split at hx
  · cases hx
    exact .inl rfl
  · cases hx
    exact .inr ⟨_, rfl, rfl, by simp, fun _ => rfl⟩

theorem Access.OnHosts.plain {a : Access} (h : a.OnHosts) : a.Plain false := by
  cases a with
  | putHost | lockHostUID | putHostLabel | eraseHostLabel | putAgentInstance | lockAgentID
  | putHostStatus | readHostStatus => exact ⟨rfl, by simp, fun _ => rfl⟩
  | _ => exact h.elim

theorem Access.OnTenants.stamps {a : Access} (h : a.OnTenants) (db : Database) :
    a.Stamps db ∧ a.onShareSession = false := by
  cases a with
  | putTenant => exact ⟨trivial, rfl⟩
  | lockTenantCode => exact ⟨rfl, rfl⟩
  | _ => exact h.elim

/-- A tenant that an agent brings along is new, or keeps its code. -/
theorem aside_ensureTenant (d : Draws) (tenantCode tenantName : String) :
    (ensureTenant d tenantCode tenantName).UsesAt fun db a =>
      tenantMarks.Keeps db a ∧ (∀ db, a.Stamps db) ∧ (false = false → a.onShareSession = false) :=
  ((keeps_ensureTenant d tenantCode tenantName).and
    (onTenants_ensureTenant tenantCode tenantName).usesAt).mono fun db _ ha =>
      ⟨ha.1, fun db => (ha.2.stamps db).1, fun _ => (ha.2.stamps db).2⟩

theorem aside_allocateTenant (d : Draws) :
    (Store.allocateTenant d).wp TenantRely (fun _ acc w => Aside false acc w.db) [] w :=
  wp_aside_at (Tx.usesAt_bind (aside_ensureTenant d _ _) fun _ => Tx.usesAt_pure _) aside_nil

theorem aside_registerAgent (s : Store) (d : Draws) (req : RegisterAgentRequest) (now : Time) :
    (s.registerAgent d req now).wp TenantRely (fun _ acc w => Aside false acc w.db) [] w :=
  wp_aside_at (Store.usesAt_registerAgent req (aside_ensureTenant d) fun _ _ ha =>
    ⟨Marking.keeps_of_none ha.plain.1, fun _ => ha.plain.stamps, ha.plain.2.2⟩) aside_nil

theorem tenantPost_of_acting {c : MasterCall} {code : String} (hc : c.actsFor = some code)
    {p : Tx Database Access ε α}
    (h : p.wp TenantRely (fun _ acc w => ∃ τ, Acting code τ acc w.db) [] w) :
    p.wp TenantRely (fun _ acc w => TenantPost c acc w.db) [] w :=
  Tx.wp_mono (fun _ _ _ ⟨τ, hw⟩ => .inl ⟨code, τ, hc, hw⟩) h

theorem tenantPost_of_aside {c : MasterCall} (hc : c.actsFor = none) {p : Tx Database Access ε α}
    (h : p.wp TenantRely (fun _ acc w => Aside c.exchanges acc w.db) [] w) :
    p.wp TenantRely (fun _ acc w => TenantPost c acc w.db) [] w :=
  Tx.wp_mono (fun _ _ _ hw => .inr ⟨hc, hw⟩) h

theorem tenantPost_control (c : ControlCall) (w : TableWorld) :
    (controlProgram c).wp TenantRely (fun _ acc w => TenantPost (.control c) acc w.db) [] w := by
  cases c with
  | createMaintenance id clock p req =>
    exact Tx.wp_bind_pure (Tx.wp_mapError
      (tenantPost_of_acting rfl (acting_createMaintenance id clock p req)))
  | ackAlert p alertID now =>
    exact Tx.wp_bind_pure (Tx.wp_mapError
      (tenantPost_of_acting rfl (acting_ackAlert p alertID now)))
  | createShare d p req hash now =>
    exact Tx.wp_bind_pure (Tx.wp_mapError
      (tenantPost_of_acting rfl (acting_createShare d p req hash now)))
  | revokeShare p id now =>
    exact Tx.wp_bind_pure (Tx.wp_mapError
      (tenantPost_of_acting rfl (acting_revokeShare p id now)))
  | updateUser d tenantCode userID patch =>
    exact Tx.wp_bind_pure (Tx.wp_mapError
      (tenantPost_of_acting rfl (acting_updateUser d tenantCode userID patch)))
  | createSession d userID tokenHash expiresAt ip userAgent now =>
    exact Tx.wp_bind_pure (Tx.wp_mapError (tenantPost_of_aside rfl
      (aside_createSession d userID tokenHash expiresAt ip userAgent now)))
  | setTenantStatus tenantCode status now =>
    exact Tx.wp_bind_pure (Tx.wp_mapError (tenantPost_of_aside rfl
      (aside_setTenantStatus tenantCode status now)))

end Others

end Gaoming
