import Gaoming.AccountStoreSpec
import Gaoming.OperationsProgram
import Gaoming.ShareStoreQuota

/-!
# The authority of an operation at its commit

A row under a lock of a running transaction is written by no other transaction,
whatever that transaction is. So the rows that a permission check has locked are,
when the operation commits, still the rows that it has read.
-/

namespace Gaoming
open Relational Transaction

def Locks (acc : List Access) (k : Key) : Prop := ∃ a ∈ acc, a.key = k ∧ a.mode ≠ .unlocked

theorem Locks.append {acc : List Access} {k : Key} (h : Locks acc k) (as : List Access) :
    Locks (acc ++ as) k := by
  obtain ⟨a, ha, hk⟩ := h
  exact ⟨a, List.mem_append_left _ ha, hk⟩

structure Kept (acc : List Access) (db db' : Database) : Prop where
  users : ∀ id, Locks acc (.user id) → db'.users.get? id = db.users.get? id
  tenants : ∀ id, Locks acc (.tenant id) → db'.tenants.get? id = db.tenants.get? id
  alerts : ∀ id, Locks acc (.alertEvent id) → db'.alertEvents.get? id = db.alertEvents.get? id

section Kept
variable {acc as bs : List Access} {db db' db'' : Database}

theorem Kept.refl (acc : List Access) (db : Database) : Kept acc db db :=
  ⟨fun _ _ => rfl, fun _ _ => rfl, fun _ _ => rfl⟩

theorem Kept.trans (h : Kept acc db db') (h' : Kept acc db' db'') : Kept acc db db'' where
  users := fun id hid => (h'.users id hid).trans (h.users id hid)
  tenants := fun id hid => (h'.tenants id hid).trans (h.tenants id hid)
  alerts := fun id hid => (h'.alerts id hid).trans (h.alerts id hid)

theorem Kept.mono (h : Kept (acc ++ as) db db') : Kept acc db db' where
  users := fun id hid => h.users id (hid.append as)
  tenants := fun id hid => h.tenants id (hid.append as)
  alerts := fun id hid => h.alerts id (hid.append as)

def Access.Writes (a : Access) (k : Key) : Prop := a.key = k ∧ a.mode = .exclusive

theorem users_apply {a : Access} {id : Serial} (h : ∀ r, a = .putUser r → r.id ≠ id)
    (db : Database) : (db.apply a).users.get? id = db.users.get? id := by
  cases a with
  | putUser r => exact Table.get?_put_of_ne _ (h r rfl)
  | _ => rfl

theorem tenants_apply {a : Access} {id : Serial} (h : ¬ a.Writes (.tenant id)) (db : Database) :
    (db.apply a).tenants.get? id = db.tenants.get? id := by
  cases a with
  | putTenant r =>
    apply Table.get?_put_of_ne
    rintro rfl
    exact h ⟨rfl, rfl⟩
  | _ => rfl

theorem alerts_apply {a : Access} {id : Serial} (h : ¬ a.Writes (.alertEvent id)) (db : Database) :
    (db.apply a).alertEvents.get? id = db.alertEvents.get? id := by
  cases a with
  | putAlertEvent r =>
    apply Table.get?_put_of_ne
    rintro rfl
    exact h ⟨rfl, rfl⟩
  | _ => rfl

/-- What no access changes is the same after all of them. -/
theorem view_frame {X : Type} {f : Database → X}
    (h : ∀ a ∈ as, ∀ db : Database, f (db.apply a) = f db) (db : Database) :
    f (Tx.view db as) = f db := by
  induction as generalizing db with
  | nil => rfl
  | cons a as ih =>
    rw [Tx.view_cons, ih (fun b hb => h b (List.mem_cons_of_mem a hb))]
    exact h a (List.mem_cons_self ..) db

theorem not_writes_of_locks {k : Key} (h : Compatible Database as bs) (hk : Locks bs k) :
    ∀ a ∈ as, ¬ a.Writes k := by
  rintro a ha ⟨hakey, hamode⟩
  obtain ⟨b, hb, hbkey, hbmode⟩ := hk
  have hno := h a ha b hb
  have hkeys : Storage.key Database a = Storage.key Database b := hakey.trans hbkey.symm
  have hmode : Storage.mode Database a = .exclusive := hamode
  rw [conflict, hkeys, hmode] at hno
  change (_ && Mode.conflicts _ b.mode) = false at hno
  cases hm : b.mode with
  | unlocked => exact hbmode hm
  | share => simp [hm, Mode.conflicts] at hno
  | exclusive => simp [hm, Mode.conflicts] at hno

theorem kept_of_compatible (h : Compatible Database as bs) (db : Database) :
    Kept bs db (Tx.view db as) where
  users := fun id hid => view_frame (f := fun x => x.users.get? id)
    (fun a ha => users_apply fun r hr hrid => not_writes_of_locks h hid a ha
      ⟨by rw [hr, ← hrid]; rfl, by rw [hr]; rfl⟩) db
  tenants := fun id hid => view_frame (f := fun x => x.tenants.get? id)
    (fun a ha => tenants_apply (not_writes_of_locks h hid a ha)) db
  alerts := fun id hid => view_frame (f := fun x => x.alertEvents.get? id)
    (fun a ha => alerts_apply (not_writes_of_locks h hid a ha)) db

end Kept

structure Authorized (p : Principal) (admin : Bool) (u : UserRow) (t : TenantRow)
    (db : Database) : Prop where
  user : db.users.get? u.id = some u
  tenant : db.tenants.get? t.id = some t
  actor : (u.id : ℤ) = p.userID
  member : u.tenantID = t.id
  active : u.status = "active"
  role : u.role = "admin" ∨ admin = false ∧ u.role = "member"
  code : t.tenantCode = p.tenantCode
  enabled : t.status = 1

/-- `J` is any fact about worlds that the surrounding argument keeps true. -/
structure ControlRely (J : ControlWorld → Prop) (acc : List Access) (w w' : ControlWorld) :
    Prop where
  holds : J w'
  kept : Kept acc w.db w'.db

section Checks
variable {p : Principal} {admin : Bool} {u : UserRow} {t : TenantRow} {acc : List Access}
  {db db' : Database} {Call ρ α : Type} {w : World Database Call ρ}
  {rely : List Access → World Database Call ρ → World Database Call ρ → Prop}
  {post : α → List Access → World Database Call ρ → Prop}

theorem Authorized.of_eq (h : Authorized p admin u t db)
    (hu : db'.users.get? u.id = db.users.get? u.id)
    (ht : db'.tenants.get? t.id = db.tenants.get? t.id) : Authorized p admin u t db' :=
  { h with user := hu.trans h.user, tenant := ht.trans h.tenant }

theorem Authorized.kept (h : Authorized p admin u t db) (hk : Kept acc db db')
    (hu : Locks acc (.user u.id)) (ht : Locks acc (.tenant t.id)) : Authorized p admin u t db' :=
  h.of_eq (hk.users _ hu) (hk.tenants _ ht)

theorem activeUser_eq_some (h : db.activeUser p = some (u, t)) :
    db.users.get? u.id = some u ∧ db.tenants.get? t.id = some t ∧ (u.id : ℤ) = p.userID ∧
      u.tenantID = t.id ∧ u.status = "active" ∧ t.tenantCode = p.tenantCode ∧ t.status = 1 := by
  unfold Database.activeUser at h
  split at h
  · cases h
  · rename_i u' hu
    split at h
    · cases h
    · rename_i t' ht
      split_ifs at h with hok
      cases h
      simp only [Bool.and_eq_true, decide_eq_true_eq] at hok
      obtain ⟨hrow, hid⟩ := find_user hu
      have hten : t.id = u.tenantID := Table.key_of_get? ht
      exact ⟨hrow, hten ▸ ht, hid, hten.symm, hok.1.2, hok.1.1, hok.2⟩

/-- The accesses of a locking `SELECT` on the actor and the tenant. -/
def checkLocks (u : UserRow) (t : TenantRow) (m : Mode) : List Access :=
  [.lockUser u.id .share, .lockTenant t.id m]

theorem locks_user (u : UserRow) (t : TenantRow) (m : Mode) :
    Locks (checkLocks u t m) (.user u.id) :=
  ⟨_, List.mem_cons_self .., rfl, by simp [Access.mode]⟩

theorem locks_tenant (u : UserRow) (t : TenantRow) {m : Mode} (hm : m ≠ .unlocked) :
    Locks (checkLocks u t m) (.tenant t.id) :=
  ⟨.lockTenant t.id m, by simp [checkLocks], rfl, hm⟩

theorem wp_operationTenant_bind {k : Serial → ShareTx α}
    (h : ∀ v u t, p.isUser = true → Authorized p admin u t v.db →
      (k t.id).wp rely post (checkLocks u t .share) v) :
    (operationTenant p admin >>= k).wp rely post [] w := by
  unfold operationTenant
  by_cases hkind : (!p.isUser || (admin && !p.isAdmin)) = true
  · rw [if_pos hkind]
    exact Tx.wp_throw
  rw [if_neg hkind]
  have huser : p.isUser = true := by
    simp only [Bool.or_eq_true, Bool.not_eq_true', not_or, Bool.not_eq_false] at hkind
    exact hkind.1
  refine Tx.wp_exec fun v _ row as hexec => ?_
  cases hrow : (Tx.view v.db []).activeUser p with
  | none =>
    rw [hrow] at hexec
    cases hexec
  | some out =>
    obtain ⟨u, t⟩ := out
    rw [hrow] at hexec
    cases hexec
    obtain ⟨hu, ht, hid, hten, hactive, hcode, hstatus⟩ := activeUser_eq_some hrow
    change Tx.wp rely post (Tx.bind (if (u.role ≠ "admin" ∧ u.role ≠ "member") ∨
      (admin = true ∧ u.role ≠ "admin") then throw .forbidden else pure u.tenantID) k) _ v
    by_cases hrole : (u.role ≠ "admin" ∧ u.role ≠ "member") ∨ (admin = true ∧ u.role ≠ "admin")
    · rw [if_pos hrole]
      exact Tx.wp_throw
    · rw [if_neg hrole, hten]
      refine h v u t huser ⟨hu, ht, hid, hten, hactive, ?_, hcode, hstatus⟩
      cases admin <;> grind

theorem wp_tenantForAdmin_control {k : Serial → ShareTx α}
    (h : ∀ v u t, Authorized p true u t v.db →
      (k t.id).wp rely post (checkLocks u t .exclusive) v) :
    (tenantForAdmin p >>= k).wp rely post [] w := by
  unfold tenantForAdmin
  by_cases hadmin : (!p.isAdmin) = true
  · rw [if_pos hadmin]
    exact Tx.wp_throw
  rw [if_neg hadmin]
  refine Tx.wp_exec fun v _ tenant as hexec => ?_
  split at hexec
  · cases hexec
  · rename_i u hu
    split at hexec
    · cases hexec
    · rename_i t ht
      split_ifs at hexec with hok
      cases hexec
      simp only [Bool.and_eq_true, decide_eq_true_eq] at hok
      obtain ⟨hrow, hid⟩ := find_user hu
      have hten : t.id = u.tenantID := Table.key_of_get? ht
      exact h v u t ⟨hrow, hten ▸ ht, hid, hten.symm, hok.1.1.2, .inl hok.1.2, hok.1.1.1, hok.2⟩

end Checks

/-- Rows of the operation's tenant, in the actor's name; never users or tenants. -/
def Access.For (p : Principal) (tenant : Serial) : Access → Prop
  | .insertAuditLog r => r.tenantID = tenant ∧ r.actor = p.actor
  | .putMaintenanceWindow r => r.tenantID = tenant
  | .putShare r => r.tenantID = tenant
  | .putShareHost r => r.tenantID = tenant
  | .putUser _ | .putTenant _ => False
  | _ => True

section Writes
variable {p : Principal} {tenant : Serial}

theorem Access.For.users_apply {a : Access} (h : a.For p tenant) (db : Database) :
    (db.apply a).users = db.users := by
  cases a with
  | putUser r => exact h.elim
  | _ => rfl

theorem Access.For.tenants_apply {a : Access} (h : a.For p tenant) (db : Database) :
    (db.apply a).tenants = db.tenants := by
  cases a with
  | putTenant r => exact h.elim
  | _ => rfl

end Writes

section Uses
variable {q : Access → Prop} {p : Principal} {tenant : Serial}

theorem uses_operationTenant {admin : Bool} (hu : ∀ id, q (.lockUser id .share))
    (ht : ∀ id, q (.lockTenant id .share)) : (operationTenant p admin).Uses q := by
  refine Tx.uses_ite (Tx.uses_throw _) (Tx.uses_exec_bind fun db x as h => ⟨fun a ha => ?_, ?_⟩)
  · split at h
    · cases h
    · cases h
      simp only [List.mem_cons, List.not_mem_nil, or_false] at ha
      rcases ha with rfl | rfl
      · exact hu _
      · exact ht _
  · exact Tx.uses_ite (Tx.uses_throw _) (Tx.uses_pure _)

theorem uses_writeOperationAudit {action resourceType id : String} {now : Time}
    (h : ∀ id, q (.insertAuditLog
      ⟨tenant, p.actor, action, resourceType, id, true, timestamptz now⟩)) :
    (writeOperationAudit tenant p action resourceType id now).Uses q := by
  apply Tx.uses_exec_one
  intro db x as hx
  split at hx
  · cases hx
  · cases hx
    exact .inr ⟨_, rfl, h _⟩

theorem MaintenanceWindowRow.stored_tenantID {row r : MaintenanceWindowRow}
    (h : row.stored = some r) : r.tenantID = row.tenantID := by
  simp only [MaintenanceWindowRow.stored, Option.bind_eq_bind, Option.bind_eq_some_iff] at h
  obtain ⟨_, -, _, -, _, -, _, -, h⟩ := h
  split_ifs at h
  cases h
  rfl

theorem uses_insertMaintenanceWindow {row : MaintenanceWindowRow}
    (h : ∀ r : MaintenanceWindowRow, r.tenantID = row.tenantID → q (.putMaintenanceWindow r)) :
    (insertMaintenanceWindow row).Uses q := by
  apply Tx.uses_exec_one
  intro db x as hx
  split at hx
  · cases hx
  · rename_i r hr
    split_ifs at hx
    cases hx
    exact .inr ⟨_, rfl, h r (MaintenanceWindowRow.stored_tenantID hr)⟩

theorem uses_takeAlert {id : ℤ} (h : ∀ id, q (.lockAlertEvent id .exclusive)) :
    (takeAlert id tenant).Uses q := by
  apply Tx.uses_exec_one
  intro db x as hx
  split at hx
  · cases hx
  · cases hx
    exact .inr ⟨_, rfl, h _⟩

theorem uses_updateAlertAck {id : Serial} {actor : String} {now : Time}
    (h : ∀ r, q (.putAlertEvent r)) : (updateAlertAck id actor now).Uses q := by
  apply Tx.uses_exec_one
  intro db x as hx
  split at hx
  · cases hx
    exact .inl rfl
  · cases hx
    exact .inr ⟨_, rfl, h _⟩

end Uses

/-- What the calls other than acknowledgements and those on users write. -/
def Access.Administrative : Access → Prop
  | .putUser _ | .putAlertEvent _ => False
  | .insertAuditLog r => r.action ≠ "alert.ack"
  | _ => True

theorem administrative_createMaintenance (id : Serial) (clock : Time) (p : Principal)
    (req : CreateMaintenanceRequest) :
    (createMaintenance id clock p req).Uses Access.Administrative := by
  refine Tx.uses_bind (uses_operationTenant (fun _ => trivial) fun _ => trivial) fun tenant => ?_
  refine Tx.uses_query_bind fun db => Tx.uses_ite (Tx.uses_throw _) ?_
  refine Tx.uses_bind (uses_insertMaintenanceWindow fun _ _ => trivial) fun _ => ?_
  exact Tx.uses_bind (uses_writeOperationAudit fun _ => by simp [Access.Administrative]) fun _ =>
    Tx.uses_pure _

theorem administrative_createShare (d : ShareDraws) (p : Principal) (req : CreateShareRequest)
    (hash : String) (now : Time) : (createShare d p req hash now).Uses Access.Administrative := by
  unfold createShare
  refine Tx.uses_ite (Tx.uses_throw _) ?_
  cases validateShareRequest req with
  | error e => exact Tx.uses_throw _
  | ok _ =>
    refine Tx.uses_ite (Tx.uses_throw _) ?_
    refine Tx.uses_bind (uses_tenantForAdmin (fun _ => trivial) fun _ => trivial) fun tenant => ?_
    refine Tx.uses_query_bind fun db => Tx.uses_ite (Tx.uses_throw _) ?_
    refine Tx.uses_bind uses_countHosts fun _ => Tx.uses_ite (Tx.uses_throw _) ?_
    refine Tx.uses_bind (uses_insertShare (fun _ => trivial) fun _ _ => trivial) fun _ => ?_
    refine Tx.uses_bind (uses_insertShareHosts fun _ _ => trivial) fun _ => ?_
    exact Tx.uses_bind (uses_audit (by simp [Access.Administrative])) fun _ => Tx.uses_pure _

theorem administrative_revokeShare (p : Principal) (id : String) (now : Time) :
    (revokeShare p id now).Uses Access.Administrative := by
  refine Tx.uses_bind (uses_tenantForAdmin (fun _ => trivial) fun _ => trivial) fun tenant => ?_
  refine Tx.uses_query_bind fun db => Tx.uses_ite (Tx.uses_throw _) ?_
  refine Tx.uses_bind (uses_markRevoked fun _ _ => trivial) fun _ => ?_
  exact Tx.uses_bind (uses_deleteSessions fun _ => trivial) fun _ =>
    uses_audit (by simp [Access.Administrative])

theorem administrative_setTenantStatus (tenantCode : String) (status : ℤ) (now : Time) :
    (setTenantStatus tenantCode status now).Uses Access.Administrative := by
  apply Tx.uses_exec_one
  intro db x as hx
  split at hx
  · cases hx
    exact .inl rfl
  · cases hx
    exact .inr ⟨_, rfl, trivial⟩

/-- Calls that neither acknowledge an alert nor concern a user. -/
def ControlCall.administrative : ControlCall → Bool
  | .ackAlert .. | .updateUser .. | .createSession .. => false
  | _ => true

theorem administrative_program {c : ControlCall} (h : c.administrative = true) :
    (controlProgram c).Uses Access.Administrative := by
  cases c with
  | createMaintenance id clock p req =>
    exact Tx.uses_bind (Tx.uses_mapError (administrative_createMaintenance id clock p req))
      fun _ => Tx.uses_pure _
  | createShare d p req hash now =>
    exact Tx.uses_bind (Tx.uses_mapError (administrative_createShare d p req hash now))
      fun _ => Tx.uses_pure _
  | revokeShare p id now =>
    exact Tx.uses_bind (Tx.uses_mapError (administrative_revokeShare p id now))
      fun _ => Tx.uses_pure _
  | setTenantStatus tenantCode status now =>
    exact Tx.uses_bind (Tx.uses_mapError (administrative_setTenantStatus tenantCode status now))
      fun _ => Tx.uses_pure _
  | ackAlert => cases h
  | updateUser => cases h
  | createSession => cases h

/-- The acting principal, and whether only administrators may act. -/
def ControlCall.operation : ControlCall → Option (Principal × Bool)
  | .createMaintenance _ _ p _ => some (p, true)
  | .ackAlert p _ _ => some (p, false)
  | .createShare _ p _ _ _ => some (p, true)
  | .revokeShare p _ _ => some (p, true)
  | _ => none

def Permitted (p : Principal) (admin : Bool) (acc : List Access) (db : Database) : Prop :=
  ∃ u t, Authorized p admin u t db ∧ ∀ a ∈ acc, a.For p t.id

section Operations
variable {p : Principal} {J : ControlWorld → Prop} {w : ControlWorld}

theorem wp_permitted {α : Type} {admin : Bool} {u : UserRow} {t : TenantRow} {m : Mode}
    {k : ShareTx α} (hm : m ≠ .unlocked) (h : Authorized p admin u t w.db)
    (hk : k.Uses (Access.For p t.id)) :
    k.wp (ControlRely J) (fun _ acc w => Permitted p admin acc w.db) (checkLocks u t m) w := by
  refine Tx.wp_of_uses hk (P := fun v => Authorized p admin u t v.db) ?_ h ?_
  · intro as _ v v' hv hP
    exact hP.kept hv.kept ((locks_user u t m).append as) ((locks_tenant u t hm).append as)
  · intro _ as v has hP
    refine ⟨u, t, hP, fun a ha => ?_⟩
    rcases List.mem_append.mp ha with ha | ha
    · simp only [checkLocks, List.mem_cons, List.not_mem_nil, or_false] at ha
      rcases ha with rfl | rfl <;> trivial
    · exact has a ha

theorem permitted_createMaintenance (id : Serial) (clock : Time) (req : CreateMaintenanceRequest) :
    (createMaintenance id clock p req).wp (ControlRely J)
      (fun _ acc w => Permitted p true acc w.db) [] w := by
  refine wp_operationTenant_bind fun v u t _ hauth => ?_
  refine wp_permitted (by decide) hauth (Tx.uses_query_bind fun db => ?_)
  refine Tx.uses_ite (Tx.uses_throw _) ?_
  refine Tx.uses_bind (uses_insertMaintenanceWindow fun _ h => h) fun _ => ?_
  exact Tx.uses_bind (uses_writeOperationAudit fun _ => ⟨rfl, rfl⟩) fun _ => Tx.uses_pure _

theorem permitted_ackAlert (alertID : String) (now : Time) :
    (ackAlert p alertID now).wp (ControlRely J)
      (fun _ acc w => Permitted p false acc w.db) [] w := by
  unfold ackAlert
  cases parseInt alertID with
  | none => exact Tx.wp_throw
  | some id =>
    refine Tx.wp_ite (fun _ => Tx.wp_throw) fun _ => ?_
    refine wp_operationTenant_bind fun v u t _ hauth => wp_permitted (by decide) hauth ?_
    refine Tx.uses_bind (uses_takeAlert fun _ => trivial) fun event =>
      Tx.uses_ite (Tx.uses_pure _) ?_
    exact Tx.uses_bind (uses_updateAlertAck fun _ => trivial) fun _ =>
      uses_writeOperationAudit fun _ => ⟨rfl, rfl⟩

theorem permitted_createShare (d : ShareDraws) (req : CreateShareRequest) (hash : String)
    (now : Time) : (createShare d p req hash now).wp (ControlRely J)
      (fun _ acc w => Permitted p true acc w.db) [] w := by
  unfold createShare
  refine Tx.wp_ite (fun _ => Tx.wp_throw) fun _ => ?_
  cases validateShareRequest req with
  | error e => exact Tx.wp_throw
  | ok _ =>
    refine Tx.wp_ite (fun _ => Tx.wp_throw) fun _ => ?_
    refine wp_tenantForAdmin_control fun v u t hauth => wp_permitted (by decide) hauth ?_
    refine Tx.uses_query_bind fun db => Tx.uses_ite (Tx.uses_throw _) ?_
    refine Tx.uses_bind uses_countHosts fun _ => Tx.uses_ite (Tx.uses_throw _) ?_
    refine Tx.uses_bind (uses_insertShare (fun _ => trivial) fun _ h => h) fun _ => ?_
    refine Tx.uses_bind (uses_insertShareHosts fun _ h => h) fun _ => ?_
    exact Tx.uses_bind (uses_audit ⟨rfl, rfl⟩) fun _ => Tx.uses_pure _

theorem permitted_revokeShare (id : String) (now : Time) :
    (revokeShare p id now).wp (ControlRely J) (fun _ acc w => Permitted p true acc w.db) [] w := by
  refine wp_tenantForAdmin_control fun v u t hauth => wp_permitted (by decide) hauth ?_
  refine Tx.uses_query_bind fun db => Tx.uses_ite (Tx.uses_throw _) ?_
  refine Tx.uses_bind (uses_markRevoked fun _ h => h) fun _ => ?_
  exact Tx.uses_bind (uses_deleteSessions fun _ => trivial) fun _ => uses_audit ⟨rfl, rfl⟩

end Operations

def AuthorityPost (c : ControlCall) (acc : List Access) (w : ControlWorld) : Prop :=
  ∀ p admin, c.operation = some (p, admin) → Permitted p admin acc w.db

theorem authorityPost_wp {J : ControlWorld → Prop} (c : ControlCall) (w : ControlWorld) :
    (controlProgram c).wp (ControlRely J) (fun _ acc w => AuthorityPost c acc w) [] w := by
  have hother : c.operation = none →
      (controlProgram c).wp (ControlRely J) (fun _ acc w => AuthorityPost c acc w) [] w := by
    intro hnone
    refine Tx.wp_of_post (fun _ acc v p admin h => ?_) _ _ _
    rw [hnone] at h
    cases h
  cases c with
  | createMaintenance id clock p req =>
    refine Tx.wp_bind_pure (Tx.wp_mapError (Tx.wp_mono (fun _ acc v h => ?_)
      (permitted_createMaintenance id clock req)))
    rintro _ _ ⟨⟩
    exact h
  | ackAlert p alertID now =>
    refine Tx.wp_bind_pure (f := fun _ => ControlReply.done) (Tx.wp_mapError (Tx.wp_mono
      (fun _ acc v h => ?_) (permitted_ackAlert alertID now)))
    rintro _ _ ⟨⟩
    exact h
  | createShare d p req hash now =>
    refine Tx.wp_bind_pure (Tx.wp_mapError (Tx.wp_mono (fun _ acc v h => ?_)
      (permitted_createShare d req hash now)))
    rintro _ _ ⟨⟩
    exact h
  | revokeShare p id now =>
    refine Tx.wp_bind_pure (f := fun _ => ControlReply.done) (Tx.wp_mapError (Tx.wp_mono
      (fun _ acc v h => ?_) (permitted_revokeShare id now)))
    rintro _ _ ⟨⟩
    exact h
  | updateUser => exact hother rfl
  | createSession => exact hother rfl
  | setTenantStatus => exact hother rfl

/-- Users, tenants, alerts and the audit log change by calls only; the rest in any way. -/
def LeavesControl (s : ControlSys) : Event Database ControlCall → Prop
  | .env db => db.users = s.world.db.users ∧ db.tenants = s.world.db.tenants ∧
    db.alertEvents = s.world.db.alertEvents ∧ db.auditLogs = s.world.db.auditLogs
  | _ => True

instance (s : ControlSys) : (e : Event Database ControlCall) → Decidable (LeavesControl s e)
  | .env _ => inferInstanceAs (Decidable (_ ∧ _))
  | .start _ | .advance _ | .cancel _ => instDecidableTrue

/-- An invariant has to be kept by the commits, given what the calls establish under their
own locks. -/
theorem control_discipline {J : ControlWorld → Prop}
    {post : ControlCall → List Access → ControlWorld → Prop}
    (hwp : ∀ c w, J w → (controlProgram c).wp (ControlRely J) (fun _ acc w => post c acc w) [] w)
    (hcommit : ∀ (s : ControlSys) (c : Client Database Access ControlError ControlReply ControlCall)
      r, J s.world → post c.call c.acc s.world → J (s.afterCommit c r))
    (henv : ∀ (w : ControlWorld) db, J w → db.users = w.db.users →
      db.alertEvents = w.db.alertEvents → db.auditLogs = w.db.auditLogs → J { w with db := db }) :
    Sys.Discipline controlProgram LeavesControl J (fun _ => ControlRely J)
      (fun c _ _ acc w => post c acc w) where
  rely_refl := fun _ acc w hJ => ⟨hJ, .refl acc w.db⟩
  rely_trans := fun _ _ _ _ _ h h' => ⟨h'.holds, h.kept.trans h'.kept⟩
  start := fun s c _ hJ => hwp c s.world hJ
  commit := by
    intro s i c r _ _ _ hJ hpost
    have hJ' := hcommit s c r hJ hpost
    exact ⟨hJ', fun _ _ _ _ hcompat => ⟨hJ', kept_of_compatible hcompat s.world.db⟩⟩
  env := by
    rintro s db ⟨husers, htenants, halerts, haudit⟩ hJ
    have hJ' := henv s.world db hJ husers halerts haudit
    refine ⟨hJ', fun _ _ _ => ⟨hJ', fun _ _ => ?_, fun _ _ => ?_, fun _ _ => ?_⟩⟩
    · rw [husers]
    · rw [htenants]
    · rw [halerts]

theorem authority_discipline : Sys.Discipline controlProgram LeavesControl (fun _ => True)
    (fun _ => ControlRely fun _ => True) (fun c _ _ acc w => AuthorityPost c acc w) :=
  control_discipline (fun c w _ => authorityPost_wp c w) (fun _ _ _ _ _ => trivial)
    fun _ _ _ _ _ _ => trivial

/-- When an operation commits, its actor is an active user of the operation's tenant with
the role it needs, and the tenant is enabled. -/
theorem authority_at_commit (db : Database) (s : ControlSys)
    (h : Sys.Run controlProgram LeavesControl ⟨⟨db, []⟩, []⟩ s) (i : ℕ)
    (c : Client Database Access ControlError ControlReply ControlCall)
    (hc : s.committing i = some c) (p : Principal) (admin : Bool)
    (hop : c.call.operation = some (p, admin)) :
    ∃ u t, Authorized p admin u t s.world.db ∧
      Authorized p admin u t (Tx.view s.world.db c.acc) ∧ ∀ a ∈ c.acc, a.For p t.id := by
  have hsound := h.sound authority_discipline (Sys.sound_of_idle trivial)
  obtain ⟨hlive, r, hp⟩ := Sys.committing_eq_some.mp hc
  obtain ⟨u, t, hauth, hfor⟩ := hsound.commit_post authority_discipline hlive hp p admin hop
  have husers := view_frame (f := Database.users) (fun a ha => (hfor a ha).users_apply) s.world.db
  have htenants := view_frame (f := Database.tenants) (fun a ha => (hfor a ha).tenants_apply)
    s.world.db
  exact ⟨u, t, hauth, hauth.of_eq (by rw [husers]) (by rw [htenants]), hfor⟩

-- An administrator opens a maintenance window while being disabled.

def sampleWindow : CreateMaintenanceRequest := ⟨"title", "tenant", "acme", 0, 1, ""⟩

def controlAdvances (i n : ℕ) : List (Event Database ControlCall) :=
  List.replicate n (.advance i)

/-- The update reads the account, waits for the window, and is still running when it commits. -/
def disabledMeanwhile : List (Event Database ControlCall) :=
  .start (.createMaintenance 1 0 sampleAdmin sampleWindow) ::
    .start (.updateUser {} "acme" 1 { status := some "disabled" }) ::
    (controlAdvances 1 2 ++ controlAdvances 0 4)

theorem authority_disabled_meanwhile : ∃ s c,
    (⟨⟨sampleShares, []⟩, []⟩ : ControlSys).steps controlProgram disabledMeanwhile = some s ∧
    s.committing 0 = some c ∧ ∃ u t, Authorized sampleAdmin true u t s.world.db ∧
      Authorized sampleAdmin true u t (Tx.view s.world.db c.acc) ∧
      ∀ a ∈ c.acc, a.For sampleAdmin t.id := by
  have hadmits : (⟨⟨sampleShares, []⟩, []⟩ : ControlSys).admits controlProgram LeavesControl
      disabledMeanwhile = true := by decide +kernel
  have hready : ((⟨⟨sampleShares, []⟩, []⟩ : ControlSys).steps controlProgram
      disabledMeanwhile).any (fun s => (s.committing 0).any fun c =>
        c.call.operation = some (sampleAdmin, true)) = true := by decide +kernel
  obtain ⟨s, hs, hrun⟩ := Sys.run_of_admits hadmits
  rw [hs, Option.any_some, Option.any_eq_true] at hready
  obtain ⟨c, hc, hop⟩ := hready
  exact ⟨s, c, hs, hc, authority_at_commit sampleShares s hrun 0 c hc sampleAdmin true
    (of_decide_eq_true hop)⟩

end Gaoming
