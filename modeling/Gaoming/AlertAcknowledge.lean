import Gaoming.OperationsAuthority

/-!
# Acknowledging an alert once

The alerts and their audit rows are a function of the commits so far: an alert is
as it was at the start until the first acknowledgement of it commits, and from then
on carries that acknowledgement, with one audit row for it.
-/

namespace Gaoming
open Relational Transaction

theorem parseInt_ne_space {s : String} {n : ℤ} (h : parseInt s = some n) :
    ∀ c ∈ s.toList, c ≠ ' ' := by
  have hdigits : ∀ l : List Char, l.all Char.isDigit = true → ∀ c ∈ l, c ≠ ' ' := by
    rintro l hl c hc rfl
    have hspace := List.all_eq_true.mp hl ' ' hc
    exact absurd hspace (by decide)
  unfold parseInt at h
  split at h
  rename_i negative digits hmatch
  split_ifs at h with hbad
  all_goals
    simp only [Bool.or_eq_true, Bool.not_eq_true', not_or, Bool.not_eq_false] at hbad
    intro c hc
    split at hmatch
    · rename_i rest hlist
      cases hmatch
      rw [hlist] at hc
      rcases List.mem_cons.mp hc with rfl | hc
      · decide
      · exact hdigits _ hbad.2 c hc
    · rename_i rest hlist
      cases hmatch
      rw [hlist] at hc
      rcases List.mem_cons.mp hc with rfl | hc
      · decide
      · exact hdigits _ hbad.2 c hc
    · cases hmatch
      exact hdigits _ hbad.2 c hc

/-- A column keeps the text of a number as it is, or refuses it. -/
theorem varchar_of_parseInt {s s' : String} {n : ℤ} {width : ℕ} (h : parseInt s = some n)
    (hv : varchar width s = some s') : s' = s := by
  unfold varchar at hv
  split_ifs at hv with hnul hfits hblank
  · exact (Option.some.inj hv).symm
  · have hlong : width < s.toList.length := by
      rw [← String.length_toList] at hfits
      omega
    have hmem : s.toList.get ⟨width, hlong⟩ ∈ s.toList.drop width := by
      rw [List.drop_eq_getElem_cons hlong]
      exact List.mem_cons_self ..
    have hspace := List.all_eq_true.mp hblank _ hmem
    exact absurd (by simpa using hspace) (parseInt_ne_space h _ (List.mem_of_mem_drop hmem))

def ackOf (id : Serial) (c : Commit ControlCall ControlReply) :
    Option (Principal × String × Time) :=
  match c.call with
  | .ackAlert p alertID now =>
      if parseInt alertID = some (id : ℤ) then some (p, alertID, now) else none
  | _ => none

def firstAck (id : Serial) (commits : List (Commit ControlCall ControlReply)) :
    Option (Principal × String × Time) :=
  commits.findSome? (ackOf id)

theorem firstAck_append (id : Serial) (commits : List (Commit ControlCall ControlReply))
    (c : Commit ControlCall ControlReply) :
    firstAck id (commits ++ [c]) = (firstAck id commits).or (ackOf id c) := by
  rw [firstAck, List.findSome?_append, List.findSome?_singleton]
  rfl

def AlertEventRow.acknowledged (e : AlertEventRow) (p : Principal) (now : Time) : AlertEventRow :=
  { e with ackedBy := some p.actor, ackedAt := some (timestamptz now) }

def ackRow (tenantID : Serial) (p : Principal) (alertID : String) (now : Time) : AuditLogRow :=
  ⟨tenantID, p.actor, "alert.ack", "alert", alertID, true, timestamptz now⟩

/-- A success row for the acknowledgement of this alert, in whatever spelling. -/
def isAck (id : Serial) (r : AuditLogRow) : Bool :=
  r.action = "alert.ack" && r.success && parseInt r.resourceID = some (id : ℤ)

structure Unacknowledged (db : Database) : Prop where
  alerts : ∀ e ∈ db.alertEvents.rows, e.ackedAt = none
  audits : ∀ r ∈ db.auditLogs, r.action ≠ "alert.ack"

/-- The world as a function of the commits, from the database `db₀` on. -/
structure AckState (db₀ : Database) (w : ControlWorld) : Prop where
  members : ∀ id, (w.db.users.get? id).map UserRow.tenantID =
    (db₀.users.get? id).map UserRow.tenantID
  unacked : ∀ id, firstAck id w.commits = none →
    w.db.alertEvents.get? id = db₀.alertEvents.get? id ∧ w.db.auditLogs.filter (isAck id) = []
  acked : ∀ id p alertID now, firstAck id w.commits = some (p, alertID, now) →
    ∃ e u, db₀.alertEvents.get? id = some e ∧
      w.db.alertEvents.get? id = some (e.acknowledged p now) ∧
      w.db.auditLogs.filter (isAck id) = [ackRow e.tenantID p alertID now] ∧
      w.db.users.get? u.id = some u ∧ p.actor = "user:" ++ toString (u.id : ℤ) ∧
      u.tenantID = e.tenantID

/-- Accesses that leave alerts and their audit rows alone, and every user in the tenant. -/
def Access.Beyond (db₀ : Database) : Access → Prop
  | .putAlertEvent _ => False
  | .insertAuditLog r => r.action ≠ "alert.ack"
  | .putUser r => (db₀.users.get? r.id).map UserRow.tenantID = some r.tenantID
  | _ => True

def ackLocks (u : UserRow) (t : TenantRow) (e : AlertEventRow) : List Access :=
  checkLocks u t .share ++ [.lockAlertEvent e.id .exclusive]

structure AckEffect (p : Principal) (alertID : String) (now : Time) (u : UserRow) (t : TenantRow)
    (e : AlertEventRow) (acc : List Access) (w : ControlWorld) : Prop where
  kind : p.isUser = true
  authorized : Authorized p false u t w.db
  alert : w.db.alertEvents.get? e.id = some e
  spelling : parseInt alertID = some (e.id : ℤ)
  tenant : e.tenantID = t.id
  accesses : e.ackedAt.isSome = true ∧ acc = ackLocks u t e ∨
    e.ackedAt = none ∧ acc = ackLocks u t e ++
      [.putAlertEvent (e.acknowledged p now), .insertAuditLog (ackRow t.id p alertID now)]

def AckPost (db₀ : Database) : ControlCall → List Access → ControlWorld → Prop
  | .ackAlert p alertID now, acc, w => ∃ u t e, AckEffect p alertID now u t e acc w
  | _, acc, _ => ∀ a ∈ acc, a.Beyond db₀

section Calls
variable {db₀ : Database} {J : ControlWorld → Prop} {w : ControlWorld}

theorem locks_ack_user (u : UserRow) (t : TenantRow) (e : AlertEventRow) :
    Locks (ackLocks u t e) (.user u.id) := (locks_user u t .share).append _

theorem locks_ack_tenant (u : UserRow) (t : TenantRow) (e : AlertEventRow) :
    Locks (ackLocks u t e) (.tenant t.id) := (locks_tenant u t (by decide)).append _

theorem locks_ack_alert (u : UserRow) (t : TenantRow) (e : AlertEventRow) :
    Locks (ackLocks u t e) (.alertEvent e.id) :=
  ⟨.lockAlertEvent e.id .exclusive, by simp [ackLocks], rfl, by simp [Access.mode]⟩

theorem find_alert {db : Database} {id : ℤ} {tenant : Serial} {e : AlertEventRow}
    (h : (db.alertEvents.rows.find? fun e => (e.id : ℤ) = id && e.tenantID = tenant) = some e) :
    db.alertEvents.get? e.id = some e ∧ (e.id : ℤ) = id ∧ e.tenantID = tenant := by
  have hp := List.find?_some h
  simp only [Bool.and_eq_true, decide_eq_true_eq] at hp
  exact ⟨Table.get?_of_mem (List.mem_of_find?_eq_some h), hp.1, hp.2⟩

theorem ackAlert_wp (p : Principal) (alertID : String) (now : Time) :
    (ackAlert p alertID now).wp (ControlRely J)
      (fun _ acc w => ∃ u t e, AckEffect p alertID now u t e acc w) [] w := by
  unfold ackAlert
  cases hid : parseInt alertID with
  | none => exact Tx.wp_throw
  | some id =>
  refine Tx.wp_ite (fun _ => Tx.wp_throw) fun _ => ?_
  refine wp_operationTenant_bind fun v₁ u t hkind hauth₁ => ?_
  refine Tx.wp_exec fun v₂ h₂ e as hexec => ?_
  split at hexec
  · cases hexec
  rename_i e' he'
  cases hexec
  obtain ⟨halert₂, hspelling, htenant⟩ := find_alert he'
  subst hspelling
  change v₂.db.alertEvents.get? e.id = some e at halert₂
  have hauth₂ := hauth₁.kept h₂.kept (locks_user u t .share) (locks_tenant u t (by decide))
  change Tx.wp (ControlRely J) _ _ (ackLocks u t e) v₂
  -- from here on the alert, the user and the tenant are locked
  have hlater : ∀ as v, ControlRely J (ackLocks u t e ++ as) v₂ v →
      Authorized p false u t v.db ∧ v.db.alertEvents.get? e.id = some e := by
    intro as v hv
    have hkept : Kept (ackLocks u t e) v₂.db v.db := hv.kept.mono
    exact ⟨hauth₂.kept hkept (locks_ack_user u t e) (locks_ack_tenant u t e),
      (hkept.alerts _ (locks_ack_alert u t e)).trans halert₂⟩
  refine Tx.wp_ite (fun hacked => ?_) fun hopen => ?_
  · refine Tx.wp_pure fun v hv => ?_
    obtain ⟨hauth, halert⟩ := hlater [] v (by simpa using hv)
    exact ⟨u, t, e, hkind, hauth, halert, hid, htenant, .inl ⟨hacked, rfl⟩⟩
  · refine Tx.wp_exec fun v₃ h₃ _ as hexec => ?_
    obtain ⟨-, halert₃⟩ := hlater [] v₃ (by simpa using h₃)
    have hview : (Tx.view v₃.db (ackLocks u t e)).alertEvents.get? e.id = some e := halert₃
    simp only [hview] at hexec
    cases hexec
    intro v₄ h₄ _ as hexec
    split at hexec
    · cases hexec
    rename_i text htext
    obtain rfl := varchar_of_parseInt hid htext
    cases hexec
    intro v₅ h₅
    have h₃₅ : ControlRely J (ackLocks u t e ++ []) v₂ v₅ := by
      refine ⟨h₅.holds, ?_⟩
      rw [List.append_nil]
      exact (h₃.kept.trans h₄.kept.mono).trans h₅.kept.mono.mono
    obtain ⟨hauth, halert⟩ := hlater [] v₅ h₃₅
    refine ⟨u, t, e, hkind, hauth, halert, hid, htenant, .inr ⟨?_, ?_⟩⟩
    · simpa using hopen
    · simp [AlertEventRow.acknowledged, ackRow]

theorem beyond_of_uses {α : Type} {k : ControlTx α} (h : k.Uses (Access.Beyond db₀)) :
    k.wp (ControlRely J) (fun _ acc _ => ∀ a ∈ acc, a.Beyond db₀) [] w :=
  Tx.wp_of_uses h (P := fun _ => True) (fun _ _ _ _ _ _ => trivial) trivial fun _ _ _ has _ => has

theorem beyond_administrative {c : ControlCall} (h : c.administrative = true) :
    (controlProgram c).wp (ControlRely J) (fun _ acc _ => ∀ a ∈ acc, a.Beyond db₀) [] w := by
  refine beyond_of_uses ((administrative_program h).mono fun a ha => ?_)
  cases a with
  | putUser r => exact ha.elim
  | _ => exact ha

end Calls

section Users
variable {db₀ : Database} {w : ControlWorld}

theorem AckState.member (h : AckState db₀ w) {u : UserRow} (hu : w.db.users.get? u.id = some u) :
    (db₀.users.get? u.id).map UserRow.tenantID = some u.tenantID := by
  rw [← h.members, hu, Option.map_some]

theorem beyond_updateUser (d : AccountDraws) (tenantCode : String) (userID : ℤ)
    (patch : UserUpdate) : (updateUser d tenantCode userID patch).wp (ControlRely (AckState db₀))
      (fun _ acc _ => ∀ a ∈ acc, a.Beyond db₀) [] w := by
  refine Tx.wp_query fun v₁ _ => ?_
  cases (Tx.view v₁.db []).tenants.rows.find? fun t => t.tenantCode = tenantCode with
  | none => exact Tx.wp_throw
  | some tenant =>
    refine Tx.wp_exec fun v₂ h₂ user as hexec => ?_
    split at hexec
    · cases hexec
    rename_i u hu
    cases hexec
    have hmember := h₂.holds.member (find_user_of_tenant hu).1
    refine Tx.wp_of_uses (q := Access.Beyond db₀) (P := fun _ => True) ?_
      (fun _ _ _ _ _ _ => trivial) trivial ?_
    · refine Tx.uses_bind (uses_saveUser trivial fun r hr => ?_) fun _ =>
        Tx.uses_bind (Tx.uses_query _) fun _ => Tx.uses_pure _
      obtain ⟨hid, hten, -⟩ := UserRow.stored_spec hr
      change (db₀.users.get? r.id).map UserRow.tenantID = some r.tenantID
      rw [hid, hten]
      exact hmember
    · intro _ as v has _ a ha
      rcases List.mem_append.mp ha with ha | ha
      · rw [List.nil_append, List.mem_singleton] at ha
        exact ha ▸ trivial
      · exact has a ha

theorem beyond_createSession (d : AccountDraws) (userID : ℤ) (tokenHash : String)
    (expiresAt : Time) (ip userAgent : String) (now : Time) :
    (createSession d userID tokenHash expiresAt ip userAgent now).wp (ControlRely (AckState db₀))
      (fun _ acc _ => ∀ a ∈ acc, a.Beyond db₀) [] w := by
  refine Tx.wp_exec fun v hv _ as hexec => ?_
  have hlogin : ∀ a ∈ as, a.Beyond db₀ := by
    intro a ha
    split at hexec
    · cases hexec
      exact List.mem_singleton.mp ha ▸ trivial
    · rename_i u hu
      cases hexec
      simp only [List.mem_cons, List.not_mem_nil, or_false] at ha
      rcases ha with rfl | rfl
      · trivial
      · exact hv.holds.member (u := u) (find_user hu).1
  have hrest : (insertUserSession d userID fun id => {
      id := d.sessionID, userID := id, tokenHash := tokenHash, expiresAt := expiresAt
      lastSeenAt := some now, lastSeenIP := emptyStringPtr ip
      userAgent := emptyStringPtr userAgent, createdAt := now
      updatedAt := d.clock }).Uses (Access.Beyond db₀) := by
    refine Tx.uses_exec fun db x bs hx a ha => ?_
    split at hx
    · cases hx
    · split at hx
      · cases hx
      · split_ifs at hx
        cases hx
        simp only [List.mem_cons, List.not_mem_nil, or_false] at ha
        rcases ha with rfl | rfl <;> trivial
  refine Tx.wp_of_uses hrest (P := fun _ => True) (fun _ _ _ _ _ _ => trivial) trivial ?_
  intro _ bs v has _ a ha
  rcases List.mem_append.mp ha with ha | ha
  · exact hlogin a (by simpa using ha)
  · exact has a ha

theorem ackPost_wp (c : ControlCall) (w : ControlWorld) :
    (controlProgram c).wp (ControlRely (AckState db₀))
      (fun _ acc w => AckPost db₀ c acc w) [] w := by
  cases c with
  | ackAlert p alertID now =>
    exact Tx.wp_bind_pure (f := fun _ => ControlReply.done)
      (Tx.wp_mapError (ackAlert_wp p alertID now))
  | updateUser d tenantCode userID patch =>
    exact Tx.wp_bind_pure (Tx.wp_mapError (beyond_updateUser d tenantCode userID patch))
  | createSession d userID tokenHash expiresAt ip userAgent now =>
    exact Tx.wp_bind_pure (f := fun _ => ControlReply.done)
      (Tx.wp_mapError (beyond_createSession d userID tokenHash expiresAt ip userAgent now))
  | createMaintenance => exact beyond_administrative rfl
  | createShare => exact beyond_administrative rfl
  | revokeShare => exact beyond_administrative rfl
  | setTenantStatus => exact beyond_administrative rfl

end Users

section Commit
variable {db₀ : Database} {w : ControlWorld} {acc : List Access}

theorem alerts_beyond (h : ∀ a ∈ acc, a.Beyond db₀) (db : Database) :
    (Tx.view db acc).alertEvents = db.alertEvents := by
  refine view_frame (f := Database.alertEvents) (fun a ha x => ?_) db
  cases a with
  | putAlertEvent r => exact (h _ ha).elim
  | _ => rfl

theorem audits_beyond (h : ∀ a ∈ acc, a.Beyond db₀) (id : Serial) (db : Database) :
    (Tx.view db acc).auditLogs.filter (isAck id) = db.auditLogs.filter (isAck id) := by
  refine view_frame (f := fun x => x.auditLogs.filter (isAck id)) (fun a ha x => ?_) db
  cases a with
  | insertAuditLog r =>
    have hr : r.action ≠ "alert.ack" := h _ ha
    simp [isAck, hr]
  | _ => rfl

theorem members_beyond (h : ∀ a ∈ acc, a.Beyond db₀) {db : Database}
    (hdb : ∀ id, (db.users.get? id).map UserRow.tenantID =
      (db₀.users.get? id).map UserRow.tenantID) (id : Serial) :
    ((Tx.view db acc).users.get? id).map UserRow.tenantID =
      (db₀.users.get? id).map UserRow.tenantID := by
  refine Tx.view_induction (q := Access.Beyond db₀) (I := fun x : Database => ∀ id,
    (x.users.get? id).map UserRow.tenantID = (db₀.users.get? id).map UserRow.tenantID) ?_ h hdb id
  intro x a ha hx id
  cases a with
  | putUser r =>
    change ((x.users.put r).get? id).map UserRow.tenantID = _
    rw [Table.get?_put]
    split_ifs with hid
    · exact hid ▸ ha.symm
    · exact hx id
  | _ => exact hx id

theorem user_of_member {db db' : Database} {u : UserRow} (hu : db.users.get? u.id = some u)
    (h : (db'.users.get? u.id).map UserRow.tenantID = (db.users.get? u.id).map UserRow.tenantID) :
    ∃ u', db'.users.get? u'.id = some u' ∧ u'.id = u.id ∧ u'.tenantID = u.tenantID := by
  rw [hu, Option.map_some, Option.map_eq_some_iff] at h
  obtain ⟨u', hu', hten⟩ := h
  have hid : u'.id = u.id := Table.key_of_get? hu'
  exact ⟨u', hid ▸ hu', hid, hten⟩

/-- A commit that leaves the alerts and their audit rows alone keeps the state. -/
theorem AckState.of_same {w' : ControlWorld} (h : AckState db₀ w)
    (hcommits : ∀ id, firstAck id w'.commits = firstAck id w.commits)
    (halerts : w'.db.alertEvents = w.db.alertEvents)
    (haudits : ∀ id, w'.db.auditLogs.filter (isAck id) = w.db.auditLogs.filter (isAck id))
    (hmembers : ∀ id, (w'.db.users.get? id).map UserRow.tenantID =
      (db₀.users.get? id).map UserRow.tenantID) : AckState db₀ w' where
  members := hmembers
  unacked := by
    intro id hid
    rw [halerts, haudits]
    exact h.unacked id (hcommits id ▸ hid)
  acked := by
    intro id p alertID now hid
    obtain ⟨e, u, he, halert, haudit, hu, hactor, hten⟩ :=
      h.acked id p alertID now (hcommits id ▸ hid)
    obtain ⟨u', hu', hid', hten'⟩ := user_of_member hu ((hmembers _).trans (h.members _).symm)
    refine ⟨e, u', he, halerts ▸ halert, (haudits id).trans haudit, hu', ?_, hten'.trans hten⟩
    rw [hid', hactor]

theorem actor_of_user {p : Principal} (h : p.isUser = true) :
    p.actor = "user:" ++ toString p.userID := by
  simp [Principal.actor, h]

/-- The alert in the state is the one a committing acknowledgement has locked. -/
theorem AckState.open_of_effect (h : AckState db₀ w) {p : Principal} {alertID : String}
    {now : Time} {u : UserRow} {t : TenantRow} {e : AlertEventRow}
    (hx : AckEffect p alertID now u t e acc w) (hopen : e.ackedAt = none) :
    firstAck e.id w.commits = none := by
  cases hfirst : firstAck e.id w.commits with
  | none => rfl
  | some ack =>
    obtain ⟨p', alertID', now'⟩ := ack
    obtain ⟨e₀, -, -, halert, -⟩ := h.acked e.id p' alertID' now' hfirst
    rw [hx.alert, Option.some.injEq] at halert
    rw [halert] at hopen
    cases hopen

theorem AckState.acked_of_effect (h : AckState db₀ w) (h₀ : Unacknowledged db₀) {p : Principal}
    {alertID : String} {now : Time} {u : UserRow} {t : TenantRow} {e : AlertEventRow}
    (hx : AckEffect p alertID now u t e acc w) (hacked : e.ackedAt.isSome = true) :
    ∃ ack, firstAck e.id w.commits = some ack := by
  cases hfirst : firstAck e.id w.commits with
  | some ack => exact ⟨ack, rfl⟩
  | none =>
    have halert := (h.unacked e.id hfirst).1
    rw [hx.alert] at halert
    have hopen := h₀.alerts e (Table.mem_of_get? halert.symm)
    rw [hopen] at hacked
    cases hacked

theorem ackOf_ackAlert (id : Serial) (began : ℕ) (p : Principal) (alertID : String) (now : Time)
    (r : ControlReply) : ackOf id ⟨began, .ackAlert p alertID now, r⟩ =
      if parseInt alertID = some (id : ℤ) then some (p, alertID, now) else none := rfl

theorem view_ackLocks (u : UserRow) (t : TenantRow) (e : AlertEventRow) (db : Database) :
    Tx.view db (ackLocks u t e) = db := rfl

theorem AckState.commit_ack (h : AckState db₀ w) (h₀ : Unacknowledged db₀) {p : Principal}
    {alertID : String} {now : Time} {u : UserRow} {t : TenantRow} {e : AlertEventRow}
    (hx : AckEffect p alertID now u t e acc w) (began : ℕ) (r : ControlReply) :
    AckState db₀ ⟨Tx.view w.db acc, w.commits ++ [⟨began, .ackAlert p alertID now, r⟩]⟩ := by
  have hother : ∀ id, id ≠ e.id → ackOf id ⟨began, .ackAlert p alertID now, r⟩ = none := by
    intro id hid
    rw [ackOf_ackAlert, if_neg]
    rw [hx.spelling, Option.some.injEq]
    exact fun heq => hid (by exact_mod_cast heq.symm)
  rcases hx.accesses with ⟨hacked, rfl⟩ | ⟨hopen, rfl⟩
  -- someone else has acknowledged it: nothing is written
  · obtain ⟨ack, hack⟩ := h.acked_of_effect h₀ hx hacked
    refine h.of_same (fun id => ?_) rfl (fun _ => rfl) h.members
    rw [firstAck_append]
    by_cases hid : id = e.id
    · rw [hid, hack]
      rfl
    · rw [hother id hid, Option.or_none]
  · have hfirst := h.open_of_effect hx hopen
    obtain ⟨halert₀, haudit₀⟩ := h.unacked e.id hfirst
    rw [hx.alert] at halert₀
    rw [Tx.view_append, view_ackLocks]
    have hrow : ∀ id, isAck id (ackRow t.id p alertID now) = decide (id = e.id) := by
      intro id
      simp only [isAck, ackRow, hx.spelling, decide_true, Bool.true_and, Option.some.injEq]
      exact decide_eq_decide.mpr ⟨fun heq => by exact_mod_cast heq.symm, fun heq => by rw [heq]⟩
    have hput : ∀ id, id ≠ e.id → (w.db.alertEvents.put (e.acknowledged p now)).get? id =
        w.db.alertEvents.get? id :=
      fun id hne => Table.get?_put_of_ne _ fun heq => hne heq.symm
    have haudits : ∀ id, id ≠ e.id → (w.db.auditLogs ++ [ackRow t.id p alertID now]).filter
        (isAck id) = w.db.auditLogs.filter (isAck id) := by
      intro id hne
      rw [List.filter_append, List.filter_singleton, hrow, decide_eq_false hne]
      exact List.append_nil _
    refine ⟨h.members, fun id hid => ?_, fun id p' alertID' now' hid => ?_⟩
    · rw [firstAck_append, Option.or_eq_none_iff] at hid
      have hne : id ≠ e.id := by
        rintro rfl
        rw [ackOf_ackAlert, if_pos hx.spelling] at hid
        cases hid.2
      obtain ⟨halert, haudit⟩ := h.unacked id hid.1
      exact ⟨(hput id hne).trans halert, (haudits id hne).trans haudit⟩
    · rw [firstAck_append] at hid
      by_cases hne : id = e.id
      · subst hne
        rw [hfirst, Option.none_or, ackOf_ackAlert, if_pos hx.spelling] at hid
        cases hid
        refine ⟨e, u, halert₀.symm, Table.get?_put_self _ (e.acknowledged p now), ?_,
          hx.authorized.user, ?_, ?_⟩
        · change (w.db.auditLogs ++ [ackRow t.id p alertID now]).filter (isAck e.id) = _
          rw [List.filter_append, haudit₀, List.filter_singleton, hrow, hx.tenant]
          simp
        · rw [actor_of_user hx.kind, hx.authorized.actor]
        · rw [hx.authorized.member, hx.tenant]
      · rw [hother id hne, Option.or_none] at hid
        obtain ⟨e', u', he', halert, haudit, hu', hactor, hten⟩ := h.acked id p' alertID' now' hid
        exact ⟨e', u', he', (hput id hne).trans halert, (haudits id hne).trans haudit, hu', hactor,
          hten⟩

theorem AckState.commit (h : AckState db₀ w) (h₀ : Unacknowledged db₀) {call : ControlCall}
    (hpost : AckPost db₀ call acc w) (began : ℕ) (r : ControlReply) :
    AckState db₀ ⟨Tx.view w.db acc, w.commits ++ [⟨began, call, r⟩]⟩ := by
  have hbeyond : (∀ a ∈ acc, a.Beyond db₀) → (∀ id, ackOf id ⟨began, call, r⟩ = none) →
      AckState db₀ ⟨Tx.view w.db acc, w.commits ++ [⟨began, call, r⟩]⟩ := by
    intro hacc hnone
    refine h.of_same (fun id => ?_) (alerts_beyond hacc w.db) (fun id => audits_beyond hacc id w.db)
      (members_beyond hacc h.members)
    rw [firstAck_append, hnone, Option.or_none]
  cases call with
  | ackAlert p alertID now =>
    obtain ⟨u, t, e, hx⟩ := hpost
    exact h.commit_ack h₀ hx began r
  | createMaintenance => exact hbeyond hpost fun _ => rfl
  | createShare => exact hbeyond hpost fun _ => rfl
  | revokeShare => exact hbeyond hpost fun _ => rfl
  | updateUser => exact hbeyond hpost fun _ => rfl
  | createSession => exact hbeyond hpost fun _ => rfl
  | setTenantStatus => exact hbeyond hpost fun _ => rfl

end Commit

theorem AckState.initial {db₀ : Database} (h₀ : Unacknowledged db₀) : AckState db₀ ⟨db₀, []⟩ where
  members := fun _ => rfl
  unacked := by
    refine fun id _ => ⟨rfl, List.filter_eq_nil_iff.mpr fun r hr => ?_⟩
    simp [isAck, h₀.audits r hr]
  acked := by
    intro id p alertID now hid
    cases hid

theorem ack_discipline {db₀ : Database} (h₀ : Unacknowledged db₀) :
    Sys.Discipline controlProgram LeavesControl (AckState db₀)
      (fun _ => ControlRely (AckState db₀)) (fun c _ _ acc w => AckPost db₀ c acc w) :=
  control_discipline (fun c w _ => ackPost_wp c w)
    (fun _ c r hJ hpost => hJ.commit h₀ hpost c.began r)
    fun w db hJ husers halerts haudits => hJ.of_same (fun _ => rfl) halerts
      (fun _ => by rw [haudits]) fun id => by rw [husers]; exact hJ.members id

/-- No alert of the tenant has this number. -/
def NoAlert (alertID : String) (tenant : Serial) (db : Database) : Prop :=
  ∀ e, db.alertEvents.get? e.id = some e → e.tenantID = tenant →
    parseInt alertID ≠ some (e.id : ℤ)

def AckRefused : ControlCall → ControlError → List Access → ControlWorld → Prop
  | .ackAlert p alertID _, error, _, w => p.isUser = true → ∀ u t, Authorized p false u t w.db →
      NoAlert alertID t.id w.db → error = .access .notFound
  | _, _, _, _ => True

section Refusals
variable {J : ControlWorld → Prop} {w : ControlWorld} {p : Principal} {admin : Bool}
  {u u' : UserRow} {t t' : TenantRow} {db : Database}

theorem Authorized.user_eq (h : Authorized p admin u t db) (hu : db.users.get? u'.id = some u')
    (hid : (u'.id : ℤ) = p.userID) : u' = u := by
  have hids : u'.id = u.id := by exact_mod_cast hid.trans h.actor.symm
  rw [hids, h.user] at hu
  exact (Option.some.inj hu).symm

theorem activeUser_of_authorized (h : Authorized p admin u t db) :
    db.activeUser p = some (u, t) := by
  have hfind : (db.users.rows.find? fun u => (u.id : ℤ) = p.userID) = some u := by
    cases hx : db.users.rows.find? fun u => (u.id : ℤ) = p.userID with
    | none =>
      have hno := List.find?_eq_none.mp hx u (Table.mem_of_get? h.user)
      simp [h.actor] at hno
    | some u' =>
      obtain ⟨hu', hid⟩ := find_user hx
      rw [h.user_eq hu' hid]
  simp only [Database.activeUser, hfind, h.member, h.tenant, h.code, h.active, h.enabled,
    decide_true, Bool.and_self, if_true]

theorem ackAlert_refusals (p : Principal) (alertID : String) (now : Time) :
    (ackAlert p alertID now).refusals (ControlRely J)
      (fun e => AckRefused (.ackAlert p alertID now) (.access e)) [] w := by
  have hnotFound : ∀ acc v, AckRefused (.ackAlert p alertID now) (.access .notFound) acc v :=
    fun _ _ _ _ _ _ _ => rfl
  unfold ackAlert
  cases hid : parseInt alertID with
  | none => exact fun v _ => hnotFound _ v
  | some id =>
  by_cases hpos : id ≤ 0
  · simp only [hpos, if_true]
    exact fun v _ => hnotFound _ v
  simp only [hpos, if_false]
  unfold operationTenant
  by_cases hkind : (!p.isUser || (false && !p.isAdmin)) = true
  · rw [if_pos hkind]
    intro v _ huser
    simp [huser] at hkind
  rw [if_neg hkind]
  refine Tx.refusals_exec fun v₁ _ => ⟨fun e he huser u t hauth _ => ?_, fun row as hrow => ?_⟩
  · have hview : (Tx.view v₁.db []).activeUser p = some (u, t) := activeUser_of_authorized hauth
    simp only [hview] at he
    cases he
  split at hrow
  · cases hrow
  rename_i u t hactive
  cases hrow
  obtain ⟨hu₁, ht₁, hactor, hten, -⟩ := activeUser_eq_some hactive
  change Tx.refusals (ControlRely J) _ (Tx.bind (if (u.role ≠ "admin" ∧ u.role ≠ "member") ∨
    (false = true ∧ u.role ≠ "admin") then throw AccessError.forbidden else pure u.tenantID) _)
    (checkLocks u t .share) v₁
  have huser : ∀ as v, ControlRely J (checkLocks u t .share ++ as) v₁ v →
      v.db.users.get? u.id = some u :=
    fun as v hv => (hv.kept.users _ ((locks_user u t .share).append as)).trans hu₁
  by_cases hrole : (u.role ≠ "admin" ∧ u.role ≠ "member") ∨ (false = true ∧ u.role ≠ "admin")
  -- the role that was read is still the user's role
  · rw [if_pos hrole]
    intro v hv _ u' t' hauth _
    have heq := hauth.user_eq (huser [] v (by simpa using hv)) hactor
    have hbad := hauth.role
    rw [← heq] at hbad
    simp only [Bool.false_eq_true, false_and, or_false] at hrole
    rcases hbad with hbad | ⟨-, hbad⟩
    · exact absurd hbad hrole.1
    · exact absurd hbad hrole.2
  rw [if_neg hrole]
  refine Tx.refusals_exec fun v₂ h₂ => ⟨fun e he => ?_, fun e as he => ?_⟩
  · split at he
    · cases he
      exact hnotFound _ v₂
    · cases he
  · split at he
    · cases he
    rename_i e' hfound
    cases he
    obtain ⟨halert, hspelling, htenant⟩ := find_alert hfound
    change v₂.db.alertEvents.get? e.id = some e at halert
    change Tx.refusals _ _ _ (ackLocks u t e) v₂
    refine Tx.refusals_of_stable (P := fun v => v.db.users.get? u.id = some u ∧
      v.db.alertEvents.get? e.id = some e) ?_ ⟨huser [] v₂ (by simpa using h₂), halert⟩ ?_
    · intro as v v' hv hP
      have hkept : Kept (ackLocks u t e) v.db v'.db := hv.kept.mono
      exact ⟨(hkept.users _ (locks_ack_user u t e)).trans hP.1,
        (hkept.alerts _ (locks_ack_alert u t e)).trans hP.2⟩
    · intro error as v hP _ u' t' hauth hno
      have heq := hauth.user_eq hP.1 hactor
      refine absurd ?_ (hno e hP.2 ?_)
      · rw [hid, hspelling]
      · rw [htenant, heq, hauth.member]

theorem ackRefused_start (c : ControlCall) (w : ControlWorld) :
    (controlProgram c).refusals (ControlRely J) (AckRefused c) [] w := by
  cases c with
  | ackAlert p alertID now =>
    exact Tx.refusals_bind_pure (f := fun _ => ControlReply.done)
      (Tx.refusals_mapError (ackAlert_refusals p alertID now))
  | _ => exact Tx.refusals_of_forall (fun _ _ _ => trivial) _ _ _

end Refusals

/-- Every state of every run is the one that the first acknowledgements lead to; an alert
that has been acknowledged is not written again; and an acknowledgement of an alert that
the actor's tenant does not have ends with `ErrNotFound`, with nothing changed. -/
theorem acknowledged_once (db : Database) (s : ControlSys) (hinit : Unacknowledged db)
    (h : Sys.Run controlProgram LeavesControl ⟨⟨db, []⟩, []⟩ s) :
    AckState db s.world ∧
    (∀ i c id, s.committing i = some c → (firstAck id s.world.commits).isSome = true →
      ∀ r, .putAlertEvent r ∈ c.acc → r.id ≠ id) ∧
    ∀ i c p alertID now u t, s.Live i c → c.call = .ackAlert p alertID now → p.isUser = true →
      Authorized p false u t s.world.db → NoAlert alertID t.id s.world.db →
      s.committing i = none ∧ ∀ e, s.failing i = some e → e = .access .notFound ∧
        ∀ s', s.step controlProgram (.advance i) = some s' → s'.world = s.world := by
  have hsound := h.sound (ack_discipline hinit) (Sys.sound_of_idle (.initial hinit))
  have hpost : ∀ i c, s.committing i = some c → AckPost db c.call c.acc s.world := by
    intro i c hc
    obtain ⟨hlive, r, hp⟩ := Sys.committing_eq_some.mp hc
    exact hsound.commit_post (ack_discipline hinit) hlive hp
  refine ⟨hsound.inv, fun i c id hc hfirst r hr => ?_, ?_⟩
  · have hp := hpost i c hc
    cases hcall : c.call with
    | ackAlert p alertID now =>
      rw [hcall] at hp
      obtain ⟨u, t, e, hx⟩ := hp
      rcases hx.accesses with ⟨-, hacc⟩ | ⟨hopen, hacc⟩
      · rw [hacc] at hr
        simp [ackLocks, checkLocks] at hr
      · rw [hacc] at hr
        have hrow : r = e.acknowledged p now := by simpa [ackLocks, checkLocks] using hr
        have hnone := hsound.inv.open_of_effect hx hopen
        intro hid
        have hids : id = e.id := by rw [← hid, hrow]; rfl
        rw [hids, hnone] at hfirst
        cases hfirst
    | _ =>
      rw [hcall] at hp
      exact (hp _ hr).elim
  · intro i c p alertID now u t hlive hcall huser hauth hno
    refine ⟨?_, fun e he => ⟨?_, fun s' hs' => Sys.world_of_failing he hs'⟩⟩
    · cases hc : s.committing i with
      | none => rfl
      | some c' =>
        have hlive' := (Sys.committing_eq_some.mp hc).1
        have hcc : c' = c := by simpa [Sys.Live, hlive] using hlive'.symm
        have hp := hpost i c' hc
        rw [hcc, hcall] at hp
        obtain ⟨u', t', e, hx⟩ := hp
        have heq := hauth.user_eq hx.authorized.user hx.authorized.actor
        refine absurd hx.spelling (hno e hx.alert ?_)
        rw [hx.tenant, ← hx.authorized.member, heq, hauth.member]
    · have href := h.refusals (ack_discipline hinit) (fun s c _ _ => ackRefused_start c s.world)
        (.initial hinit) i c hlive
      have hrefused := Sys.refused_of_failing (ack_discipline hinit) hsound.inv hlive he href
      rw [hcall] at hrefused
      exact hrefused huser u t hauth hno

-- Two operators of one tenant, and two spellings of one number.

def sampleAlerts : Database :=
  { sampleShares with
    users := ⟨[{ id := 1, tenantID := 1, role := "admin", status := "active" },
      { id := 2, tenantID := 1, role := "member", status := "active" }], by decide⟩
    alertEvents := ⟨[{ id := 7, tenantID := 1, fingerprint := "f" }], by decide⟩ }

def sampleMember : Principal := { sampleAdmin with userID := 2, role := "member" }

def twoAcknowledgements : List (Event Database ControlCall) :=
  .start (.ackAlert sampleAdmin "7" 1000) :: .start (.ackAlert sampleMember "+007" 2000) ::
    (controlAdvances 1 2 ++ controlAdvances 0 1 ++ controlAdvances 1 3 ++ controlAdvances 0 2)

theorem acknowledged_once_sample : ∃ s,
    (⟨⟨sampleAlerts, []⟩, []⟩ : ControlSys).steps controlProgram twoAcknowledgements = some s ∧
    firstAck 7 s.world.commits = some (sampleMember, "+007", 2000) ∧
      AckState sampleAlerts s.world := by
  have hadmits : (⟨⟨sampleAlerts, []⟩, []⟩ : ControlSys).admits controlProgram LeavesControl
      twoAcknowledgements = true := by decide +kernel
  have hfirst : ((⟨⟨sampleAlerts, []⟩, []⟩ : ControlSys).steps controlProgram
      twoAcknowledgements).any (fun s => s.world.commits.length = 2 &&
        firstAck 7 s.world.commits = some (sampleMember, "+007", 2000)) = true := by decide +kernel
  obtain ⟨s, hs, hrun⟩ := Sys.run_of_admits hadmits
  rw [hs, Option.any_some, Bool.and_eq_true] at hfirst
  have hinit : Unacknowledged sampleAlerts := ⟨by decide, by decide⟩
  exact ⟨s, hs, of_decide_eq_true hfirst.2, (acknowledged_once sampleAlerts s hinit hrun).1⟩

end Gaoming
