import Gaoming.TenantWrites
import Gaoming.MasterRuns

/-!
# Tenants do not touch each other

Whatever the requests of other tenants and of agents do, alone or side by side, what a
tenant owns stays as it is. Its hosts and its own row, which agents set, do not count as
owned. The one exception is the time of a last login, which anybody who can sign in as one
of its users sets.
-/

namespace Gaoming
open Relational Transaction

/-- The row under a key, if it is the tenant's. -/
def Database.owned (db : Database) (τ : Serial) (k : Key) : Option TenantRecord :=
  ((db.record? k).filter fun r => r.mark = .tenant τ).map TenantRecord.unstamped

/-- What the tenant owns is the same, as are the sessions of its shares unless somebody has
`exchanged` a share token for a session. -/
structure Untouched (τ : Serial) (exchanged : Bool) (db db' : Database) : Prop where
  rows : ∀ k, db'.owned τ k = db.owned τ k
  audits : db'.auditLogs.filter (fun r => r.tenantID = τ) =
    db.auditLogs.filter fun r => r.tenantID = τ
  sessions : exchanged = false → ∀ h,
    ((db'.accessShareSessions.get? h).filter fun r =>
        db'.tenantMark? (.share r.shareID) = some (.tenant τ)) =
      (db.accessShareSessions.get? h).filter fun r =>
        db.tenantMark? (.share r.shareID) = some (.tenant τ)

section Untouched
variable {τ τ' : Serial} {code : String} {b b' : Bool} {acc : List Access} {a : Access}
variable {db db' db'' : Database} {k : Key}

theorem Untouched.refl : Untouched τ b db db := ⟨fun _ => rfl, rfl, fun _ _ => rfl⟩

theorem Untouched.trans (h : Untouched τ b db db') (h' : Untouched τ b' db' db'') :
    Untouched τ (b || b') db db'' where
  rows := fun k => (h'.rows k).trans (h.rows k)
  audits := h'.audits.trans h.audits
  sessions := by
    intro hb x
    rw [Bool.or_eq_false_iff] at hb
    exact (h'.sessions hb.2 x).trans (h.sessions hb.1 x)

theorem tenantMark?_iff_owned :
    db.tenantMark? k = some (.tenant τ) ↔ (db.owned τ k).isSome = true := by
  change (db.record? k).map TenantRecord.mark = _ ↔ _
  unfold Database.owned
  cases db.record? k with
  | none => simp
  | some r =>
    rw [Option.filter_some]
    split_ifs with h
    · simpa using h
    · simpa using h

/-- A session belongs to the tenant of its share. -/
theorem sessions_of_rows (hrows : ∀ k, db'.owned τ k = db.owned τ k) {x : String}
    (h : db'.accessShareSessions.get? x = db.accessShareSessions.get? x) :
    ((db'.accessShareSessions.get? x).filter fun r =>
        db'.tenantMark? (.share r.shareID) = some (.tenant τ)) =
      (db.accessShareSessions.get? x).filter fun r =>
        db.tenantMark? (.share r.shareID) = some (.tenant τ) := by
  rw [h]
  simp only [tenantMark?_iff_owned, hrows]

theorem Access.Confined.mark_ne (h : a.Confined τ' db) (hne : τ' ≠ τ) (r : TenantRecord)
    (hr : a.record? = some r) : r.mark ≠ .tenant τ := by
  cases a with
  | putTenant =>
    cases hr
    simp [TenantRecord.mark]
  | putUser | putUserPassword | putAlertEvent | putMaintenanceWindow | putShare | putShareHost =>
    cases hr
    intro hm
    exact hne (h.symm.trans (Mark.tenant.inj hm))
  | _ => cases hr

theorem sessions_view (acc : List Access) (h : ∀ a ∈ acc, ∀ r, a ≠ .putShareSession r)
    (db : Database) (x : String) :
    (Tx.view db acc).accessShareSessions.get? x = db.accessShareSessions.get? x ∨
      .eraseShareSession x ∈ acc ∧ (Tx.view db acc).accessShareSessions.get? x = none := by
  induction acc generalizing db with
  | nil => exact .inl rfl
  | cons a acc ih =>
    rw [Tx.view_cons]
    rcases ih (fun a' ha' => h a' (List.mem_cons_of_mem a ha')) (db.apply a) with hv | ⟨hmem, hv⟩
    · change (Tx.view (db.apply a) acc).accessShareSessions.get? x = _ ∨ _
      rw [hv]
      cases a with
      | putShareSession r => exact absurd rfl (h _ (List.mem_cons_self ..) r)
      | eraseShareSession y =>
        by_cases hxy : y = x
        · subst hxy
          refine .inr ⟨List.mem_cons_self .., hv.trans ?_⟩
          rw [Table.get?_eq_none_iff]
          intro r hr
          exact (Table.mem_erase.mp hr).2
        · exact .inl (Table.get?_erase_of_ne _ hxy)
      | _ => exact .inl rfl
    · exact .inr ⟨List.mem_cons_of_mem a hmem, hv⟩

theorem Acting.untouched (h : Acting code τ' acc db) (hne : τ' ≠ τ) :
    Untouched τ false db (Tx.view db acc) := by
  have hrows : ∀ k, (Tx.view db acc).owned τ k = db.owned τ k := fun k =>
    congrArg (Option.map TenantRecord.unstamped) (Marking.filter_view (μ := tenantMarks) h.keeps
      (fun a ha => (h.confined a ha).mark_ne hne) k)
  refine ⟨hrows, ?_, fun _ x => ?_⟩
  · refine view_frame (f := fun y => y.auditLogs.filter fun r => r.tenantID = τ)
      (fun a ha y => ?_) db
    have hconfined := h.confined a ha
    cases a with
    | insertAuditLog r =>
      have hr : r.tenantID ≠ τ := fun hr => hne (hconfined.symm.trans hr)
      simp [hr]
    | _ => rfl
  · have hputs : ∀ a ∈ acc, ∀ r, a ≠ .putShareSession r := by
      rintro a ha r rfl
      exact h.confined _ ha
    rcases sessions_view acc hputs db x with hv | ⟨hmem, hv⟩
    · exact sessions_of_rows hrows hv
    · rw [hv]
      cases hold : db.accessShareSessions.get? x with
      | none => rfl
      | some r =>
        have hmark := h.confined _ hmem r hold
        rw [Option.filter_some, if_neg (by simpa [hmark] using hne)]
        rfl

theorem Access.Stamps.record (h : a.Stamps db) {r : TenantRecord} (hr : a.record? = some r) :
    (∃ t, r = .tenant t) ∨ ∃ x, db.record? a.key = some x ∧ x.unstamped = r.unstamped := by
  cases a with
  | insertAuditLog => exact h.elim
  | putTenant t =>
    cases hr
    exact .inl ⟨t, rfl⟩
  | putUser u =>
    cases hr
    obtain ⟨x, hx, hsame⟩ := h
    exact .inr ⟨.user x, congrArg (Option.map TenantRecord.user) hx, hsame⟩
  | _ => cases h.symm.trans hr

theorem Aside.untouched (h : Aside b acc db) : Untouched τ b db (Tx.view db acc) := by
  have hrows : ∀ k, (Tx.view db acc).owned τ k = db.owned τ k := by
    intro k
    unfold Database.owned
    rcases tenantMarks.row?_view acc k with hv | ⟨a, ha, r, rfl, hputs, hv⟩
    · rw [show (Tx.view db acc).record? k = db.record? k from hv db]
    · rw [show (Tx.view db acc).record? _ = some r from hv db, Option.filter_some]
      change _ = ((db.record? a.key).filter _).map _
      have hkeeps : ∀ x, db.record? a.key = some x → x.mark = r.mark := fun x hx =>
        h.keeps a ha r x.mark hputs (by change (db.record? a.key).map _ = _; rw [hx]; rfl)
      rcases (h.stamps a ha).record hputs with ⟨t, rfl⟩ | ⟨x, hx, hsame⟩
      · -- A tenant's own row bears its code.
        rw [if_neg (by simp [TenantRecord.mark])]
        cases hold : db.record? a.key with
        | none => rfl
        | some x =>
          rw [Option.filter_some, hkeeps x hold, if_neg (by simp [TenantRecord.mark])]
      · rw [hx, Option.filter_some, hkeeps x hx]
        split_ifs
        · exact congrArg some hsame.symm
        · rfl
  refine ⟨hrows, ?_, fun hb x => sessions_of_rows hrows ?_⟩
  · refine view_frame (f := fun y => y.auditLogs.filter fun r => r.tenantID = τ)
      (fun a ha y => ?_) db
    have hstamps := h.stamps a ha
    cases a with
    | insertAuditLog r => exact hstamps.elim
    | _ => rfl
  · refine view_frame (f := fun y => y.accessShareSessions.get? x) (fun a ha y => ?_) db
    have hspares := h.sessions hb a ha
    cases a with
    | putShareSession | eraseShareSession => cases hspares
    | _ => rfl

end Untouched

/-- The accesses to the tables; signing out deletes from another. -/
def tables (acc : List MasterAccess) : List Access :=
  acc.filterMap fun
    | .base a => some a
    | .eraseUserSession _ => none

def MasterWorld.tables (w : MasterWorld) : TableWorld := ⟨w.db.toDatabase, w.commits⟩

def MasterTenantRely (acc : List MasterAccess) (u v : MasterWorld) : Prop :=
  TenantRely (tables acc) u.tables v.tables

def MasterTenantPost (c : MasterCall) (acc : List MasterAccess) (w : MasterWorld) : Prop :=
  (∃ as, acc = as.map .base ∧ TenantPost c as w.db.toDatabase) ∨
    c.actsFor = none ∧ ∀ a ∈ acc, ∃ id, a = .eraseUserSession id

section Calls
variable {acc bs : List MasterAccess} {as : List Access} {db : MasterDatabase} {w : MasterWorld}
variable {α ε : Type} {c : MasterCall}

theorem tables_map_base (as : List Access) : tables (as.map .base) = as := by
  unfold tables
  rw [List.filterMap_map]
  exact List.filterMap_some

theorem mem_tables {a : Access} : a ∈ tables acc ↔ .base a ∈ acc := by
  simp only [tables, List.mem_filterMap]
  constructor
  · rintro ⟨x, hx, h⟩
    cases x with
    | base a' =>
      cases h
      exact hx
    | eraseUserSession => cases h
  · exact fun h => ⟨_, h, rfl⟩

theorem view_base (as : List Access) (db : MasterDatabase) :
    (Tx.view db (as.map MasterAccess.base)).toDatabase = Tx.view db.toDatabase as :=
  Tx.view_lift (fun _ _ => rfl) as db

theorem view_erase (h : ∀ a ∈ acc, ∃ id, a = MasterAccess.eraseUserSession id)
    (db : MasterDatabase) :
    ∃ t, (Tx.view db acc).toDatabase = { db.toDatabase with userSessions := t } := by
  induction acc generalizing db with
  | nil => exact ⟨db.userSessions, rfl⟩
  | cons a acc ih =>
    obtain ⟨id, rfl⟩ := h a (List.mem_cons_self ..)
    rw [Tx.view_cons]
    obtain ⟨t, ht⟩ := ih (fun a ha => h a (List.mem_cons_of_mem _ ha))
      (MasterAccess.apply db (.eraseUserSession id))
    exact ⟨t, ht⟩

theorem tenant_lift {p : Tx Database Access ε α}
    (h : ∀ w : TableWorld, p.wp TenantRely (fun _ acc w => TenantPost c acc w.db) [] w) :
    (onTables p).wp MasterTenantRely (fun _ acc w => MasterTenantPost c acc w) [] w := by
  change (onTables p).wp _ _ (List.map MasterAccess.base []) w
  refine Tx.wp_lift (fun _ _ => rfl) ?_ ?_ (h w.tables)
  · intro acc u v hr
    rw [MasterTenantRely, tables_map_base] at hr
    exact hr
  · exact fun _ acc v hpost => .inl ⟨acc, rfl, hpost⟩

theorem tenant_ofAccount {p : AccountTx α} {f : α → MasterReply}
    (h : ∀ w : TableWorld, p.wp TenantRely (fun _ acc w => TenantPost c acc w.db) [] w) :
    (ofAccount p >>= fun a => pure (f a)).wp MasterTenantRely
      (fun _ acc w => MasterTenantPost c acc w) [] w :=
  Tx.wp_bind_pure (tenant_lift fun w => Tx.wp_mapError (h w))

theorem tenant_ofShare {p : ShareTx α} {f : α → MasterReply}
    (h : ∀ w : TableWorld, p.wp TenantRely (fun _ acc w => TenantPost c acc w.db) [] w) :
    (ofShare p >>= fun a => pure (f a)).wp MasterTenantRely
      (fun _ acc w => MasterTenantPost c acc w) [] w :=
  Tx.wp_bind_pure (tenant_lift fun w => Tx.wp_mapError (h w))

theorem tenantPost_of_plain {p : Tx Database Access ε α} (hc : c.actsFor = none)
    (h : p.Uses (Access.Plain c.exchanges)) (w : TableWorld) :
    p.wp TenantRely (fun _ acc w => TenantPost c acc w.db) [] w :=
  tenantPost_of_aside hc (wp_aside h aside_nil)

theorem tenant_wp (store : Store) (sha256 : String → String) (c : MasterCall) (w : MasterWorld) :
    (masterProgram store sha256 c).wp MasterTenantRely (fun _ acc w => MasterTenantPost c acc w)
      [] w := by
  cases c with
  | control c =>
    exact Tx.wp_bind_pure (tenant_lift fun w => Tx.wp_mapError (tenantPost_control c w))
  | findSession | joinUser | localCredentials | setupAvailable | listUsers =>
    exact tenant_ofAccount (tenantPost_of_plain rfl (Tx.uses_query _))
  | touchSession id now =>
    exact tenant_ofAccount (c := .touchSession id now) (f := fun _ => .done)
      (tenantPost_of_plain rfl (plain_touchSession id now))
  | deleteSession tokenHash =>
    intro v _ b bs he v' _
    cases he
    refine .inr ⟨rfl, fun a ha => ?_⟩
    obtain ⟨x, -, rfl⟩ := List.mem_map.mp ha
    exact ⟨x.id, rfl⟩
  | bootstrapAdmin d account now =>
    exact tenant_ofAccount fun w =>
      tenantPost_of_acting rfl (acting_bootstrapAdmin d account now)
  | listShares p =>
    exact tenant_ofShare (tenantPost_of_plain rfl (uses_listShares p
      (fun _ => ⟨rfl, by simp, fun _ => rfl⟩) fun _ => ⟨rfl, by simp, fun _ => rfl⟩))
  | exchangeShare d raw now =>
    exact tenant_ofShare (tenantPost_of_plain rfl (uses_exchangeShare sha256 d raw now
      (fun _ => ⟨rfl, by simp, by simp [MasterCall.exchanges]⟩)
      (fun _ => ⟨rfl, by simp, by simp [MasterCall.exchanges]⟩)
      fun _ => ⟨rfl, by simp, by simp [MasterCall.exchanges]⟩))
  | liveShare hash now =>
    exact tenant_ofShare (c := .liveShare hash now) (f := fun x => .share x.1 x.2)
      (tenantPost_of_plain rfl (uses_validShare _))
  | sharePrincipal row code =>
    exact tenant_ofShare (tenantPost_of_plain rfl (uses_sharePrincipal row code))
  | validateDemo p =>
    exact tenant_ofShare (f := fun _ => .done) (tenantPost_of_plain rfl (uses_validateDemo p))
  | allocateTenant d =>
    exact Tx.wp_bind_pure (tenant_lift fun w => Tx.wp_mapError
      (tenantPost_of_aside rfl (aside_allocateTenant d)))
  | registerAgent d req now =>
    exact Tx.wp_bind_pure
      (f := fun x : HostSnapshot × AgentConfig × String => MasterReply.registered x.1 x.2.1 x.2.2)
      (tenant_lift fun w => Tx.wp_mapError
        (tenantPost_of_aside rfl (aside_registerAgent store d req now)))

end Calls

/-- What other programs may do meanwhile, such as the ingest side, where agents register too:
they change hosts, with their states and labels, add tenants, and change the name and status of
a tenant once no call of the master has it locked. What else belongs to a tenant they leave
alone. -/
structure LeavesTenants (s : MasterSys) (db : MasterDatabase) : Prop where
  codes : ∀ id m, s.world.db.tenantMark? (.tenant id) = some m →
    db.tenantMark? (.tenant id) = some m
  locked : ∀ i c id, s.Live i c → HoldsKey Database (tables c.acc) (.tenant id) →
    db.tenantMark? (.tenant id) = s.world.db.tenantMark? (.tenant id)
  records : ∀ k, (∀ id, k ≠ .tenant id) → db.record? k = s.world.db.record? k
  sessions : db.accessShareSessions = s.world.db.accessShareSessions
  audits : db.auditLogs = s.world.db.auditLogs

section Runs
variable {store : Store} {sha256 : String → String} {s t : MasterSys} {τ : Serial} {code : String}
variable {acc bs : List MasterAccess} {as : List Access} {db db' : MasterDatabase}
variable {w : MasterWorld} {c : MasterCall}

theorem LeavesTenants.mark (h : LeavesTenants s db) {k : Key} (hk : ∀ id, k ≠ .tenant id) :
    db.tenantMark? k = s.world.db.tenantMark? k :=
  congrArg (Option.map TenantRecord.mark) (h.records k hk)

theorem LeavesTenants.stays (h : LeavesTenants s db) (k : Key) (m : Mark)
    (hm : s.world.db.tenantMark? k = some m) : db.tenantMark? k = some m := by
  by_cases hk : ∃ id, k = .tenant id
  · obtain ⟨id, rfl⟩ := hk
    exact h.codes id m hm
  · exact (h.mark fun id hid => hk ⟨id, hid⟩).trans hm

theorem LeavesTenants.held (h : LeavesTenants s db) {i : ℕ}
    {c : Client MasterDatabase MasterAccess MasterError MasterReply MasterCall} (hc : s.Live i c)
    (k : Key) (hk : HoldsKey Database (tables c.acc) k) :
    db.tenantMark? k = s.world.db.tenantMark? k := by
  by_cases hid : ∃ id, k = .tenant id
  · obtain ⟨id, rfl⟩ := hid
    exact h.locked i c id hc hk
  · exact h.mark fun id hk => hid ⟨id, hk⟩

theorem LeavesTenants.users (h : LeavesTenants s db) (id : Serial) :
    db.users.get? id = s.world.db.users.get? id := by
  have hrow : (db.users.get? id).map TenantRecord.user = (s.world.db.users.get? id).map .user :=
    h.records (.user id) fun _ hid => by cases hid
  exact Option.map_injective (fun _ _ heq => TenantRecord.user.inj heq) hrow

/-- A tenant's own row belongs to no tenant. -/
theorem owned_tenant (db : Database) (id : Serial) : db.owned τ (.tenant id) = none := by
  change (((db.tenants.get? id).map TenantRecord.tenant).filter _).map _ = none
  cases db.tenants.get? id with
  | none => rfl
  | some t => simp [TenantRecord.mark]

theorem LeavesTenants.untouched (h : LeavesTenants s db) :
    Untouched τ false s.world.db.toDatabase db.toDatabase where
  rows := by
    intro k
    by_cases hk : ∃ id, k = .tenant id
    · obtain ⟨id, rfl⟩ := hk
      rw [owned_tenant, owned_tenant]
    · unfold Database.owned
      rw [h.records k fun id hid => hk ⟨id, hid⟩]
  audits := by rw [h.audits]
  sessions := fun _ x => by
    have hmark : ∀ id, db.tenantMark? (.share id) = s.world.db.tenantMark? (.share id) :=
      fun id => h.mark fun _ hid => by cases hid
    simp only [h.sessions, hmark]

theorem TenantPost.keeps {db : Database} (h : TenantPost c as db) :
    ∀ a ∈ as, tenantMarks.Keeps db a := by
  rcases h with ⟨_, _, -, h⟩ | ⟨-, h⟩
  · exact h.keeps
  · exact h.keeps

theorem holdsKey_tables {k : Key} (h : HoldsKey Database (tables acc) k) :
    HoldsKey MasterDatabase acc k := by
  obtain ⟨a, ha, hkey⟩ := h
  exact ⟨.base a, mem_tables.mp ha, hkey⟩

theorem user_kept {id : Serial} (hcompat : Compatible MasterDatabase acc bs)
    (hid : HoldsKey MasterDatabase bs (.user id)) (db : MasterDatabase) :
    (Tx.view db acc).users.get? id = db.users.get? id := by
  refine view_of_holdsKey (f := fun y : MasterDatabase => y.users.get? id) hcompat hid
    (fun y a ha => ?_) db
  cases a with
  | eraseUserSession => rfl
  | base a =>
    cases a with
    | putUser r => exact Table.get?_put_of_ne _ fun hr => ha rfl (congrArg Key.user hr)
    | _ => rfl

theorem shareSession_kept {x : String} (hcompat : Compatible MasterDatabase acc bs)
    (hx : HoldsKey MasterDatabase bs (.shareSession x)) (db : MasterDatabase) :
    (Tx.view db acc).accessShareSessions.get? x = db.accessShareSessions.get? x := by
  refine view_of_holdsKey (f := fun y : MasterDatabase => y.accessShareSessions.get? x) hcompat hx
    (fun y a ha => ?_) db
  cases a with
  | eraseUserSession => rfl
  | base a =>
    cases a with
    | putShareSession r =>
      exact Table.get?_put_of_ne _ fun hr => ha rfl (congrArg Key.shareSession hr)
    | eraseShareSession hash =>
      exact Table.get?_erase_of_ne _ fun hr => ha rfl (congrArg Key.shareSession hr)
    | _ => rfl

theorem MasterTenantPost.rely (h : MasterTenantPost c acc w) {commits : List MasterCommit}
    (hcompat : Compatible MasterDatabase acc bs) :
    MasterTenantRely bs w ⟨Tx.view w.db acc, commits⟩ := by
  refine ⟨?_, fun id hid => user_kept hcompat (holdsKey_tables hid) w.db,
    fun x hx => shareSession_kept hcompat (holdsKey_tables hx) w.db⟩
  rcases h with ⟨as, rfl, hpost⟩ | ⟨-, herase⟩
  · have hbase : Compatible Database as (tables bs) := by
      intro a ha b hb
      exact hcompat _ (List.mem_map_of_mem ha) _ (mem_tables.mp hb)
    change tenantMarks.Rely (tables bs) w.db.toDatabase (Tx.view w.db _).toDatabase
    rw [view_base]
    exact Marking.rely_view hbase hpost.keeps
  · obtain ⟨t, ht⟩ := view_erase herase w.db
    change tenantMarks.Rely (tables bs) w.db.toDatabase (Tx.view w.db _).toDatabase
    rw [ht]
    exact ⟨fun _ _ hm => hm, fun _ _ => rfl⟩

/-- The writes of a registration, committed beside the calls of the master by a program that
waits for their locks. -/
theorem leavesTenants_of_agent (hkeeps : ∀ a ∈ as, tenantMarks.Keeps s.world.db.toDatabase a)
    (hon : ∀ a ∈ as, a.OnTenants ∨ a.OnHosts)
    (hfree : ∀ i c, s.Live i c → Compatible MasterDatabase (as.map .base) c.acc) :
    LeavesTenants s (Tx.view s.world.db (as.map .base)) := by
  have hlogs : (Tx.view s.world.db.toDatabase as).accessShareSessions =
      s.world.db.accessShareSessions ∧
      (Tx.view s.world.db.toDatabase as).auditLogs = s.world.db.auditLogs := by
    refine Tx.view_induction (I := fun x : Database => x.accessShareSessions =
      s.world.db.accessShareSessions ∧ x.auditLogs = s.world.db.auditLogs) ?_ hon ⟨rfl, rfl⟩
    intro x a ha hx
    cases a with
    | putTenant | lockTenantCode | putHost | lockHostUID | putHostLabel | eraseHostLabel
    | putAgentInstance | lockAgentID | putHostStatus | readHostStatus => exact hx
    | _ => exact ha.elim False.elim False.elim
  refine ⟨fun id m hm => ?_, fun i c id hc hid => ?_, fun k hk => ?_, ?_, ?_⟩
  · rw [view_base]
    exact Marking.stays_view hkeeps hm
  · have hcompat : Compatible Database as (tables c.acc) := fun a ha b hb =>
      hfree i c hc _ (List.mem_map_of_mem ha) _ (mem_tables.mp hb)
    rw [view_base]
    exact (Marking.rely_view hcompat hkeeps).held _ hid
  · rw [view_base]
    rcases tenantMarks.row?_view as k with hview | ⟨a, ha, r, rfl, hputs, -⟩
    · exact hview _
    · rcases hon a ha with hon | hon
      · cases a with
        | putTenant t => exact absurd rfl (hk t.id)
        | lockTenantCode => cases hputs
        | _ => exact hon.elim
      · cases hon.plain.1.symm.trans hputs
  · rw [view_base]
    exact hlogs.1
  · rw [view_base]
    exact hlogs.2

theorem tenant_discipline (store : Store) (sha256 : String → String) :
    Sys.Discipline (masterProgram store sha256) (Server.Within LeavesTenants) (fun _ => True)
      (fun _ => MasterTenantRely) (fun c _ _ acc w => MasterTenantPost c acc w) where
  rely_refl := fun _ _ _ _ => .refl
  rely_trans := fun _ _ _ _ _ h h' => ⟨h.marks.trans h'.marks,
    fun id hid => (h'.users id hid).trans (h.users id hid),
    fun x hx => (h'.sessions x hx).trans (h.sessions x hx)⟩
  start := fun s c _ _ => tenant_wp store sha256 c s.world
  commit := fun s i c r _ _ _ _ hpost =>
    ⟨trivial, fun j d _ _ hcompat => hpost.rely hcompat⟩
  env := by
    intro s db hok _
    have hleaves : LeavesTenants s db := hok
    refine ⟨trivial, fun j d hd => ⟨⟨hleaves.stays, hleaves.held hd⟩,
      fun id _ => hleaves.users id, fun x _ => ?_⟩⟩
    exact congrArg (fun t : Table AccessShareSessionRow.tokenHash => t.get? x) hleaves.sessions

/-- A commit for another tenant, or for none. -/
theorem MasterTenantPost.untouched (h : MasterTenantPost c acc w)
    (hτ : w.db.tenantMark? (.tenant τ) = some (.code code)) (hc : c.actsFor ≠ some code) :
    Untouched τ c.exchanges w.db.toDatabase (Tx.view w.db acc).toDatabase ∧
      (Tx.view w.db acc).tenantMark? (.tenant τ) = some (.code code) := by
  rcases h with ⟨as, rfl, hpost⟩ | ⟨-, herase⟩
  · rw [view_base]
    have hstays := Marking.stays_view hpost.keeps hτ
    refine ⟨?_, hstays⟩
    rcases hpost with ⟨code', τ', hfor, hacting⟩ | ⟨-, haside⟩
    · have hne : τ' ≠ τ := by
        rintro rfl
        cases hacting.tenant.symm.trans hstays
        exact hc hfor
      have hun := hacting.untouched hne
      exact ⟨hun.rows, hun.audits, fun _ => hun.sessions rfl⟩
    · exact haside.untouched
  · obtain ⟨t, ht⟩ := view_erase herase w.db
    rw [ht]
    exact ⟨⟨fun _ => rfl, rfl, fun _ _ => rfl⟩, hτ⟩

abbrev TenantSound (s : MasterSys) : Prop :=
  Sys.Sound (fun _ => True) (fun _ => MasterTenantRely)
    (fun c _ _ acc w => MasterTenantPost c acc w) s

/-- The commits since then include an exchange of a share token. -/
def exchangedSince (n : ℕ) (commits : List MasterCommit) : Bool :=
  (commits.drop n).any fun k => k.call.exchanges

structure IsolatedSince (τ : Serial) (code : String) (s t : MasterSys) : Prop where
  grows : s.world.commits.length ≤ t.world.commits.length
  mark : t.world.db.tenantMark? (.tenant τ) = some (.code code)
  untouched : Untouched τ (exchangedSince s.world.commits.length t.world.commits)
    s.world.db.toDatabase t.world.db.toDatabase

theorem IsolatedSince.commit (h : IsolatedSince τ code s t) {db : MasterDatabase}
    {k : MasterCommit} (hun : Untouched τ k.call.exchanges t.world.db.toDatabase db.toDatabase)
    (hmark : db.tenantMark? (.tenant τ) = some (.code code)) (clients : List (Option _)) :
    IsolatedSince τ code s ⟨⟨db, t.world.commits ++ [k]⟩, clients⟩ := by
  refine ⟨h.grows.trans (by simp), hmark, ?_⟩
  have hboth := h.untouched.trans hun
  unfold exchangedSince at hboth ⊢
  rw [List.drop_append_of_le_length h.grows, List.any_append]
  simpa using hboth

theorem isolated_of_run (h : Sys.Run (masterProgram store sha256) (Server.Within LeavesTenants) s t)
    (hs : TenantSound s) (hτ : s.world.db.tenantMark? (.tenant τ) = some (.code code))
    (hquiet : ∀ k ∈ t.world.commits.drop s.world.commits.length, k.call.actsFor ≠ some code) :
    IsolatedSince τ code s t := by
  induction h with
  | refl =>
    exact ⟨le_refl _, hτ, by simpa [exchangedSince] using Untouched.refl⟩
  | step e hrun hok he ih =>
    rename_i t u
    have hsound := hrun.sound (tenant_discipline store sha256) hs
    cases Sys.effect_of_step he with
    | start call => exact ⟨(ih hquiet).grows, (ih hquiet).mark, (ih hquiet).untouched⟩
    | stmt i c exec next b as hc hp hx hfree =>
      exact ⟨(ih hquiet).grows, (ih hquiet).mark, (ih hquiet).untouched⟩
    | finish i e => exact ⟨(ih hquiet).grows, (ih hquiet).mark, (ih hquiet).untouched⟩
    | env db =>
      have hprev := ih hquiet
      have hleaves : LeavesTenants t db := hok
      refine ⟨hprev.grows, hleaves.codes _ _ hprev.mark, ?_⟩
      simpa using hprev.untouched.trans hleaves.untouched
    | commit i c r hc hp =>
      have hprev := ih fun k hk => hquiet k (by
        rw [List.drop_append]
        exact List.mem_append_left _ hk)
      have hfor : c.call.actsFor ≠ some code := by
        refine hquiet ⟨c.began, c.call, r⟩ ?_
        rw [List.drop_append_of_le_length hprev.grows]
        exact List.mem_append_right _ (List.mem_singleton_self _)
      have hpost : MasterTenantPost c.call c.acc t.world :=
        hsound.commit_post (tenant_discipline store sha256) hc hp
      obtain ⟨hun, hmark⟩ := hpost.untouched hprev.mark hfor
      exact hprev.commit hun hmark _

end Runs

namespace MasterServer

section Main
variable {svc : MasterService} {db₀ : MasterDatabase} {s t : Master}

/-- Somebody has changed what is the tenant's: a user of the tenant, or whoever has shown the
token of the setup. -/
def ChangedBy (svc : MasterService) (code : String) (t : Master) (k : MasterCommit) : Prop :=
  k.call.actsFor = some code ∧ ∃ r ∈ t.requests, ∃ before after n,
    r.trail = before ++ ⟨k.call, .ok k.result, k.began, n⟩ :: after ∧
    ((∃ user, SignedIn svc r.input before user ∧ user.tenantCode = code ∧ ActsAs user k.call) ∨
      SetupTokenShown svc r.input)

theorem Allowed.changedBy {req : Request} {tr : MasterTrail} {c : MasterCall} {code : String}
    (h : Allowed svc req tr c) (hc : c.actsFor = some code) :
    (∃ user, SignedIn svc req tr user ∧ user.tenantCode = code ∧ ActsAs user c) ∨
      SetupTokenShown svc req := by
  by_cases hconsole : changesConsole c = true
  · obtain ⟨-, user, hu, hacts⟩ := h.actsAs hconsole
    refine .inl ⟨user, hu, ?_, hacts⟩
    cases c with
    | control c =>
      cases c with
      | createMaintenance | createShare | revokeShare =>
        obtain ⟨rfl, -⟩ := hacts
        exact Option.some.inj hc
      | ackAlert =>
        cases hacts
        exact Option.some.inj hc
      | updateUser =>
        exact hacts.1.symm.trans (Option.some.inj hc)
      | createSession | setTenantStatus => cases hconsole
    | _ => cases hconsole
  · cases c with
    | bootstrapAdmin => exact .inr h
    | control c =>
      cases c with
      | createSession | setTenantStatus => cases hc
      | _ => exact absurd rfl hconsole
    | _ => cases hc

/-- Isolation: between any two moments of any run, everything that a tenant owns is the same,
unless one of the commits in between was made for the tenant, by a request that one of its
users had signed in to or that had shown the token of the setup. -/
theorem tenant_isolated (h : MasterRun svc LeavesTenants db₀ s)
    (h' : Server.Run (masterProgram svc.hostStore svc.sha256) (serve svc) LeavesTenants s t)
    {row : TenantRow} (hrow : s.sys.world.db.tenants.get? row.id = some row) :
    Untouched row.id (exchangedSince s.sys.world.commits.length t.sys.world.commits)
        s.sys.world.db.toDatabase t.sys.world.db.toDatabase ∨
      ∃ k ∈ t.sys.world.commits.drop s.sys.world.commits.length,
        ChangedBy svc row.tenantCode t k := by
  by_cases hquiet : ∀ k ∈ t.sys.world.commits.drop s.sys.world.commits.length,
      k.call.actsFor ≠ some row.tenantCode
  · have hsound : TenantSound s.sys :=
      h.sys.sound (tenant_discipline svc.hostStore svc.sha256) (Sys.sound_of_idle trivial)
    have hmark : s.sys.world.db.tenantMark? (.tenant row.id) = some (.code row.tenantCode) := by
      change ((s.sys.world.db.tenants.get? row.id).map _).map _ = _
      rw [hrow]
      rfl
    exact .inl (isolated_of_run h'.sys hsound hmark hquiet).untouched
  · push Not at hquiet
    obtain ⟨k, hk, hfor⟩ := hquiet
    obtain ⟨n, hn⟩ := List.mem_iff_getElem?.mp (List.mem_of_mem_drop hk)
    have hrun : MasterRun svc LeavesTenants db₀ t := h.trans h'
    obtain ⟨r, hr, before, after, htrail, hallowed⟩ := hrun.tracked.guarded (serve_keeps svc) hn
    exact .inr ⟨k, hk, hfor, r, hr, before, after, n + 1, htrail, hallowed.changedBy hfor⟩

def otherTenantRow : TenantRow := ⟨2, "dev", "dev", 1, 0, 0⟩

def twoTenants : MasterDatabase where
  tenants := sampleAccounts.tenants.put otherTenantRow
  users := sampleAccounts.users.put { sampleUser with id := 2, tenantID := 2 }
  userPasswords := sampleAccounts.userPasswords.put ⟨2, 2, "alice", "password"⟩
  alertEvents := sampleAccounts.alertEvents.put { id := 8, tenantID := 2, fingerprint := "f" }

def registerRequest : Request where
  method := "POST"
  path := ["master", "api", "v1", "agents", "register"]
  body := "register"
  draws := { agent := ⟨3, 1, 1, "", "", 0⟩ }

/-- An agent of a third tenant, which is new, registers while the alert is acknowledged. -/
def registerEvents : List (ServerEvent MasterDatabase Request) :=
  sampleEvents.take (sampleEvents.length - 6) ++ [.receive registerRequest] ++ advances 6 9 ++
  advances 5 6 ++ advances 6 6

/-- The alert of the first tenant is acknowledged and the third tenant is there, with no commit
made for the second and no call under way. -/
def acknowledged (t : Master) : Bool :=
  (t.sys.world.db.alertEvents.get? 7).any (fun e => e.ackedAt.isSome) &&
    (t.sys.world.db.tenants.get? 3).any (fun x => x.tenantCode = "acme") &&
    (t.sys.world.db.tenants.get? 4).isNone && t.sys.clients.all Option.isNone &&
    t.sys.world.commits.all fun k => k.call.actsFor ≠ some "dev"

/-- Afterwards the ingest side adds a tenant as well. -/
def ingestTenant : TenantRow := ⟨4, "edge", "edge", 1, 0, 0⟩

theorem leavesTenants_ingest {t : Master} (h : acknowledged t = true) :
    LeavesTenants t.sys (Tx.view t.sys.world.db ([.putTenant ingestTenant].map .base)) := by
  simp only [acknowledged, Bool.and_eq_true, List.all_eq_true, Option.isNone_iff_eq_none] at h
  obtain ⟨⟨⟨-, hfresh⟩, hidle⟩, -⟩ := h
  refine leavesTenants_of_agent (fun a ha => ?_) (fun a ha => ?_) fun i c hc => ?_
  · cases List.mem_singleton.mp ha
    exact keeps_insert (t := t.sys.world.db.tenants) (f := .tenant) rfl rfl hfresh
  · cases List.mem_singleton.mp ha
    exact .inl trivial
  · cases hidle _ (List.mem_of_getElem? hc)

theorem acknowledgement_isolated : ∃ t : Master,
    MasterRun sampleMaster LeavesTenants twoTenants t ∧
      (t.sys.world.db.alertEvents.get? 7).any (fun e => e.ackedAt.isSome) = true ∧
      t.sys.world.db.tenants.get? 4 = some ingestTenant ∧
      Untouched 2 (exchangedSince 0 t.sys.world.commits) twoTenants.toDatabase
        t.sys.world.db.toDatabase := by
  have hend : ((Server.idle twoTenants : Master).steps
      (masterProgram sampleMaster.hostStore sampleMaster.sha256) (serve sampleMaster)
      registerEvents).any acknowledged = true := by decide +kernel
  obtain ⟨t, ht, hack⟩ := (Option.any_eq_true _ _).mp hend
  have hrun : MasterRun sampleMaster LeavesTenants twoTenants t :=
    Server.run_of_steps (by decide) ht
  have hleaves := leavesTenants_ingest hack
  have hadded := hrun.step (.env _) (fun _ h => by cases h; exact hleaves) rfl
  have hrow : twoTenants.tenants.get? otherTenantRow.id = some otherTenantRow := by decide
  simp only [acknowledged, Bool.and_eq_true, List.all_eq_true] at hack
  refine ⟨_, hadded, hack.1.1.1.1, Table.get?_put_self _ _, ?_⟩
  rcases tenant_isolated (s := Server.idle twoTenants) .refl hadded hrow with
    hun | ⟨k, hk, hfor, -⟩
  · exact hun
  · exact absurd hfor (of_decide_eq_true (hack.2 k (List.mem_of_mem_drop hk)))

end Main

end MasterServer

end Gaoming
