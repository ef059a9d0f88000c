import Gaoming.HostStoreSpec

/-!
# What a whole call of the host store does

Each call taken apart once: the tenant it ensures, the host it writes, and the
host whose other rows it touches. The constraints of the schema that later
results rest on (`Consistent`) are kept by every call.
-/

namespace Gaoming
open Relational Transaction

namespace Store
variable {s : Store} {d : Draws} {now : Time} {db db' : Database}

/-- The host UID that `RegisterAgent` works with. -/
def registerHostUID (d : Draws) (req : RegisterAgentRequest) : String :=
  orElse req.host.hostUID (idsNew "host" d.hostSuffix)

theorem registerHostUID_ne (d : Draws) (req : RegisterAgentRequest) :
    registerHostUID d req ≠ "" := by
  unfold registerHostUID orElse
  split_ifs with h
  · exact idsNew_ne_empty
  · exact h

theorem registerAgent_ok {req : RegisterAgentRequest} {out : HostSnapshot × AgentConfig × String}
    (h : (s.registerAgent d req now).run db = .ok (out, db')) :
    ∃ t hostID db₁,
      EnsuredTenant d (s.registerTenantCode d db (registerHostUID d req) req.host.tenantCode)
        (s.registerTenantCode d db (registerHostUID d req) req.host.tenantCode) db t ∧
      (s.upsertHost d t.id (registerHostUID d req) req now).run
        { db with tenants := db.tenants.put t } = .ok (hostID, db₁) ∧
      SameOutside hostID db₁ db' ∧
      (∃ r : HostStatusRow, db'.hostStatusCurrent.get? hostID = some r ∧
        r.SeenAt now (db.hostStatusCurrent.get? hostID)) ∧
      ∃ g ∈ db'.hosts.rows, g.hostUID = registerHostUID d req := by
  obtain ⟨⟨tid, code⟩, db₀, hres, h⟩ := Tx.run_bind_eq_ok.mp h
  obtain ⟨t, ht, htid, rfl⟩ := resolveTenantForRegister_ok hres
  obtain ⟨hostID, db₁, hhost, h⟩ := Tx.run_bind_eq_ok.mp h
  obtain ⟨_, db₂, hlabels, h⟩ := Tx.run_bind_eq_ok.mp h
  obtain ⟨cfg, db₃, hagent, h⟩ := Tx.run_bind_eq_ok.mp h
  obtain ⟨_, db₄, hstatus, h⟩ := Tx.run_bind_eq_ok.mp h
  obtain ⟨snapshot, db₅, hread, h⟩ := Tx.run_bind_eq_ok.mp h
  simp only [Tx.run_pure, Except.ok.injEq, Prod.mk.injEq] at h
  obtain ⟨-, rfl⟩ := h
  obtain ⟨rfl, g, hg, hz, -⟩ := readBack_ok hread
  have huid := registerHostUID_ne d req
  rw [show tid = t.id from htid] at hhost
  refine ⟨t, hostID, db₁, ht, hhost, ?_, ?_, g, hg, ((zeroOrEq_iff huid).mp hz).symm⟩
  · exact ((SameOutside.of_run_beside (uses_replaceLabels _) hlabels).trans
      (.of_run_beside (uses_upsertAgentInstance _) hagent)).trans
      (.of_run_onStatus s.uses_upsertRegisteredStatus hstatus)
  · obtain ⟨r, hrid, -, hseen, -, rfl⟩ := upsertRegisteredStatus_ok hstatus
    obtain ⟨row, -, -, -, -, hdb₁, -⟩ := upsertHost_ok huid hhost
    refine ⟨r, hrid ▸ Table.get?_put_self _ r, ?_⟩
    rw [hostStatus_of_run_beside (uses_upsertAgentInstance _) hagent,
      hostStatus_of_run_beside (uses_replaceLabels _) hlabels, hdb₁] at hseen
    exact hseen

theorem bootstrapHostForMetric_ok {req : PushMetricBatchRequest} {hostID : Serial}
    (h : (s.bootstrapHostForMetric d req now).run db = .ok (hostID, db')) :
    (bootstrapRequest req).host.hostUID ≠ "" ∧
    (∃ t req' db₁,
      s.metricTenantCode db (bootstrapRequest req).host.hostUID
        (bootstrapRequest req).host.tenantCode ≠ "" ∧
      db.tenantByCode (s.metricTenantCode db (bootstrapRequest req).host.hostUID
        (bootstrapRequest req).host.tenantCode) = some t ∧
      (s.upsertHost d t.id (bootstrapRequest req).host.hostUID req' now).run db =
        .ok (hostID, db₁) ∧
      SameOutside hostID db₁ db') ∧
    ∃ r, db'.hostStatusCurrent.get? hostID = some r ∧
      r.version = nextVersion (db.hostStatusCurrent.get? hostID) ∧
      r.SeenAt now (db.hostStatusCurrent.get? hostID) := by
  unfold bootstrapHostForMetric at h
  dsimp only at h
  split_ifs at h with hempty
  · simp at h
  · obtain ⟨⟨tid, code⟩, db₀, hres, hrest⟩ := Tx.run_bind_eq_ok.mp h
    obtain ⟨rfl, hcode, t, ht, htid⟩ := resolveTenantForMetric_ok hres
    clear h
    obtain ⟨hid, db₁, hhost, h⟩ := Tx.run_bind_eq_ok.mp hrest
    obtain ⟨_, db₂, hlabels, h⟩ := Tx.run_bind_eq_ok.mp h
    obtain ⟨cfg, db₃, hagent, h⟩ := Tx.run_bind_eq_ok.mp h
    obtain ⟨_, db₄, hstatus, h⟩ := Tx.run_bind_eq_ok.mp h
    simp only [Tx.run_pure, Except.ok.injEq, Prod.mk.injEq] at h
    obtain ⟨rfl, rfl⟩ := h
    have huid : (bootstrapRequest req).host.hostUID ≠ "" := fun h0 => hempty (.inl h0)
    rw [htid] at hhost
    refine ⟨huid, ⟨t, _, db₁, hcode, ht, hhost, ?_⟩, ?_⟩
    · exact ((SameOutside.of_run_beside (uses_replaceLabels _) hlabels).trans
        (.of_run_beside (uses_upsertAgentInstance _) hagent)).trans
        (.of_run_onStatus s.uses_upsertRegisteredStatus hstatus)
    · obtain ⟨r, hrid, hver, hseen, -, rfl⟩ := upsertRegisteredStatus_ok hstatus
      obtain ⟨row, _, _, _, _, hdb₁, _⟩ := upsertHost_ok huid hhost
      rw [hostStatus_of_run_beside (uses_upsertAgentInstance _) hagent,
        hostStatus_of_run_beside (uses_replaceLabels _) hlabels, hdb₁] at hver hseen
      exact ⟨r, hrid ▸ Table.get?_put_self _ r, hver, hseen⟩

/-- The host that a metric batch is recorded for: a known one, or one bootstrapped. -/
theorem hostForMetric_ok {req : PushMetricBatchRequest} {hostID : Serial}
    (h : (s.hostForMetric d req now).run db = .ok (hostID, db')) :
    (∃ g, s.KnownAgent db req.hostUID req.agentID g ∧ g.id = hostID ∧
      (s.agentFound db req.hostUID req.agentID).map Prod.fst = some hostID ∧ db' = db) ∨
      s.agentFound db req.hostUID req.agentID = none ∧
        (s.bootstrapHostForMetric d req now).run db = .ok (hostID, db') := by
  replace h := (lookupAgentInstance_bind_ok h).2
  cases hf : s.agentFound db req.hostUID req.agentID with
  | none =>
    rw [hf] at h
    exact .inr ⟨rfl, h⟩
  | some f =>
    rw [hf] at h
    simp only [Tx.run_pure, Except.ok.injEq, Prod.mk.injEq] at h
    obtain ⟨g, hg, hid⟩ := knownAgent_of_agentFound hf
    exact .inl ⟨g, hg, hid.symm.trans h.1, congrArg some h.1, h.2.symm⟩

theorem reportMetrics_ok {req : PushMetricBatchRequest} {digest : AgentDigest}
    {snapshot : HostSnapshot}
    (h : (s.reportMetrics d req digest now).run db = .ok (snapshot, db')) :
    ∃ hostID db₁, (s.hostForMetric d req now).run db = .ok (hostID, db₁) ∧
      SameOutside hostID db₁ db' ∧
      (∃ r : HostStatusRow, db'.hostStatusCurrent.get? hostID = some r ∧
        r.version = ((db₁.hostStatusCurrent.get? hostID).getD (.initial hostID)).version + 1 ∧
        digest.toSummaryMetrics.stored s.columns = some r.toSummaryMetrics ∧
        r.lastMetricAt = some (timestamptz now) ∧
        r.SeenAt now (db₁.hostStatusCurrent.get? hostID) ∧
        (db'.hosts.get? hostID).isSome = true) ∧
      ∃ g ∈ db'.hosts.rows, zeroOrEq req.hostUID g.hostUID = true ∧
        snapshot = db'.snapshotOf g := by
  obtain ⟨hostID, db₁, hhost, h⟩ := Tx.run_bind_eq_ok.mp h
  obtain ⟨_, db₂, hagent, h⟩ := Tx.run_bind_eq_ok.mp h
  obtain ⟨_, db₃, hstatus, h⟩ := Tx.run_bind_eq_ok.mp h
  obtain ⟨rfl, hread⟩ := readBack_ok h
  refine ⟨hostID, db₁, hhost, ?_, ?_, hread⟩
  · exact (SameOutside.of_run_beside (uses_updateAgentInstanceState _ _) hagent).trans
      (.of_run_onStatus (s.uses_upsertDigestStatus _) hstatus)
  · obtain ⟨r, hrid, hver, hm, hmetric, hseen, hthere, rfl⟩ := upsertDigestStatus_ok hstatus
    rw [hostStatus_of_run_beside (uses_updateAgentInstanceState _ _) hagent] at hver hseen
    exact ⟨r, hrid ▸ Table.get?_put_self _ r, hver, hm, hmetric, hseen, hthere⟩

theorem heartbeat_ok {req : HeartbeatRequest} {out : HostSnapshot × AgentConfig}
    (h : (s.heartbeat d req now).run db = .ok (out, db')) :
    ∃ hostID cfg, s.agentFound db req.hostUID req.agentID = some (hostID, cfg) ∧
      SameOutside hostID db db' ∧ (db'.hosts.get? hostID).isSome = true ∧
      ∃ r : HostStatusRow, db'.hostStatusCurrent.get? hostID = some r ∧
        r.SeenAt now (db.hostStatusCurrent.get? hostID) := by
  replace h := (lookupAgentInstance_bind_ok h).2
  cases hf : s.agentFound db req.hostUID req.agentID with
  | none => simp [hf] at h
  | some f =>
    obtain ⟨hostID, cfg⟩ := f
    rw [hf] at h
    obtain ⟨_, db₁, hagent, h⟩ := Tx.run_bind_eq_ok.mp h
    obtain ⟨_, db₂, hstatus, h⟩ := Tx.run_bind_eq_ok.mp h
    obtain ⟨snapshot, db₃, hread, h⟩ := Tx.run_bind_eq_ok.mp h
    simp only [Tx.run_pure, Except.ok.injEq, Prod.mk.injEq] at h
    obtain ⟨-, rfl⟩ := h
    obtain ⟨rfl, -⟩ := readBack_ok hread
    refine ⟨hostID, cfg, rfl,
      (SameOutside.of_run_beside (uses_updateAgentInstanceState _ _) hagent).trans
        (.of_run_onStatus (s.uses_upsertDigestStatus _) hstatus), ?_⟩
    obtain ⟨r, hrid, -, -, -, hseen, hthere, rfl⟩ := upsertDigestStatus_ok hstatus
    rw [hostStatus_of_run_beside (uses_updateAgentInstanceState _ _) hagent] at hseen
    exact ⟨hthere, r, hrid ▸ Table.get?_put_self _ r, hseen⟩

end Store

section Reconcile
variable {now : Time} {db db' : Database}

/-- The write of a row that counts on from `r`. -/
def Access.Succeeds (r : HostStatusRow) (a : Access) : Prop :=
  ∃ row, a = .putHostStatus row ∧ row.hostID = r.hostID ∧ row.version = r.version + 1

theorem Access.Succeeds.onStatus {r : HostStatusRow} {a : Access} (h : a.Succeeds r) :
    a.OnStatus r.hostID := by
  obtain ⟨row, rfl, hid, -⟩ := h
  exact hid

theorem uses_markOffline (r : HostStatusRow) :
    (markOffline r.hostID (r.version + 1) now).Uses (Access.Succeeds r) := by
  refine Tx.uses_exec fun db u as h => ?_
  cases hf : db.hostStatusCurrent.get? r.hostID with
  | none =>
    simp only [hf, Except.ok.injEq, Prod.mk.injEq] at h
    simp [← h.2]
  | some row =>
    simp only [hf, Except.ok.injEq, Prod.mk.injEq] at h
    have hid : row.hostID = r.hostID := Table.key_of_get? hf
    rw [← h.2]
    intro a ha
    rw [List.mem_singleton] at ha
    exact ⟨_, ha, hid, rfl⟩

theorem uses_getHostByUID {q : Access → Prop} (hostUID tenantCode : String) :
    (getHostByUID hostUID tenantCode).Uses q := by
  refine Tx.uses_bind ?_ fun _ => Tx.uses_pure _
  exact Tx.uses_bind (Tx.uses_query _) fun _ => Tx.uses_bind (Tx.uses_query _) fun _ =>
    Tx.uses_bind (Tx.uses_query _) fun _ => Tx.uses_bind (Tx.uses_query _) fun _ => Tx.uses_pure _

theorem uses_readBack {q : Access → Prop} (hostUID : String) : (readBack hostUID).Uses q := by
  refine Tx.uses_bind (uses_getHostByUID _ _) fun item => ?_
  cases item with
  | none => exact Tx.uses_throw _
  | some item => exact Tx.uses_pure _

theorem uses_lookupTenantCodeByHostUID {q : Access → Prop} (hostUID : String) :
    (lookupTenantCodeByHostUID hostUID).Uses q := by
  refine uses_queryText_bind fun db => ?_
  split
  · exact Tx.uses_pure _
  · exact Tx.uses_bind (Tx.uses_query _) fun _ => Tx.uses_pure _

theorem uses_ensureTenant {q : Access → Prop} {d : Draws} {code name : String}
    (hlock : ∀ code, q (.lockTenantCode code)) (hput : ∀ r, q (.putTenant r)) :
    (ensureTenant d code name).Uses q := by
  refine uses_queryText_bind fun db => ?_
  split
  · refine Tx.uses_bind (uses_insertRow fun r _ a ha => ?_) fun _ => Tx.uses_pure _
    simp only [List.mem_cons, List.not_mem_nil, or_false] at ha
    rcases ha with rfl | rfl
    · exact hlock _
    · exact hput _
  · refine Tx.uses_bind (Tx.uses_exec_one fun db x as hx => ?_) fun _ => Tx.uses_pure _
    split at hx
    · cases hx
      exact .inl rfl
    · split_ifs at hx
      · split at hx
        · cases hx
        · cases hx
          exact .inr ⟨_, rfl, hput _⟩
      · cases hx
        exact .inl rfl

theorem uses_markEachOffline (hosts : Table HostRow.id) (rows : List HostStatusRow) :
    (markEachOffline hosts now rows).Uses fun a => ∃ r ∈ rows, a.Succeeds r := by
  induction rows with
  | nil => exact Tx.uses_pure _
  | cons r rows ih =>
    refine Tx.uses_bind ((uses_markOffline r).mono fun a ha => ⟨r, by simp, ha⟩) fun _ => ?_
    refine Tx.uses_bind (uses_getHostByUID _ _) fun _ => ?_
    refine Tx.uses_bind (ih.mono ?_) fun _ => Tx.uses_pure _
    rintro a ⟨x, hx, ha⟩
    exact ⟨x, by simp [hx], ha⟩

theorem uses_reconcileOffline : (reconcileOffline now).Uses fun a => ∃ h, a.OnStatus h := by
  refine Tx.uses_exec_bind fun db rows as h => ?_
  simp only [Except.ok.injEq, Prod.mk.injEq] at h
  refine ⟨?_, Tx.uses_bind (Tx.uses_query _) fun hosts => ?_⟩
  · rw [← h.2]
    intro a ha
    obtain ⟨r, -, rfl⟩ := List.mem_map.mp ha
    exact ⟨r.hostID, rfl⟩
  · split_ifs
    · exact Tx.uses_pure _
    · refine (uses_markEachOffline hosts rows).mono ?_
      rintro a ⟨r, -, ha⟩
      exact ⟨r.hostID, ha.onStatus⟩

theorem reconcileOffline_ok {out : List HostSnapshot}
    (h : (reconcileOffline now).run db = .ok (out, db')) :
    db'.tenants = db.tenants ∧ db'.hosts = db.hosts := by
  refine uses_reconcileOffline.run_induction
    (I := fun x => x.tenants = db.tenants ∧ x.hosts = db.hosts) ?_ h ⟨rfl, rfl⟩
  rintro x a ⟨k, hk⟩ hx
  have hsame : SameOutside k x (x.apply a) := .of_onStatus hk
  exact ⟨hsame.tenants.trans hx.1, hsame.hosts.trans hx.2⟩

end Reconcile

/-- What a call can do to the tenants and the hosts. -/
inductive CallEffect (s : Store) (db : Database) : StoreCall → Database → Prop
  | none (c : StoreCall) {db' : Database} (htenants : db'.tenants = db.tenants)
      (hhosts : db'.hosts = db.hosts) : CallEffect s db c db'
  | allocated (d : Draws) (t : TenantRow) {db' : Database}
      (ht : EnsuredTenant d (idsNew "tenant" d.tenantSuffix) (idsNew "tenant" d.tenantSuffix) db t)
      (hdb : db' = { db with tenants := db.tenants.put t }) :
      CallEffect s db (.allocateTenant d) db'
  | registered (d : Draws) (req : RegisterAgentRequest) (now : Time) (t : TenantRow)
      (hostID : Serial) {db₁ db' : Database}
      (ht : EnsuredTenant d
        (s.registerTenantCode d db (Store.registerHostUID d req) req.host.tenantCode)
        (s.registerTenantCode d db (Store.registerHostUID d req) req.host.tenantCode) db t)
      (hhost : (s.upsertHost d t.id (Store.registerHostUID d req) req now).run
        { db with tenants := db.tenants.put t } = .ok (hostID, db₁))
      (hrest : SameOutside hostID db₁ db') : CallEffect s db (.registerAgent d req now) db'
  | bootstrapped (d : Draws) (req : PushMetricBatchRequest) (digest : AgentDigest) (now : Time)
      (t : TenantRow) (req' : RegisterAgentRequest) (hostID : Serial) {db₁ db' : Database}
      (hnew : s.agentFound db req.hostUID req.agentID = Option.none)
      (huid : (Store.bootstrapRequest req).host.hostUID ≠ "")
      (hcode : s.metricTenantCode db (Store.bootstrapRequest req).host.hostUID
        (Store.bootstrapRequest req).host.tenantCode ≠ "")
      (ht : db.tenantByCode (s.metricTenantCode db (Store.bootstrapRequest req).host.hostUID
        (Store.bootstrapRequest req).host.tenantCode) = some t)
      (hhost : (s.upsertHost d t.id (Store.bootstrapRequest req).host.hostUID req' now).run db =
        .ok (hostID, db₁))
      (hrest : SameOutside hostID db₁ db') : CallEffect s db (.reportMetrics d req digest now) db'

theorem Store.callEffect (s : Store) (c : StoreCall) (db : Database) :
    CallEffect s db c (s.call c db).2 := by
  unfold call
  cases hrun : (s.program c).run db with
  | error e =>
    rw [Tx.transact_of_error hrun]
    exact .none c rfl rfl
  | ok out =>
    obtain ⟨reply, db'⟩ := out
    rw [Tx.transact_of_ok hrun]
    cases c with
    | allocateTenant d =>
      obtain ⟨code, db₁, halloc, h⟩ := Tx.run_bind_eq_ok.mp hrun
      obtain ⟨t, db₂, hens, hret⟩ := Tx.run_bind_eq_ok.mp halloc
      simp only [Tx.run_pure, Except.ok.injEq, Prod.mk.injEq] at h hret
      obtain ⟨r, hr, -, hdb⟩ := ensureTenant_ok hens
      exact .allocated d r hr (h.2 ▸ hret.2 ▸ hdb)
    | registerAgent d req now =>
      obtain ⟨out, db₁, hreg, h⟩ := Tx.run_bind_eq_ok.mp hrun
      simp only [Tx.run_pure, Except.ok.injEq, Prod.mk.injEq] at h
      obtain ⟨t, hostID, db₂, ht, hhost, hrest, -⟩ := registerAgent_ok hreg
      exact h.2 ▸ .registered d req now t hostID ht hhost hrest
    | heartbeat d req now =>
      obtain ⟨out, db₁, hbeat, h⟩ := Tx.run_bind_eq_ok.mp hrun
      simp only [Tx.run_pure, Except.ok.injEq, Prod.mk.injEq] at h
      obtain ⟨hostID, -, -, hsame, -⟩ := heartbeat_ok hbeat
      exact h.2 ▸ .none _ hsame.tenants hsame.hosts
    | reportMetrics d req digest now =>
      obtain ⟨out, db₁, hrep, h⟩ := Tx.run_bind_eq_ok.mp hrun
      simp only [Tx.run_pure, Except.ok.injEq, Prod.mk.injEq] at h
      obtain ⟨hostID, db₂, hhost, hsame, -⟩ := reportMetrics_ok hrep
      rw [← h.2]
      rcases hostForMetric_ok hhost with ⟨g, -, -, -, rfl⟩ | ⟨hnew, hboot⟩
      · exact .none _ hsame.tenants hsame.hosts
      · obtain ⟨huid, ⟨t, req', db₃, hcode, ht, hup, hrest⟩, -⟩ := bootstrapHostForMetric_ok hboot
        exact .bootstrapped d req digest now t req' hostID hnew huid hcode ht hup
          (hrest.trans hsame)
    | reconcileOffline now =>
      obtain ⟨out, db₁, hrec, h⟩ := Tx.run_bind_eq_ok.mp hrun
      simp only [Tx.run_pure, Except.ok.injEq, Prod.mk.injEq] at h
      obtain ⟨htenants, hhosts⟩ := reconcileOffline_ok hrec
      exact h.2 ▸ .none _ htenants hhosts

end Gaoming
