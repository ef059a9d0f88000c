import Gaoming.HostStoreCalls

/-!
# Tenants and the hosts bound to them

Runs of calls on the host store, in any order and with any arguments: what
becomes of the tenant rows that already exist, and of the tenant a host belongs
to. Both are at the mercy of `ensureTenant` and of the two ways in which a
tenant code is normalised.
-/

namespace Gaoming
open Relational Transaction

/-- The schema's constraints on tenants and hosts. -/
structure Database.Consistent (db : Database) : Prop where
  tenantCode_ne : ∀ t ∈ db.tenants.rows, t.tenantCode ≠ ""
  tenantCode_inj : ∀ t ∈ db.tenants.rows, ∀ u ∈ db.tenants.rows,
    t.tenantCode = u.tenantCode → t = u
  hostUID_inj : ∀ g ∈ db.hosts.rows, ∀ h ∈ db.hosts.rows, g.hostUID = h.hostUID → g = h
  hostTenant : ∀ h ∈ db.hosts.rows, ∃ t ∈ db.tenants.rows, t.id = h.tenantID

section Consistent
variable {db : Database}

theorem Database.Consistent.congr {db' : Database} (hc : db.Consistent)
    (htenants : db'.tenants = db.tenants) (hhosts : db'.hosts = db.hosts) : db'.Consistent where
  tenantCode_ne := by
    rw [htenants]
    exact hc.tenantCode_ne
  tenantCode_inj := by
    rw [htenants]
    exact hc.tenantCode_inj
  hostUID_inj := by
    rw [hhosts]
    exact hc.hostUID_inj
  hostTenant := by
    rw [htenants, hhosts]
    exact hc.hostTenant

theorem EnsuredTenant.code {d : Draws} {code name : String} {t : TenantRow} (hc : db.Consistent)
    (hcode : code ≠ "") (ht : EnsuredTenant d code name db t) : t.tenantCode ≠ "" ∧
      ∀ u ∈ db.tenants.rows, u.id ≠ t.id → u.tenantCode ≠ t.tenantCode := by
  cases ht with
  | created _ hnone hid hvar hfresh =>
    exact ⟨varchar_ne_empty (by decide) hvar hcode, fun u hu _ => (hfresh u hu).2⟩
  | assigned t₀ n hsome hname =>
    obtain ⟨hmem, -⟩ := Database.tenantByCode_spec hcode hsome
    refine ⟨hc.tenantCode_ne t₀ hmem, fun u hu hne heq => ?_⟩
    have hu₀ : u = t₀ := hc.tenantCode_inj u hu t₀ hmem heq
    exact hne (by rw [hu₀])

theorem Database.Consistent.put_tenant {d : Draws} {code name : String} {t : TenantRow}
    (hc : db.Consistent) (hcode : code ≠ "") (ht : EnsuredTenant d code name db t) :
    Database.Consistent { db with tenants := db.tenants.put t } := by
  obtain ⟨hne, hother⟩ := ht.code hc hcode
  refine ⟨?_, ?_, hc.hostUID_inj, ?_⟩
  · intro u hu
    rcases Table.mem_put.mp hu with rfl | ⟨hu, -⟩
    · exact hne
    · exact hc.tenantCode_ne u hu
  · exact Table.unique_put hc.tenantCode_inj hother
  · intro h hh
    obtain ⟨u, hu, hid⟩ := hc.hostTenant h hh
    by_cases hut : u.id = t.id
    · exact ⟨t, Table.mem_put.mpr (.inl rfl), hut ▸ hid⟩
    · exact ⟨u, Table.mem_put.mpr (.inr ⟨hu, hut⟩), hid⟩

theorem Database.Consistent.put_host {r : HostRow} (hc : db.Consistent)
    (hr : hostRefused db r = false) : Database.Consistent { db with hosts := db.hosts.put r } := by
  simp only [hostRefused, Bool.or_eq_false_iff, List.any_eq_false, Bool.and_eq_true,
    decide_eq_true_eq, not_and, Option.isNone_eq_false_iff, Option.isSome_iff_exists] at hr
  obtain ⟨hunique, t, ht⟩ := hr
  refine ⟨hc.tenantCode_ne, hc.tenantCode_inj, ?_, ?_⟩
  · exact Table.unique_put hc.hostUID_inj hunique
  · intro h hh
    rcases Table.mem_put.mp hh with rfl | ⟨hh, -⟩
    · exact ⟨t, Table.mem_of_get? ht, Table.key_of_get? ht⟩
    · exact hc.hostTenant h hh

theorem Store.consistent_upsertHost {s : Store} {d : Draws} {tenantID hostID : Serial}
    {hostUID : String} {req : RegisterAgentRequest} {now : Time} {db' : Database}
    (hc : db.Consistent) (huid : hostUID ≠ "")
    (h : (s.upsertHost d tenantID hostUID req now).run db = .ok (hostID, db')) :
    db'.Consistent := by
  obtain ⟨r, -, -, -, hrefused, rfl, -⟩ := upsertHost_ok huid h
  exact hc.put_host hrefused

theorem Store.consistent_call (s : Store) (c : StoreCall) (hc : db.Consistent) :
    (s.call c db).2.Consistent := by
  cases s.callEffect c db with
  | none _ htenants hhosts => exact hc.congr htenants hhosts
  | allocated d t ht hdb => exact hdb ▸ hc.put_tenant idsNew_ne_empty ht
  | registered d req now t hostID ht hhost hrest =>
    exact ((s.consistent_upsertHost (hc.put_tenant registerTenantCode_ne ht)
      (registerHostUID_ne d req) hhost).congr hrest.tenants hrest.hosts)
  | bootstrapped d req digest now t req' hostID hnew huid hcode ht hhost hrest =>
    exact (s.consistent_upsertHost hc huid hhost).congr hrest.tenants hrest.hosts

end Consistent

/-- The databases that calls lead to, each call meeting `ok` where it is made. -/
inductive Store.Reaches (s : Store) (ok : Database → StoreCall → Prop) (db : Database) :
    Database → Prop
  | refl : Reaches s ok db db
  | step {db' : Database} (c : StoreCall) (h : Reaches s ok db db') (hok : ok db' c) :
      Reaches s ok db (s.call c db').2

theorem Store.Reaches.consistent {s : Store} {ok : Database → StoreCall → Prop}
    {db db' : Database} (h : s.Reaches ok db db') (hc : db.Consistent) : db'.Consistent := by
  induction h with
  | refl => exact hc
  | step c _ _ ih => exact s.consistent_call c ih

/-- Every tenant row is still there, with its status and its name. -/
def TenantsKept (db db' : Database) : Prop :=
  ∀ t ∈ db.tenants.rows, ∃ t' ∈ db'.tenants.rows,
    t'.id = t.id ∧ t'.status = t.status ∧ t'.name = t.name

/-- The code names no tenant, or one that `ensureTenant` would leave as it is. -/
def Settled (db : Database) (code : String) : Prop :=
  ∀ t ∈ db.tenantByCode code, t.status = 1 ∧ varchar 128 code = some t.name

def Store.LeavesTenants (s : Store) (db : Database) : StoreCall → Prop
  | .allocateTenant d => Settled db (idsNew "tenant" d.tenantSuffix)
  | .registerAgent d req _ =>
    Settled db (s.registerTenantCode d db (registerHostUID d req) req.host.tenantCode)
  | _ => True

theorem TenantsKept.trans {db₁ db₂ db₃ : Database} (h : TenantsKept db₁ db₂)
    (h' : TenantsKept db₂ db₃) : TenantsKept db₁ db₃ := by
  intro t ht
  obtain ⟨u, hu, hid, hstatus, hname⟩ := h t ht
  obtain ⟨v, hv, hid', hstatus', hname'⟩ := h' u hu
  exact ⟨v, hv, hid'.trans hid, hstatus'.trans hstatus, hname'.trans hname⟩

theorem tenantsKept_of_eq {db db' : Database} (h : db'.tenants = db.tenants) :
    TenantsKept db db' := fun t ht => ⟨t, h ▸ ht, rfl, rfl, rfl⟩

theorem EnsuredTenant.tenantsKept {d : Draws} {code : String} {db : Database} {t : TenantRow}
    (ht : EnsuredTenant d code code db t) (hs : Settled db code) {db' : Database}
    (hdb : db'.tenants = db.tenants.put t) : TenantsKept db db' := by
  intro u hu
  rw [hdb]
  by_cases hut : u.id = t.id
  · refine ⟨t, Table.mem_put.mpr (.inl rfl), hut.symm, ?_⟩
    cases ht with
    | created _ hnone hid hcode hfresh => exact absurd hut (hfresh u hu).1
    | assigned t₀ n hsome hname =>
      obtain ⟨hstatus, hsettled⟩ := hs t₀ hsome
      have hu₀ : u = t₀ := db.tenants.eq_of_key_eq hu (Table.mem_of_first hsome).1 hut
      rw [hname, Option.some.injEq] at hsettled
      exact ⟨hu₀ ▸ hstatus.symm, hu₀ ▸ hsettled⟩
  · exact ⟨u, Table.mem_put.mpr (.inr ⟨hu, hut⟩), rfl, rfl, rfl⟩

theorem Store.tenantsKept_call {s : Store} {c : StoreCall} {db : Database}
    (h : s.LeavesTenants db c) : TenantsKept db (s.call c db).2 := by
  revert h
  cases s.callEffect c db with
  | none _ htenants _ => exact fun _ => tenantsKept_of_eq htenants
  | allocated d t ht hdb => exact fun h => ht.tenantsKept h (hdb ▸ rfl)
  | registered d req now t hostID ht hhost hrest =>
    intro h
    obtain ⟨r, -, -, -, -, rfl, -⟩ := upsertHost_ok (registerHostUID_ne d req) hhost
    exact ht.tenantsKept h hrest.tenants
  | bootstrapped d req digest now t req' hostID hnew huid hcode ht hhost hrest =>
    intro _
    obtain ⟨r, -, -, -, -, rfl, -⟩ := upsertHost_ok huid hhost
    exact tenantsKept_of_eq hrest.tenants

/-- As long as no registration names a tenant that is disabled or has a name other
than its code, existing tenants keep their status and their name. -/
theorem Store.Reaches.existing_tenants_kept {s : Store} {db db' : Database}
    (h : s.Reaches s.LeavesTenants db db') : TenantsKept db db' := by
  induction h with
  | refl => exact tenantsKept_of_eq rfl
  | step c _ hok ih => exact ih.trans (tenantsKept_call hok)

instance (db db' : Database) : Decidable (TenantsKept db db') :=
  inferInstanceAs (Decidable (∀ t ∈ db.tenants.rows, ∃ t' ∈ db'.tenants.rows,
    t'.id = t.id ∧ t'.status = t.status ∧ t'.name = t.name))

-- A store on a fresh database, and a host of the tenant `acme`.

/-- Columns that keep every value as it is. -/
def lenientColumns : Columns := ⟨some, fun _ _ x => some x⟩

def sampleDraws (n : Serial) : Draws := ⟨n, n, n, "1", "1", 0⟩

def sampleStore : Store := ⟨lenientColumns, 1, true⟩

def sampleStart : Database :=
  match (Store.new lenientColumns (sampleDraws 1) ⟨"", "", true⟩).run {} with
  | .ok (_, db) => db
  | .error _ => {}

def sampleRegister (n : Serial) (hostUID agentID tenantCode : String) (now : Time) : StoreCall :=
  .registerAgent (sampleDraws n) {
    host := { hostUID := hostUID, tenantCode := tenantCode, primaryIP := "10.0.0.1" }
    agent := { agentID := agentID } } now

def acmeDatabase : Database :=
  (sampleStore.call (sampleRegister 2 "h1" "a1" "acme" 1000) sampleStart).2

/-- An operator switches every tenant with this code off. -/
def Database.disableTenant (db : Database) (code : String) : Database :=
  (db.tenants.select fun t => t.tenantCode = code).foldl
    (fun db t => { db with tenants := db.tenants.put { t with status := 0 } }) db

theorem tenantsKept_acme : TenantsKept acmeDatabase
    (sampleStore.call (sampleRegister 3 "h1" "a1" "other" 2000) acmeDatabase).2 :=
  Store.Reaches.existing_tenants_kept (.step _ .refl (show Settled _ _ by unfold Settled; decide))

/-- Registering a known host again puts its disabled tenant back to status 1. -/
theorem registerAgent_revives_disabled_tenant :
    (∃ t ∈ (acmeDatabase.disableTenant "acme").tenants.rows,
      t.tenantCode = "acme" ∧ t.status = 0) ∧
    ¬ TenantsKept (acmeDatabase.disableTenant "acme")
      (sampleStore.call (sampleRegister 3 "h1" "a1" "" 2000)
        (acmeDatabase.disableTenant "acme")).2 := by
  decide

/-- Every host row is still there and belongs to the tenant it belonged to. -/
def BindingsKept (db db' : Database) : Prop :=
  ∀ h ∈ db.hosts.rows, ∃ h' ∈ db'.hosts.rows, h'.id = h.id ∧ h'.tenantID = h.tenantID

instance (db db' : Database) : Decidable (BindingsKept db db') :=
  inferInstanceAs (Decidable (∀ h ∈ db.hosts.rows, ∃ h' ∈ db'.hosts.rows,
    h'.id = h.id ∧ h'.tenantID = h.tenantID))

/-- A metric batch of an unknown agent names no host whose tenant code differs from
another tenant's only by surrounding white space. -/
def Store.LeavesBindings (s : Store) (db : Database) : StoreCall → Prop
  | .reportMetrics _ req _ _ => s.agentFound db req.hostUID req.agentID = none →
    ∀ t ∈ db.tenants.rows,
      t.tenantCode = trimSpace (db.tenantCodeOfHost (bootstrapRequest req).host.hostUID) →
      t.tenantCode = db.tenantCodeOfHost (bootstrapRequest req).host.hostUID
  | _ => True

section Bindings
variable {s : Store} {d : Draws} {db : Database}

theorem BindingsKept.trans {db₁ db₂ db₃ : Database} (h : BindingsKept db₁ db₂)
    (h' : BindingsKept db₂ db₃) : BindingsKept db₁ db₃ := by
  intro g hg
  obtain ⟨u, hu, hid, hten⟩ := h g hg
  obtain ⟨v, hv, hid', hten'⟩ := h' u hu
  exact ⟨v, hv, hid'.trans hid, hten'.trans hten⟩

theorem bindingsKept_of_eq {db' : Database} (h : db'.hosts = db.hosts) : BindingsKept db db' :=
  fun g hg => ⟨g, h ▸ hg, rfl, rfl⟩

theorem bindingsKept_put {r : HostRow} {db' : Database} (hdb : db'.hosts = db.hosts.put r)
    (hr : ∀ g ∈ db.hosts.rows, g.id = r.id → r.tenantID = g.tenantID) : BindingsKept db db' := by
  intro g hg
  rw [hdb]
  by_cases hgr : g.id = r.id
  · exact ⟨r, Table.mem_put.mpr (.inl rfl), hgr.symm, hr g hg hgr⟩
  · exact ⟨g, Table.mem_put.mpr (.inr ⟨hg, hgr⟩), rfl, rfl⟩

theorem tenantCodeOfHost_spec (hc : db.Consistent) {hostUID : String} {g : HostRow}
    (hg : db.hostByUID hostUID = some g) : ∃ t ∈ db.tenants.rows, t.id = g.tenantID ∧
      t.tenantCode = db.tenantCodeOfHost hostUID ∧ t.tenantCode ≠ "" := by
  obtain ⟨t, ht, hid⟩ := hc.hostTenant g (Table.mem_of_first hg).1
  refine ⟨t, ht, hid, ?_, hc.tenantCode_ne t ht⟩
  simp [Database.tenantCodeOfHost, hg, ← hid, Table.get?_of_mem ht]

theorem EnsuredTenant.id_of_known (hc : db.Consistent) {hostUID tenantCode : String}
    {g : HostRow} {t : TenantRow} (hg : db.hostByUID hostUID = some g)
    (ht : EnsuredTenant d (s.registerTenantCode d db hostUID tenantCode)
      (s.registerTenantCode d db hostUID tenantCode) db t) : t.id = g.tenantID := by
  obtain ⟨u, hu, hid, hcode, hne⟩ := tenantCodeOfHost_spec hc hg
  have hreg : s.registerTenantCode d db hostUID tenantCode = u.tenantCode := by
    rw [hcode] at hne
    simp [Store.registerTenantCode, Store.requestedTenantCode, orElse, hne, hcode]
  rw [hreg] at ht
  cases ht with
  | created _ hnone hrid hvar hfresh =>
    have := Table.first_eq_none_iff.mp hnone u hu
    simp [zeroOrEq] at this
  | assigned t₀ n hsome hname =>
    obtain ⟨hmem, hcode₀⟩ := Database.tenantByCode_spec hne hsome
    have hu₀ : t₀ = u := hc.tenantCode_inj t₀ hmem u hu hcode₀
    exact hu₀ ▸ hid

theorem Store.upsertHost_bindings {tenantID hostID : Serial} {hostUID : String}
    {req : RegisterAgentRequest} {now : Time} {db' : Database} (huid : hostUID ≠ "")
    (h : (s.upsertHost d tenantID hostUID req now).run db = .ok (hostID, db'))
    (hten : ∀ g, db.hostByUID hostUID = some g → tenantID = g.tenantID) : BindingsKept db db' := by
  obtain ⟨r, hid, hrten, -, -, rfl, hcase⟩ := upsertHost_ok huid h
  refine bindingsKept_put rfl fun g hg hgr => ?_
  rcases hcase with ⟨-, hnone⟩ | ⟨g', hg', hg'id⟩
  · exact absurd (hgr.trans hid) (Table.get?_eq_none_iff.mp hnone g hg)
  · have hgg : g = g' := db.hosts.eq_of_key_eq hg (Table.mem_of_first hg').1
      (hgr.trans (hid.trans hg'id.symm))
    exact hrten.trans (hgg ▸ hten g' hg')

theorem Store.bindingsKept_call {c : StoreCall} (hc : db.Consistent)
    (h : s.LeavesBindings db c) : BindingsKept db (s.call c db).2 := by
  revert h
  cases s.callEffect c db with
  | none _ _ hhosts => exact fun _ => bindingsKept_of_eq hhosts
  | allocated d t ht hdb => exact fun _ => bindingsKept_of_eq (hdb ▸ rfl)
  | registered d req now t hostID ht hhost hrest =>
    intro _
    have hkept := s.upsertHost_bindings (registerHostUID_ne d req) hhost
      fun g hg => ht.id_of_known hc hg
    exact hkept.trans (bindingsKept_of_eq hrest.hosts)
  | bootstrapped d req digest now t req' hostID hnew huid hcode ht hhost hrest =>
    intro h
    refine (s.upsertHost_bindings huid hhost fun g hg => ?_).trans (bindingsKept_of_eq hrest.hosts)
    obtain ⟨u, hu, hid, hucode, hne⟩ := tenantCodeOfHost_spec hc hg
    obtain ⟨hmem, htcode⟩ := Database.tenantByCode_spec hcode ht
    have hmetric : s.metricTenantCode db (bootstrapRequest req).host.hostUID
        (bootstrapRequest req).host.tenantCode =
        trimSpace (db.tenantCodeOfHost (bootstrapRequest req).host.hostUID) := by
      rw [hucode] at hne
      simp [metricTenantCode, requestedTenantCode, hne]
    have htu : t = u :=
      hc.tenantCode_inj t hmem u hu ((h hnew t hmem (htcode.trans hmetric)).trans hucode.symm)
    exact htu ▸ hid

/-- Hosts stay with their tenant as long as no metric batch of an unknown agent meets
two tenants whose codes differ in surrounding white space only. -/
theorem Store.Reaches.host_bindings_kept {db' : Database} (hc : db.Consistent)
    (h : s.Reaches s.LeavesBindings db db') : BindingsKept db db' := by
  induction h with
  | refl => exact bindingsKept_of_eq rfl
  | step c hr hok ih => exact ih.trans (bindingsKept_call (hr.consistent hc) hok)

end Bindings

instance (s : Store) (db : Database) (c : StoreCall) : Decidable (s.LeavesBindings db c) :=
  match c with
  | .reportMetrics _ req _ _ => inferInstanceAs (Decidable
      (s.agentFound db req.hostUID req.agentID = none → ∀ t ∈ db.tenants.rows,
        t.tenantCode = trimSpace (db.tenantCodeOfHost (Store.bootstrapRequest req).host.hostUID) →
        t.tenantCode = db.tenantCodeOfHost (Store.bootstrapRequest req).host.hostUID))
  | .allocateTenant _ | .registerAgent _ _ _ | .heartbeat _ _ _ | .reconcileOffline _ =>
    inferInstanceAs (Decidable True)

def sampleMetrics (n : Serial) (hostUID agentID : String) (now : Time) : StoreCall :=
  .reportMetrics (sampleDraws n) {
    hostUID := hostUID, agentID := agentID
    host := { hostUID := hostUID, primaryIP := "10.0.0.1" }, agent := { agentID := agentID } }
    {} now

def sampleHeartbeat (n : Serial) (agentID : String) (now : Time) : StoreCall :=
  .heartbeat (sampleDraws n) ⟨"h1", agentID, 1, now, {}⟩ now

theorem consistent_sampleStart : sampleStart.Consistent :=
  ⟨by decide, by decide, by decide, by decide⟩

theorem bindingsKept_acme : BindingsKept acmeDatabase
    (sampleStore.call (sampleMetrics 3 "h1" "a2" 2000) acmeDatabase).2 :=
  Store.Reaches.host_bindings_kept (sampleStore.consistent_call _ consistent_sampleStart)
    (.step _ .refl (by decide))

/-- The tenants `acme` and ` acme`, with a host each. -/
def spacedDatabase : Database :=
  (sampleStore.call (sampleRegister 3 "h2" "a1" " acme" 2000) acmeDatabase).2

/-- The first metric of a second agent moves the host of ` acme` over to `acme`. -/
theorem reportMetrics_rebinds_host :
    ¬ BindingsKept spacedDatabase
      (sampleStore.call (sampleMetrics 4 "h2" "a2" 3000) spacedDatabase).2 := by
  decide

end Gaoming
