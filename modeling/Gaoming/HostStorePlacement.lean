import Gaoming.HostStoreTenants

/-!
# Where new hosts are placed

A store that does not let callers choose a tenant: over any run of calls, a host
that appears was created by a registration, and so was its tenant, in the same
transaction. A metric batch adds no row to either table.
-/

namespace Gaoming
open Relational Transaction

def Store.after (s : Store) (db : Database) (calls : List StoreCall) : Database :=
  calls.foldl (fun db c => (s.call c db).2) db

theorem Store.after_concat (s : Store) (db : Database) (calls : List StoreCall) (c : StoreCall) :
    s.after db (calls ++ [c]) = (s.call c (s.after db calls)).2 := by
  simp [after]

theorem Store.consistent_after (s : Store) {db : Database} (hc : db.Consistent)
    (calls : List StoreCall) : (s.after db calls).Consistent := by
  induction calls using List.reverseRecOn with
  | nil => exact hc
  | append_singleton calls c ih =>
    rw [after_concat]
    exact s.consistent_call c ih

/-- `ids.New` returns a code that no tenant has, made of a kind, digits and hex digits. -/
def Database.NewTenantCode (db : Database) (d : Draws) : Prop :=
  db.tenantByCode (idsNew "tenant" d.tenantSuffix) = none ∧
    d.tenantSuffix.toList.all (fun c => !isSpace c) = true

def Database.DrawsFresh (db : Database) : StoreCall → Prop
  | .allocateTenant d | .registerAgent d _ _ => db.NewTenantCode d
  | .heartbeat _ _ _ | .reportMetrics _ _ _ _ | .reconcileOffline _ => True

/-- Every call of a run draws its identifiers afresh. -/
def Store.DrawsFresh (s : Store) : Database → List StoreCall → Prop
  | _, [] => True
  | db, c :: calls => db.DrawsFresh c ∧ s.DrawsFresh (s.call c db).2 calls

theorem Store.drawsFresh_concat {s : Store} {db : Database} {calls : List StoreCall}
    {c : StoreCall} (h : s.DrawsFresh db (calls ++ [c])) :
    s.DrawsFresh db calls ∧ (s.after db calls).DrawsFresh c := by
  induction calls generalizing db with
  | nil => exact ⟨trivial, h.1⟩
  | cons c₀ calls ih =>
    obtain ⟨h₀, hrest⟩ := h
    obtain ⟨hcalls, hlast⟩ := ih hrest
    exact ⟨⟨h₀, hcalls⟩, hlast⟩

theorem trimSpace_eq_self {s : String} (h : s.toList.all (fun c => !isSpace c) = true) :
    trimSpace s = s := by
  simp only [List.all_eq_true, Bool.not_eq_true'] at h
  have hr : s.toList.rdropWhile isSpace = s.toList := by
    rw [List.rdropWhile_eq_self_iff]
    intro hne
    simp [h _ (List.getLast_mem hne)]
  have hl : s.toList.dropWhile isSpace = s.toList := by
    rw [List.dropWhile_eq_self_iff]
    intro hlen
    simp [h _ (List.getElem_mem hlen)]
  rw [trimSpace, hr, hl, String.ofList_toList]

theorem Database.NewTenantCode.trimmed {db : Database} {d : Draws} (h : db.NewTenantCode d) :
    trimSpace (idsNew "tenant" d.tenantSuffix) = idsNew "tenant" d.tenantSuffix := by
  refine trimSpace_eq_self ?_
  rw [idsNew, String.toList_append, List.all_append, h.2, Bool.and_true]
  decide

def Database.TrimmedTenant (db : Database) (h : HostRow) : Prop :=
  ∃ t ∈ db.tenants.rows, t.id = h.tenantID ∧ trimSpace t.tenantCode = t.tenantCode

/-- The call between two databases brings in the host and, with it, the host's tenant. -/
structure EnrolledBy (c : StoreCall) (db db' : Database) (h : HostRow) : Prop where
  registration : ∃ d req now, c = .registerAgent d req now
  hostNew : db.hosts.get? h.id = none
  hostAdded : (db'.hosts.get? h.id).isSome = true
  tenantNew : db.tenants.get? h.tenantID = none
  tenantAdded : (db'.tenants.get? h.tenantID).isSome = true

section Step
variable {s : Store} {db : Database} {d : Draws}

theorem tenantCodeOfHost_unknown {hostUID : String} (h : db.hostByUID hostUID = none) :
    db.tenantCodeOfHost hostUID = "" := by
  simp [Database.tenantCodeOfHost, h]

theorem registerTenantCode_unknown (hs : s.allowCustomTenantCode = false)
    {hostUID tenantCode : String} (h : db.hostByUID hostUID = none) :
    s.registerTenantCode d db hostUID tenantCode = idsNew "tenant" d.tenantSuffix := by
  simp [Store.registerTenantCode, Store.requestedTenantCode, tenantCodeOfHost_unknown h, hs, orElse]

theorem known_of_metricTenantCode (hs : s.allowCustomTenantCode = false)
    {hostUID tenantCode : String} (h : s.metricTenantCode db hostUID tenantCode ≠ "") :
    ∃ g, db.hostByUID hostUID = some g ∧
      s.metricTenantCode db hostUID tenantCode = trimSpace (db.tenantCodeOfHost hostUID) := by
  cases hg : db.hostByUID hostUID with
  | none =>
    simp [Store.metricTenantCode, Store.requestedTenantCode, tenantCodeOfHost_unknown hg, hs] at h
  | some g =>
    refine ⟨g, rfl, ?_⟩
    by_cases hcode : db.tenantCodeOfHost hostUID = ""
    · simp [Store.metricTenantCode, Store.requestedTenantCode, hcode, hs]
    · simp [Store.metricTenantCode, Store.requestedTenantCode, hcode]

theorem EnsuredTenant.keeps_code {code name : String} {t u : TenantRow}
    (ht : EnsuredTenant d code name db t) (hu : u ∈ db.tenants.rows) :
    ∃ u' ∈ (db.tenants.put t).rows, u'.id = u.id ∧ u'.tenantCode = u.tenantCode := by
  by_cases hut : u.id = t.id
  · refine ⟨t, Table.mem_put.mpr (.inl rfl), hut.symm, ?_⟩
    cases ht with
    | created _ _ _ _ hfresh => exact absurd hut (hfresh u hu).1
    | assigned t₀ n hsome _ =>
      have hu₀ : u = t₀ := db.tenants.eq_of_key_eq hu (Table.mem_of_first hsome).1 hut
      rw [hu₀]
  · exact ⟨u, Table.mem_put.mpr (.inr ⟨hu, hut⟩), rfl, rfl⟩

theorem Store.call_keeps_codes (s : Store) (c : StoreCall) {u : TenantRow}
    (hu : u ∈ db.tenants.rows) :
    ∃ u' ∈ (s.call c db).2.tenants.rows, u'.id = u.id ∧ u'.tenantCode = u.tenantCode := by
  cases s.callEffect c db with
  | none _ htenants _ =>
    rw [htenants]
    exact ⟨u, hu, rfl, rfl⟩
  | allocated d t ht hdb =>
    rw [hdb]
    exact ht.keeps_code hu
  | registered d req now t hostID ht hhost hrest =>
    obtain ⟨r, -, -, -, -, rfl, -⟩ := upsertHost_ok (registerHostUID_ne d req) hhost
    rw [hrest.tenants]
    exact ht.keeps_code hu
  | bootstrapped d req digest now t req' hostID hnew huid hcode ht hhost hrest =>
    obtain ⟨r, -, -, -, -, rfl, -⟩ := upsertHost_ok huid hhost
    rw [hrest.tenants]
    exact ⟨u, hu, rfl, rfl⟩

theorem enrolled_of_unknown (hs : s.allowCustomTenantCode = false) {req : RegisterAgentRequest}
    {now : Time} {t : TenantRow} {r : HostRow} {db' : Database} (hfresh : db.NewTenantCode d)
    (ht : EnsuredTenant d
      (s.registerTenantCode d db (Store.registerHostUID d req) req.host.tenantCode)
      (s.registerTenantCode d db (Store.registerHostUID d req) req.host.tenantCode) db t)
    (hnone : db.hostByUID (Store.registerHostUID d req) = none)
    (hnew : db.hosts.get? r.id = none) (hten : r.tenantID = t.id)
    (htenants : db'.tenants = db.tenants.put t) (hhosts : db'.hosts = db.hosts.put r) :
    EnrolledBy (.registerAgent d req now) db db' r ∧ db'.TrimmedTenant r := by
  rw [registerTenantCode_unknown hs hnone] at ht
  cases ht with
  | created _ _ _ hvar hids =>
    have hcode : t.tenantCode = idsNew "tenant" d.tenantSuffix := by
      rw [← hfresh.trimmed] at hvar ⊢
      exact varchar_trimSpace hvar
    constructor
    · refine ⟨⟨d, req, now, rfl⟩, hnew, ?_, ?_, ?_⟩
      · rw [hhosts, Table.get?_put_self]
        rfl
      · rw [hten, Table.get?_eq_none_iff]
        exact fun u hu => (hids u hu).1
      · rw [htenants, hten, Table.get?_put_self]
        rfl
    · refine ⟨t, htenants ▸ Table.mem_put.mpr (.inl rfl), hten.symm, ?_⟩
      rw [hcode, hfresh.trimmed]
  | assigned t₀ n hsome _ =>
    rw [hfresh.1] at hsome
    cases hsome

/-- A batch that reaches the write of a host finds that host's own tenant, when the tenant's
code is stored trimmed. -/
theorem tenant_of_metricTenantCode (hc : db.Consistent) {hostUID tenantCode : String}
    {g : HostRow} {t : TenantRow} (hg : db.hostByUID hostUID = some g)
    (hcode : s.metricTenantCode db hostUID tenantCode ≠ "")
    (hmetric : s.metricTenantCode db hostUID tenantCode = trimSpace (db.tenantCodeOfHost hostUID))
    (ht : db.tenantByCode (s.metricTenantCode db hostUID tenantCode) = some t)
    (htrim : db.TrimmedTenant g) : t.id = g.tenantID := by
  obtain ⟨u, hu, huid, hutrim⟩ := htrim
  obtain ⟨v, hv, hvid, hvcode, -⟩ := tenantCodeOfHost_spec hc hg
  have huv : u = v := db.tenants.eq_of_key_eq hu hv (huid.trans hvid.symm)
  obtain ⟨hmem, htcode⟩ := Database.tenantByCode_spec hcode ht
  have htu : t = u := by
    refine hc.tenantCode_inj t hmem u hu ?_
    rw [htcode, hmetric, ← hvcode, ← huv, hutrim]
  rw [htu, huid]

/-- Each host after a call was there before, with its tenant if that tenant's code is trimmed,
or the call has just enrolled it. -/
theorem Store.hosts_of_call (hs : s.allowCustomTenantCode = false) (hc : db.Consistent)
    (c : StoreCall) (hfresh : db.DrawsFresh c) (h : HostRow)
    (hh : h ∈ (s.call c db).2.hosts.rows) :
    (∃ g ∈ db.hosts.rows, g.id = h.id ∧ (db.TrimmedTenant g → h.tenantID = g.tenantID)) ∨
      EnrolledBy c db (s.call c db).2 h ∧ (s.call c db).2.TrimmedTenant h := by
  revert hfresh hh
  cases s.callEffect c db with
  | none _ _ hhosts =>
    intro _ hh
    exact .inl ⟨h, hhosts ▸ hh, rfl, fun _ => rfl⟩
  | allocated d t ht hdb =>
    intro _ hh
    rw [hdb] at hh
    exact .inl ⟨h, hh, rfl, fun _ => rfl⟩
  | registered d req now t hostID ht hhost hrest =>
    intro hfresh hh
    obtain ⟨r, hrid, hrten, -, -, rfl, hcase⟩ := upsertHost_ok (registerHostUID_ne d req) hhost
    rw [hrest.hosts] at hh
    rcases Table.mem_put.mp hh with rfl | ⟨hold, -⟩
    · rcases hcase with ⟨hnone, hget⟩ | ⟨g, hg, hgid⟩
      · exact .inr (enrolled_of_unknown hs hfresh ht hnone (hrid ▸ hget) hrten hrest.tenants
          hrest.hosts)
      · refine .inl ⟨g, (Table.mem_of_first hg).1, hgid.trans hrid.symm, fun _ => ?_⟩
        exact hrten.trans (ht.id_of_known hc hg)
    · exact .inl ⟨h, hold, rfl, fun _ => rfl⟩
  | bootstrapped d req digest now t req' hostID hnew huid hcode ht hhost hrest =>
    intro _ hh
    obtain ⟨g, hg, hmetric⟩ := known_of_metricTenantCode hs hcode
    obtain ⟨r, hrid, hrten, -, -, rfl, hcase⟩ := upsertHost_ok huid hhost
    rw [hrest.hosts] at hh
    rcases Table.mem_put.mp hh with rfl | ⟨hold, -⟩
    · rcases hcase with ⟨hnone, -⟩ | ⟨g', hg', hgid⟩
      · rw [hnone] at hg
        cases hg
      · refine .inl ⟨g', (Table.mem_of_first hg').1, hgid.trans hrid.symm, fun htrim => ?_⟩
        exact hrten.trans (tenant_of_metricTenantCode hc hg' hcode hmetric ht htrim)
    · exact .inl ⟨h, hold, rfl, fun _ => rfl⟩

theorem Store.reportMetrics_adds_nothing (hs : s.allowCustomTenantCode = false) (d : Draws)
    (req : PushMetricBatchRequest) (digest : AgentDigest) (now : Time) :
    (s.call (.reportMetrics d req digest now) db).2.tenants = db.tenants ∧
      ∀ h ∈ (s.call (.reportMetrics d req digest now) db).2.hosts.rows,
        (db.hosts.get? h.id).isSome = true := by
  cases s.callEffect (.reportMetrics d req digest now) db with
  | none _ htenants hhosts =>
    refine ⟨htenants, fun h hh => ?_⟩
    rw [Table.get?_of_mem (hhosts ▸ hh)]
    rfl
  | bootstrapped d req digest now t req' hostID hnew huid hcode ht hhost hrest =>
    obtain ⟨g, hg, -⟩ := known_of_metricTenantCode hs hcode
    obtain ⟨r, hrid, -, -, -, rfl, hcase⟩ := upsertHost_ok huid hhost
    refine ⟨hrest.tenants, fun h hh => ?_⟩
    rw [hrest.hosts] at hh
    rcases Table.mem_put.mp hh with rfl | ⟨hold, -⟩
    · rcases hcase with ⟨hnone, -⟩ | ⟨g', hg', hgid⟩
      · rw [hnone] at hg
        cases hg
      · rw [hrid, ← hgid, Table.get?_of_mem (Table.mem_of_first hg').1]
        rfl
    · rw [Table.get?_of_mem hold]
      rfl

end Step

section Run
variable {s : Store} {db : Database}

theorem EnrolledBy.congr {c : StoreCall} {db' : Database} {g h : HostRow}
    (hg : EnrolledBy c db db' g) (hid : g.id = h.id) (hten : h.tenantID = g.tenantID) :
    EnrolledBy c db db' h := by
  refine ⟨hg.registration, ?_, ?_, ?_, ?_⟩
  · exact hid ▸ hg.hostNew
  · exact hid ▸ hg.hostAdded
  · exact hten ▸ hg.tenantNew
  · exact hten ▸ hg.tenantAdded

theorem Database.TrimmedTenant.call {g h : HostRow} (hg : db.TrimmedTenant g)
    (hten : h.tenantID = g.tenantID) (c : StoreCall) : (s.call c db).2.TrimmedTenant h := by
  obtain ⟨t, ht, hid, htrim⟩ := hg
  obtain ⟨u, hu, huid, hcode⟩ := s.call_keeps_codes c ht
  exact ⟨u, hu, huid.trans (hid.trans hten.symm), hcode ▸ htrim⟩

theorem Store.tenant_after (s : Store) {k : Serial} (calls : List StoreCall)
    (h : (s.after db calls).tenants.get? k = none) : db.tenants.get? k = none := by
  induction calls using List.reverseRecOn with
  | nil => exact h
  | append_singleton calls c ih =>
    rw [after_concat] at h
    refine ih (Table.get?_eq_none_iff.mpr fun t ht hk => ?_)
    obtain ⟨u, hu, hid, -⟩ := s.call_keeps_codes c ht
    exact Table.get?_eq_none_iff.mp h u hu (hid.trans hk)

/-- The induction along a run: the trimmed code is what keeps a later batch from moving the
host to another tenant. -/
theorem Store.enrolled_after (hs : s.allowCustomTenantCode = false) (hc : db.Consistent)
    {calls : List StoreCall} (hfresh : s.DrawsFresh db calls) (h : HostRow)
    (hh : h ∈ (s.after db calls).hosts.rows) (hnew : db.hosts.get? h.id = none) :
    (∃ pre c post, calls = pre ++ c :: post ∧
      EnrolledBy c (s.after db pre) (s.after db (pre ++ [c])) h) ∧
      (s.after db calls).TrimmedTenant h := by
  induction calls using List.reverseRecOn generalizing h with
  | nil => exact absurd rfl (Table.get?_eq_none_iff.mp hnew h hh)
  | append_singleton calls c ih =>
    obtain ⟨hcalls, hlast⟩ := drawsFresh_concat hfresh
    rw [after_concat] at hh ⊢
    rcases hosts_of_call hs (s.consistent_after hc calls) c hlast h hh with
      ⟨g, hg, hid, hkeeps⟩ | ⟨henrolled, htrim⟩
    · obtain ⟨⟨pre, c', post, rfl, henrolled⟩, htrim⟩ := ih hcalls g hg (hid ▸ hnew)
      have hten := hkeeps htrim
      exact ⟨⟨pre, c', post ++ [c], by simp, henrolled.congr hid hten⟩, htrim.call hten c⟩
    · refine ⟨⟨calls, c, [], rfl, ?_⟩, htrim⟩
      rw [after_concat]
      exact henrolled

/-- Without custom tenant codes every new host has a tenant of its own making, and no metric
batch adds a tenant or a host. -/
theorem new_hosts_in_new_tenants (hs : s.allowCustomTenantCode = false) (hc : db.Consistent)
    {calls : List StoreCall} (hfresh : s.DrawsFresh db calls) :
    (∀ h ∈ (s.after db calls).hosts.rows, db.hosts.get? h.id = none →
      db.tenants.get? h.tenantID = none ∧
      ∃ pre c post, calls = pre ++ c :: post ∧
        EnrolledBy c (s.after db pre) (s.after db (pre ++ [c])) h) ∧
    ∀ pre d req digest now post, calls = pre ++ .reportMetrics d req digest now :: post →
      (s.after db (pre ++ [.reportMetrics d req digest now])).tenants = (s.after db pre).tenants ∧
      ∀ h ∈ (s.after db (pre ++ [.reportMetrics d req digest now])).hosts.rows,
        ((s.after db pre).hosts.get? h.id).isSome = true := by
  constructor
  · intro h hh hnew
    obtain ⟨⟨pre, c, post, hcalls, henrolled⟩, -⟩ := s.enrolled_after hs hc hfresh h hh hnew
    exact ⟨s.tenant_after pre henrolled.tenantNew, pre, c, post, hcalls, henrolled⟩
  · intro pre d req digest now post _
    rw [Store.after_concat]
    exact s.reportMetrics_adds_nothing hs d req digest now

end Run

def closedStore : Store := ⟨lenientColumns, 1, false⟩

/-- A registration that asks for the default tenant, a first batch of a second agent, and a
batch that asks for a host nobody registered. -/
def closedCalls : List StoreCall :=
  [sampleRegister 2 "h1" "a1" "default" 1000, sampleMetrics 3 "h1" "a2" 2000,
    sampleMetrics 4 "h2" "a1" 3000]

theorem new_hosts_in_new_tenants_closed :
    ∃ h ∈ (closedStore.after sampleStart closedCalls).hosts.rows,
      sampleStart.hosts.get? h.id = none ∧ sampleStart.tenants.get? h.tenantID = none := by
  have hfresh : closedStore.DrawsFresh sampleStart closedCalls :=
    ⟨⟨by decide, by decide⟩, trivial, trivial, trivial⟩
  obtain ⟨h, hh, hnew⟩ : ∃ h ∈ (closedStore.after sampleStart closedCalls).hosts.rows,
      sampleStart.hosts.get? h.id = none := by
    decide +kernel
  exact ⟨h, hh, hnew,
    ((new_hosts_in_new_tenants rfl consistent_sampleStart hfresh).1 h hh hnew).1⟩

end Gaoming
