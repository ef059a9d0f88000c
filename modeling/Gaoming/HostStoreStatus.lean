import Gaoming.HostStoreTenants

/-!
# The status of a host that is seen again

`ReconcileOffline` sets three state columns to OFFLINE. The calls of an agent set two
of them back; the reachability they only carry over, so a host that has once been
marked offline keeps it.
-/

namespace Gaoming
open Relational Transaction

def StoreCall.seenAt : StoreCall → Option Time
  | .registerAgent _ _ now | .heartbeat _ _ now | .reportMetrics _ _ _ now => some now
  | .allocateTenant _ | .reconcileOffline _ => none

/-- The host that a call of an agent, from `db` to `db'`, is about. -/
def Store.hostOfCall (s : Store) (db db' : Database) : StoreCall → Option Serial
  | .registerAgent d req _ => (db'.hostByUID (registerHostUID d req)).map HostRow.id
  | .heartbeat _ req _ => (s.agentFound db req.hostUID req.agentID).map Prod.fst
  | .reportMetrics _ req _ _ =>
    ((s.agentFound db req.hostUID req.agentID).map Prod.fst).or
      ((db'.hostByUID (bootstrapRequest req).host.hostUID).map HostRow.id)
  | .allocateTenant _ | .reconcileOffline _ => none

section Hosts
variable {s : Store} {d : Draws} {db db' : Database}

theorem Store.hostByUID_of_upsertHost {tenantID hostID : Serial} {hostUID : String}
    {req : RegisterAgentRequest} {now : Time} (hc : db.Consistent) (huid : hostUID ≠ "")
    (h : (s.upsertHost d tenantID hostUID req now).run db = .ok (hostID, db'))
    (hthere : ∃ g ∈ db'.hosts.rows, g.hostUID = hostUID) :
    (db'.hostByUID hostUID).map HostRow.id = some hostID := by
  obtain ⟨r, hid, -, -, -, rfl, hcase⟩ := upsertHost_ok huid h
  have hunique : ∀ g ∈ (db.hosts.put r).rows, g.hostUID = hostUID → g.id = hostID := by
    intro g hg hguid
    rcases Table.mem_put.mp hg with rfl | ⟨hold, -⟩
    · exact hid
    rcases hcase with ⟨hnone, -⟩ | ⟨g₀, hg₀, hgid⟩
    · exact absurd hguid (Database.hostByUID_eq_none hnone g hold)
    · obtain ⟨hmem, huid₀⟩ := Database.hostByUID_spec huid hg₀
      rw [hc.hostUID_inj g hold g₀ hmem (hguid.trans huid₀.symm)]
      exact hgid
  cases hf : Database.hostByUID { db with hosts := db.hosts.put r } hostUID with
  | none =>
    obtain ⟨g, hg, hguid⟩ := hthere
    exact absurd hguid (Database.hostByUID_eq_none hf g hg)
  | some g =>
    obtain ⟨hmem, hguid⟩ := Database.hostByUID_spec huid hf
    rw [Option.map_some, hunique g hmem hguid]

theorem Database.host_of_hostByUID {hostUID : String} {hostID : Serial}
    (h : (db.hostByUID hostUID).map HostRow.id = some hostID) :
    (db.hosts.get? hostID).isSome = true := by
  obtain ⟨g, hg, rfl⟩ := Option.map_eq_some_iff.mp h
  rw [Table.get?_of_mem (Table.mem_of_first hg).1]
  rfl

theorem Database.hostByUID_congr (h : db'.hosts = db.hosts) (hostUID : String) :
    db'.hostByUID hostUID = db.hostByUID hostUID := by
  rw [hostByUID, h, hostByUID]

end Hosts

theorem Store.bootstrapRequest_hostUID (req : PushMetricBatchRequest) :
    ∃ uid, (bootstrapRequest req).host.hostUID = trimSpace uid := by
  change ∃ uid, orElse (trimSpace req.host.hostUID) (trimSpace req.hostUID) = trimSpace uid
  unfold orElse
  split_ifs
  · exact ⟨_, rfl⟩
  · exact ⟨_, rfl⟩

inductive StatusEffect (s : Store) (db db' : Database) : StoreCall → Prop
  | none (c : StoreCall) (hnone : ∀ reply, (s.call c db).1 = .ok reply → c.seenAt = none)
      (hsame : db'.hostStatusCurrent = db.hostStatusCurrent) :
      StatusEffect s db db' c
  | seen (c : StoreCall) (now : Time) (hostID : Serial) (r : HostStatusRow)
      (hnow : c.seenAt = some now) (hhost : s.hostOfCall db db' c = some hostID)
      (hthere : (db'.hosts.get? hostID).isSome = true)
      (hrow : db'.hostStatusCurrent.get? hostID = some r)
      (hseen : r.SeenAt now (db.hostStatusCurrent.get? hostID))
      (hother : ∀ h, h ≠ hostID → db'.hostStatusCurrent.get? h = db.hostStatusCurrent.get? h) :
      StatusEffect s db db' c
  | reconciled (now : Time) (snapshots : List HostSnapshot)
      (hrun : (reconcileOffline now).run db = .ok (snapshots, db')) :
      StatusEffect s db db' (.reconcileOffline now)

section Calls
variable {s : Store} {d : Draws} {now : Time} {db db' : Database}

theorem StatusEffect.registered {req : RegisterAgentRequest}
    {out : HostSnapshot × AgentConfig × String} (hc : db.Consistent)
    (h : (s.registerAgent d req now).run db = .ok (out, db')) :
    StatusEffect s db db' (.registerAgent d req now) := by
  obtain ⟨t, hostID, db₁, ht, hhost, hsame, ⟨r, hr, hseen⟩, g, hg, hguid⟩ :=
    Store.registerAgent_ok h
  have huid := Store.registerHostUID_ne d req
  have hid : (db'.hostByUID (Store.registerHostUID d req)).map HostRow.id = some hostID := by
    rw [Database.hostByUID_congr hsame.hosts]
    refine Store.hostByUID_of_upsertHost
      (hc.put_tenant Store.registerTenantCode_ne ht) huid hhost ?_
    exact ⟨g, hsame.hosts ▸ hg, hguid⟩
  refine .seen _ now hostID r rfl hid (Database.host_of_hostByUID hid) hr hseen fun k hk => ?_
  obtain ⟨row, -, -, -, -, rfl, -⟩ := Store.upsertHost_ok huid hhost
  exact hsame.hostStatus k hk

theorem StatusEffect.beaten {req : HeartbeatRequest} {out : HostSnapshot × AgentConfig}
    (h : (s.heartbeat d req now).run db = .ok (out, db')) :
    StatusEffect s db db' (.heartbeat d req now) := by
  obtain ⟨hostID, cfg, hfound, hsame, hthere, r, hr, hseen⟩ := Store.heartbeat_ok h
  refine .seen _ now hostID r rfl ?_ hthere hr hseen hsame.hostStatus
  rw [Store.hostOfCall, hfound]
  rfl

theorem StatusEffect.reported {req : PushMetricBatchRequest} {digest : AgentDigest}
    {snapshot : HostSnapshot} (hc : db.Consistent)
    (h : (s.reportMetrics d req digest now).run db = .ok (snapshot, db')) :
    StatusEffect s db db' (.reportMetrics d req digest now) := by
  obtain ⟨hostID, db₁, hhost, hsame, ⟨r, hr, -, -, -, hseen, hthere⟩, g, hg, hz, -⟩ :=
    Store.reportMetrics_ok h
  rcases Store.hostForMetric_ok hhost with ⟨g, -, -, hfound, rfl⟩ | ⟨hnew, hboot⟩
  · refine .seen _ now hostID r rfl ?_ hthere hr hseen hsame.hostStatus
    rw [Store.hostOfCall, hfound]
    rfl
  obtain ⟨huid, ⟨t, req', db₂, -, -, hup, hrest⟩, r₁, hr₁, -, hseen₁⟩ :=
    Store.bootstrapHostForMetric_ok hboot
  rw [hr₁] at hseen
  have hhosts : db'.hosts = db₂.hosts := hsame.hosts.trans hrest.hosts
  obtain ⟨row, -, -, hvar, -, hdb₂, -⟩ := Store.upsertHost_ok huid hup
  have hid : (db'.hostByUID (Store.bootstrapRequest req).host.hostUID).map HostRow.id =
      some hostID := by
    rw [Database.hostByUID_congr hhosts]
    refine Store.hostByUID_of_upsertHost hc huid hup ⟨row, ?_, ?_⟩
    · rw [hdb₂]
      exact Table.mem_put.mpr (.inl rfl)
    · -- trimmed, so the column keeps it as it is
      obtain ⟨uid, htrim⟩ := Store.bootstrapRequest_hostUID req
      rw [htrim] at hvar ⊢
      exact varchar_trimSpace hvar
  refine .seen _ now hostID r rfl ?_ hthere hr (hseen₁.trans hseen) fun k hk => ?_
  · rw [Store.hostOfCall, hnew]
    exact hid
  · rw [hsame.hostStatus k hk, hrest.hostStatus k hk, hdb₂]

theorem Store.statusEffect (s : Store) (c : StoreCall) (hc : db.Consistent) :
    StatusEffect s db (s.call c db).2 c := by
  cases hrun : (s.program c).run db with
  | error e =>
    have hcall : s.call c db = (.error e, db) := Tx.transact_of_error hrun
    rw [hcall]
    refine .none c ?_ rfl
    rw [hcall]
    intro reply hreply
    cases hreply
  | ok out =>
    obtain ⟨reply, db'⟩ := out
    have hcall : s.call c db = (.ok reply, db') := Tx.transact_of_ok hrun
    rw [hcall]
    cases c with
    | allocateTenant d =>
      obtain ⟨code, db₁, halloc, h⟩ := Tx.run_bind_eq_ok.mp hrun
      obtain ⟨t, db₂, hens, hret⟩ := Tx.run_bind_eq_ok.mp halloc
      simp only [Tx.run_pure, Except.ok.injEq, Prod.mk.injEq] at h hret
      obtain ⟨r, -, -, hdb⟩ := ensureTenant_ok hens
      refine .none _ (fun _ _ => rfl) ?_
      rw [← h.2, ← hret.2, hdb]
    | registerAgent d req now =>
      obtain ⟨out, db₁, hreg, h⟩ := Tx.run_bind_eq_ok.mp hrun
      simp only [Tx.run_pure, Except.ok.injEq, Prod.mk.injEq] at h
      exact h.2 ▸ .registered hc hreg
    | heartbeat d req now =>
      obtain ⟨out, db₁, hbeat, h⟩ := Tx.run_bind_eq_ok.mp hrun
      simp only [Tx.run_pure, Except.ok.injEq, Prod.mk.injEq] at h
      exact h.2 ▸ .beaten hbeat
    | reportMetrics d req digest now =>
      obtain ⟨out, db₁, hrep, h⟩ := Tx.run_bind_eq_ok.mp hrun
      simp only [Tx.run_pure, Except.ok.injEq, Prod.mk.injEq] at h
      exact h.2 ▸ .reported hc hrep
    | reconcileOffline now =>
      obtain ⟨out, db₁, hrec, h⟩ := Tx.run_bind_eq_ok.mp hrun
      simp only [Tx.run_pure, Except.ok.injEq, Prod.mk.injEq] at h
      exact h.2 ▸ .reconciled now out hrec

end Calls

/-- None of the three columns that `ReconcileOffline` writes says OFFLINE. -/
def Database.Recovered (db : Database) (hostID : Serial) : Prop :=
  ∃ r, db.hostStatusCurrent.get? hostID = some r ∧ r.agentState ≠ .offline ∧
    r.reachabilityState ≠ .offline ∧ r.overallState ≠ .offline

def Database.Unreachable (db : Database) (hostID : Serial) : Prop :=
  ∃ r, db.hostStatusCurrent.get? hostID = some r ∧ r.reachabilityState = .offline

/-- In every state that calls lead to, a call of an agent that commits leaves its host
recovered exactly when the host's reachability was not OFFLINE before. -/
theorem Store.Reaches.recovered_iff {s : Store} {db₀ db : Database} (hc : db₀.Consistent)
    (h : s.Reaches (fun _ _ => True) db₀ db) (c : StoreCall) (now : Time)
    (hnow : c.seenAt = some now) (reply : StoreReply) (hok : (s.call c db).1 = .ok reply) :
    ∃ hostID, s.hostOfCall db (s.call c db).2 c = some hostID ∧
      ((s.call c db).2.Recovered hostID ↔ ¬ db.Unreachable hostID) := by
  cases s.statusEffect c (h.consistent hc) with
  | none _ hnone _ => simp [hnone reply hok] at hnow
  | reconciled now' _ _ => cases hnow
  | seen _ now' hostID r _ hhost _ hrow hseen _ =>
    refine ⟨hostID, hhost, ?_⟩
    have hreach : r.reachabilityState = .offline ↔ db.Unreachable hostID := by
      rw [hseen.reachabilityState, Database.Unreachable]
      cases db.hostStatusCurrent.get? hostID with
      | none => simp
      | some old => simp
    constructor
    · rintro ⟨r', hr', -, hne, -⟩ hunreachable
      rw [hrow, Option.some.injEq] at hr'
      exact hne (hr' ▸ hreach.mpr hunreachable)
    · intro hno
      refine ⟨r, hrow, ?_, fun hr => hno (hreach.mp hr), ?_⟩
      · simp [hseen.agentState]
      · simp [hseen.overallState]

theorem recovered_acme : ∃ hostID,
    sampleStore.hostOfCall acmeDatabase
      (sampleStore.call (sampleHeartbeat 3 "a1" 2000) acmeDatabase).2
      (sampleHeartbeat 3 "a1" 2000) =
        some hostID ∧
    ((sampleStore.call (sampleHeartbeat 3 "a1" 2000) acmeDatabase).2.Recovered hostID ↔
      ¬ acmeDatabase.Unreachable hostID) := by
  have hreach : sampleStore.Reaches (fun _ _ => True) sampleStart acmeDatabase :=
    .step _ .refl trivial
  have hok : (sampleStore.call (sampleHeartbeat 3 "a1" 2000) acmeDatabase).1.isOk = true := by
    decide
  cases hreply : (sampleStore.call (sampleHeartbeat 3 "a1" 2000) acmeDatabase).1 with
  | error e =>
    rw [hreply] at hok
    cases hok
  | ok reply =>
    exact Store.Reaches.recovered_iff consistent_sampleStart hreach _ 2000 rfl reply hreply

/-- The host is not seen for twenty seconds, is marked offline, and comes back. -/
def silentDatabase : Database := (sampleStore.call (.reconcileOffline (20 * second)) acmeDatabase).2

theorem heartbeat_leaves_unreachable :
    ((sampleStore.call (sampleHeartbeat 3 "a1" (21 * second)) silentDatabase).1.isOk = true) ∧
    ((sampleStore.call (sampleHeartbeat 3 "a1" (21 * second))
      silentDatabase).2.hostStatusCurrent.get? 2).map
      (fun r => (r.agentState, r.reachabilityState, r.overallState)) =
        some (.up, .offline, .up) := by
  decide

end Gaoming
