import Gaoming.IngestService
import Gaoming.MetricCodec

/-!
# Metric batches and the host they are recorded for

A batch names its host and its agent twice, and the store looks them up with
struct conditions that drop empty strings. These results say when an empty
identity is refused, and when the host whose rows change is the one that the
batch names.
-/

namespace Gaoming
open Relational Transaction

def RefusedUntouched (s : Store) (c : StoreCall) (db : Database) : Prop :=
  (s.call c db).1 = .error .hostNotFound ∧
    (s.call c db).2.hosts = db.hosts ∧
    (s.call c db).2.agentInstances = db.agentInstances ∧
    (s.call c db).2.hostStatusCurrent = db.hostStatusCurrent

namespace Store
variable {s : Store} {d : Draws} {req : PushMetricBatchRequest} {digest : AgentDigest}
  {now : Time} {db : Database}

theorem program_reportMetrics_error {e : StoreError} :
    (s.program (.reportMetrics d req digest now)).run db = .error e ↔
      (s.reportMetrics d req digest now).run db = .error e := by
  rw [program, Tx.run_bind_eq_error]
  simp

theorem updateAgentInstanceState_error {hostID : Serial} {agentID : String} {seq : Int64}
    {e : StoreError} (h : (updateAgentInstanceState hostID agentID seq now).run db = .error e) :
    e = .database := by
  rw [updateAgentInstanceState, Tx.run_exec] at h
  split_ifs at h
  · cases h
    rfl
  · cases h

theorem reportMetrics_of_refused (h : lookupRefused db req.hostUID req.agentID = true) :
    (s.reportMetrics d req digest now).run db = .error .database := by
  refine Tx.run_bind_of_error (Tx.run_bind_of_error ?_)
  rw [run_lookupAgentInstance, if_pos h]

theorem run_hostForMetric (h : lookupRefused db req.hostUID req.agentID = false) :
    (s.hostForMetric d req now).run db =
      match s.agentFound db req.hostUID req.agentID with
      | some found => .ok (found.1, db)
      | none => (s.bootstrapHostForMetric d req now).run db := by
  have hlookup := @run_lookupAgentInstance s db req.hostUID req.agentID
  rw [if_neg (by rw [h]; exact Bool.false_ne_true)] at hlookup
  rw [hostForMetric, Tx.run_bind_of_ok hlookup]
  cases s.agentFound db req.hostUID req.agentID with
  | none => rfl
  | some found => rfl

theorem reportMetrics_ne_hostNotFound {g : HostRow}
    (hk : s.KnownAgent db req.hostUID req.agentID g) :
    (s.reportMetrics d req digest now).run db ≠ .error .hostNotFound := by
  intro h
  have hrefused : lookupRefused db req.hostUID req.agentID = false := by
    rw [Bool.eq_false_iff]
    intro hrefused
    rw [reportMetrics_of_refused hrefused] at h
    cases h
  rcases Tx.run_bind_eq_error.mp h with h | ⟨hostID, db₁, hhost, h⟩
  · rw [run_hostForMetric hrefused] at h
    cases hf : s.agentFound db req.hostUID req.agentID with
    | none => exact agentFound_eq_none_iff.mp hf ⟨g, hk⟩
    | some f => simp [hf] at h
  · have hdb : db₁ = db := by
      rcases hostForMetric_ok hhost with ⟨_, -, -, -, hdb⟩ | ⟨hnone, -⟩
      · exact hdb
      · exact absurd ⟨g, hk⟩ (agentFound_eq_none_iff.mp hnone)
    rcases Tx.run_bind_eq_error.mp h with h | ⟨_, db₂, hagent, h⟩
    · exact absurd (updateAgentInstanceState_error h) (by decide)
    rcases Tx.run_bind_eq_error.mp h with h | ⟨_, db₃, hstatus, h⟩
    · exact absurd (upsertDigestStatus_error h) (by decide)
    -- the hosts are those of `db`, so the read-back finds the host that was found before
    have hhosts : db₃.hosts = db.hosts :=
      (SameOutside.of_run_onStatus (s.uses_upsertDigestStatus _) hstatus).hosts.trans
        ((SameOutside.of_run_beside (uses_updateAgentInstanceState _ _) hagent).hosts.trans
          (hdb ▸ rfl))
    have hmem : g ∈ db₃.hosts.rows := hhosts ▸ hk.mem.1
    obtain ⟨snapshot, hread⟩ := readBack_of_mem hmem hk.mem.2
    simp [hread] at h

theorem reportMetrics_of_unknown (hrefused : lookupRefused db req.hostUID req.agentID = false)
    (hnone : s.agentFound db req.hostUID req.agentID = none)
    (hempty : (bootstrapRequest req).host.hostUID = "" ∨
      (bootstrapRequest req).agent.agentID = "") :
    (s.reportMetrics d req digest now).run db = .error .hostNotFound := by
  refine Tx.run_bind_of_error ?_
  rw [run_hostForMetric hrefused, hnone]
  simp [bootstrapHostForMetric, hempty]

theorem lookupRefused_eq_false_iff {hostUID agentID : String} :
    lookupRefused db hostUID agentID = false ↔
      hasNul hostUID = false ∧ (hasNul agentID = true → db.hostByUID hostUID = none) := by
  rw [lookupRefused, Bool.or_eq_false_iff]
  cases hasNul agentID <;> simp

/-- A batch whose host UID or agent ID is empty is refused without a trace exactly when the
database takes the texts it is asked for, and no host that the lookup tries has an agent row
for the batch to hit. -/
theorem reportMetrics_empty_identity (s : Store) (d : Draws) (m : Wire.PushMetricBatchRequest)
    (digest : AgentDigest) (now : Time) (db : Database)
    (hempty : (fromProtoPushMetricBatchRequest m).hostUID = "" ∨
      (fromProtoPushMetricBatchRequest m).agentID = "") :
    RefusedUntouched s (.reportMetrics d (fromProtoPushMetricBatchRequest m) digest now) db ↔
      (hasNul (fromProtoPushMetricBatchRequest m).hostUID = false ∧
        (hasNul (fromProtoPushMetricBatchRequest m).agentID = true →
          db.hostByUID (fromProtoPushMetricBatchRequest m).hostUID = none)) ∧
      ¬ ∃ h, s.KnownAgent db (fromProtoPushMetricBatchRequest m).hostUID
        (fromProtoPushMetricBatchRequest m).agentID h := by
  set req := fromProtoPushMetricBatchRequest m with hreq
  rw [← lookupRefused_eq_false_iff]
  constructor
  · rintro ⟨hres, -⟩
    have hrun : (s.reportMetrics d req digest now).run db = .error .hostNotFound := by
      rw [← program_reportMetrics_error]
      rw [call, Tx.transact_fst] at hres
      cases hrun : (s.program (.reportMetrics d req digest now)).run db with
      | ok out => simp [hrun, Except.map] at hres
      | error e => simpa [hrun, Except.map] using hres
    refine ⟨Bool.eq_false_iff.mpr fun hrefused => ?_, fun ⟨g, hk⟩ =>
      reportMetrics_ne_hostNotFound hk hrun⟩
    rw [reportMetrics_of_refused hrefused] at hrun
    cases hrun
  · rintro ⟨hrefused, hno⟩
    have hboot : (bootstrapRequest req).host.hostUID = "" ∨
        (bootstrapRequest req).agent.agentID = "" := by
      rcases hempty with h | h
      · refine .inl ?_
        simp [bootstrapRequest, orElse, h, hreq ▸ fromProto_hostUID_empty h]
      · refine .inr ?_
        simp [bootstrapRequest, orElse, h, hreq ▸ fromProto_agentID_empty h]
    have hrun : (s.reportMetrics d req digest now).run db = .error .hostNotFound :=
      reportMetrics_of_unknown hrefused (agentFound_eq_none_iff.mpr hno) hboot
    rw [RefusedUntouched, call, Tx.transact_of_error (program_reportMetrics_error.mpr hrun)]
    exact ⟨rfl, rfl, rfl, rfl⟩

end Store

theorem reportMetrics_empty_identity_start :
    RefusedUntouched sampleStore
      (.reportMetrics (sampleDraws 2) (fromProtoPushMetricBatchRequest {}) {} 2000) sampleStart :=
  (Store.reportMetrics_empty_identity sampleStore (sampleDraws 2) {} {} 2000 sampleStart
    (by decide)).mpr ⟨by decide, by rw [← Store.agentFound_eq_none_iff]; decide⟩

/-- With one registered agent, a batch that names nobody is recorded for that agent's host. -/
theorem reportMetrics_accepts_empty_identity :
    ((fromProtoPushMetricBatchRequest {}).hostUID = "" ∧
      (fromProtoPushMetricBatchRequest {}).agentID = "") ∧
    ¬ RefusedUntouched sampleStore
      (.reportMetrics (sampleDraws 3) (fromProtoPushMetricBatchRequest {}) {} 2000)
      acmeDatabase := by
  unfold RefusedUntouched
  decide

def Database.Owns (db : Database) (hostUID : String) (hostID : Serial) : Prop :=
  ∃ h ∈ db.hosts.rows, h.id = hostID ∧ h.hostUID = hostUID

instance (db : Database) (hostUID : String) (hostID : Serial) :
    Decidable (db.Owns hostUID hostID) :=
  inferInstanceAs (Decidable (∃ h ∈ db.hosts.rows, h.id = hostID ∧ h.hostUID = hostUID))

structure ConfinedTo (hostUID : String) (db db' : Database) : Prop where
  hosts : ∀ h : HostRow, h.hostUID ≠ hostUID → (h ∈ db'.hosts.rows ↔ h ∈ db.hosts.rows)
  hostLabels : ∀ l : HostLabelRow, ¬ db'.Owns hostUID l.hostID →
    (l ∈ db'.hostLabels.rows ↔ l ∈ db.hostLabels.rows)
  hostStatus : ∀ k, ¬ db'.Owns hostUID k →
    db'.hostStatusCurrent.get? k = db.hostStatusCurrent.get? k

/-- The batch is recorded for the host that its outer UID names, everywhere. -/
structure RecordedFor (s : Store) (d : Draws) (req : PushMetricBatchRequest) (now : Time)
    (snapshot : HostSnapshot) (db db' : Database) : Prop where
  confined : ConfinedTo req.hostUID db db'
  recorded : ∃ h ∈ db'.hosts.rows, h.hostUID = req.hostUID ∧ snapshot = db'.snapshotOf h ∧
    (digestFromMetricBatch req).toSummaryMetrics.stored s.columns =
      some snapshot.toSummaryMetrics ∧
    snapshot.lastMetricAt = timestamptz now ∧
    db'.hostStatusCurrent.get? h.id ≠ db.hostStatusCurrent.get? h.id ∧
    ∀ u available, ∀ e ∈ (processMetricBatch u s available d req now db).effects,
      e.hostUID = h.hostUID

section Recorded
variable {s : Store} {d : Draws} {req : PushMetricBatchRequest} {now : Time} {db db' : Database}
  {hostID : Serial} {snapshot : HostSnapshot}

theorem processMetricBatch_effects {u : Unicode} {available : MetricEffect → Bool}
    {e : MetricEffect}
    (h : (s.reportMetrics d req (digestFromMetricBatch req) now).transact db = (.ok snapshot, db'))
    (he : e ∈ (processMetricBatch u s available d req now db).effects) :
    e.hostUID = req.hostUID ∨ e.hostUID = snapshot.hostUID := by
  have hmem : e ∈ metricEffects req (digestFromMetricBatch req) now snapshot := by
    unfold processMetricBatch at he
    split at he
    · simp at he
    · simp only [h] at he
      split_ifs at he
      · exact he
      · exact (List.takeWhile_sublist _).subset he
  simp only [metricEffects, List.mem_cons, List.not_mem_nil, or_false] at hmem
  rcases hmem with rfl | rfl | rfl
  · exact .inl rfl
  · exact .inl rfl
  · exact .inr rfl

theorem snapshotOf_status {h : HostRow} {r : HostStatusRow}
    (hr : db.hostStatusCurrent.get? h.id = some r) :
    (db.snapshotOf h).toSummaryMetrics = r.toSummaryMetrics ∧
      (db.snapshotOf h).lastMetricAt = r.lastMetricAt.getD 0 := by
  simp [Database.snapshotOf, hostSnapshotFromModel, hr]

theorem ConfinedTo.of_sameOutside {hostUID : String} {db₁ : Database}
    (hhosts : ∀ h : HostRow, h.hostUID ≠ hostUID → (h ∈ db₁.hosts.rows ↔ h ∈ db.hosts.rows))
    (hlabels : db₁.hostLabels = db.hostLabels)
    (hstatus : db₁.hostStatusCurrent = db.hostStatusCurrent)
    (hsame : SameOutside hostID db₁ db') (howns : db'.Owns hostUID hostID) :
    ConfinedTo hostUID db db' where
  hosts := fun h hne => hsame.hosts ▸ hhosts h hne
  hostLabels := fun l hl => by
    have hne : l.hostID ≠ hostID := fun heq => hl (heq ▸ howns)
    rw [hsame.hostLabels l hne, hlabels]
  hostStatus := fun k hk => by
    have hne : k ≠ hostID := fun heq => hk (heq ▸ howns)
    rw [hsame.hostStatus k hne, hstatus]

theorem Store.bootstrap_frame
    (h : (s.bootstrapHostForMetric d req now).run db = .ok (hostID, db')) :
    db'.Owns (bootstrapRequest req).host.hostUID hostID ∧
    ∃ db₁, db₁.hostLabels = db.hostLabels ∧ db₁.hostStatusCurrent = db.hostStatusCurrent ∧
      SameOutside hostID db₁ db' ∧
      ∀ g : HostRow, g.hostUID ≠ (bootstrapRequest req).host.hostUID →
        (g ∈ db₁.hosts.rows ↔ g ∈ db.hosts.rows) := by
  obtain ⟨huid, ⟨t, req', db₁, -, -, hhost, hsame⟩, -⟩ := bootstrapHostForMetric_ok h
  obtain ⟨r, hid, -, hvar, -, rfl, hcase⟩ := upsertHost_ok huid hhost
  -- the UID is trimmed, so the column stores all of it
  have hruid : r.hostUID = (bootstrapRequest req).host.hostUID := by
    unfold bootstrapRequest orElse at hvar ⊢
    dsimp only at hvar ⊢
    split_ifs at hvar ⊢ <;> exact varchar_trimSpace hvar
  refine ⟨⟨r, ?_, hid, hruid⟩, { db with hosts := db.hosts.put r }, rfl, rfl, hsame, fun g hg => ?_⟩
  · rw [hsame.hosts]
    exact Table.mem_put.mpr (.inl rfl)
  · have hne : g ≠ r := fun heq => hg (heq ▸ hruid)
    have hkey : g ∈ db.hosts.rows → g.id ≠ r.id := by
      intro hmem heq
      rcases hcase with ⟨-, hnone⟩ | ⟨g', hg', hg'id⟩
      · exact Table.get?_eq_none_iff.mp hnone g hmem (heq.trans hid)
      · obtain ⟨hmem', huid'⟩ := Database.hostByUID_spec huid hg'
        have hgg : g = g' := db.hosts.eq_of_key_eq hmem hmem' (heq.trans (hid.trans hg'id.symm))
        exact hg (hgg ▸ huid')
    rw [Table.mem_put]
    exact ⟨fun hm => (hm.resolve_left hne).1, fun hm => .inr ⟨hm, hkey hm⟩⟩

theorem Store.host_bootstrapRequest (req : PushMetricBatchRequest) :
    (bootstrapRequest req).host.hostUID =
      orElse (trimSpace req.host.hostUID) (trimSpace req.hostUID) := rfl

/-- The host that a batch was recorded for: one that its UID and agent ID lead to, or the one
that its bootstrap registered. -/
def Store.RecordsAt (s : Store) (db db' : Database) (req : PushMetricBatchRequest)
    (hostID : Serial) : Prop :=
  (∃ g, s.KnownAgent db req.hostUID req.agentID g ∧ g.id = hostID) ∨
    (¬ ∃ g, s.KnownAgent db req.hostUID req.agentID g) ∧
      db'.Owns (bootstrapRequest req).host.hostUID hostID

theorem Store.reportMetrics_row {digest : AgentDigest}
    (h : (s.reportMetrics d req digest now).run db = .ok (snapshot, db')) :
    ∃ hostID db₁, ∃ r : HostStatusRow, (s.hostForMetric d req now).run db = .ok (hostID, db₁) ∧
      SameOutside hostID db₁ db' ∧ db'.hostStatusCurrent.get? hostID = some r ∧
      digest.toSummaryMetrics.stored s.columns = some r.toSummaryMetrics ∧
      r.lastMetricAt = some (timestamptz now) ∧ db.hostStatusCurrent.get? hostID ≠ some r := by
  obtain ⟨hostID, db₁, hhost, hsame, ⟨r, hr, hver, hm, hseen, -⟩, -⟩ := reportMetrics_ok h
  refine ⟨hostID, db₁, r, hhost, hsame, hr, hm, hseen, fun heq => ?_⟩
  rcases hostForMetric_ok hhost with ⟨g, -, -, -, rfl⟩ | ⟨-, hboot⟩
  · rw [heq, Option.getD_some] at hver
    grind
  · -- the bootstrap and the digest each count the version up by one
    obtain ⟨-, -, r₁, hr₁, hver₁, -⟩ := bootstrapHostForMetric_ok hboot
    rw [hr₁, Option.getD_some, hver₁, heq] at hver
    simp only [nextVersion, Option.map_some, Option.getD_some] at hver
    grind

theorem Store.recordsAt_of_hostForMetric {db₁ : Database}
    (hhost : (s.hostForMetric d req now).run db = .ok (hostID, db₁))
    (hsame : SameOutside hostID db₁ db') : s.RecordsAt db db' req hostID := by
  rcases hostForMetric_ok hhost with ⟨g, hk, hid, -, -⟩ | ⟨hnone, hboot⟩
  · exact .inl ⟨g, hk, hid⟩
  · refine .inr ⟨agentFound_eq_none_iff.mp hnone, ?_⟩
    rw [Database.Owns, hsame.hosts]
    exact (bootstrap_frame hboot).1

theorem Store.reportMetrics_target {digest : AgentDigest} (hreq : req.hostUID ≠ "")
    (h : (s.reportMetrics d req digest now).run db = .ok (snapshot, db')) :
    ∃ uid hostID,
      ((∃ g, s.KnownAgent db req.hostUID req.agentID g) ∧ uid = req.hostUID ∨
        (¬ ∃ g, s.KnownAgent db req.hostUID req.agentID g) ∧
          uid = (bootstrapRequest req).host.hostUID) ∧
      db'.Owns uid hostID ∧ ConfinedTo uid db db' ∧
      (∃ r : HostStatusRow, db'.hostStatusCurrent.get? hostID = some r ∧
        digest.toSummaryMetrics.stored s.columns = some r.toSummaryMetrics ∧
        r.lastMetricAt = some (timestamptz now)) ∧
      db'.hostStatusCurrent.get? hostID ≠ db.hostStatusCurrent.get? hostID := by
  obtain ⟨hostID, db₁, r, hhost, hsame, hr, hm, hseen, hnew⟩ := reportMetrics_row h
  have hchanged : db'.hostStatusCurrent.get? hostID ≠ db.hostStatusCurrent.get? hostID := by
    rw [hr]
    exact hnew.symm
  rcases hostForMetric_ok hhost with ⟨g, hk, hid, -, rfl⟩ | ⟨hnone, hboot⟩
  · have huid : g.hostUID = req.hostUID := ((zeroOrEq_iff hreq).mp hk.mem.2).symm
    have howns : db'.Owns req.hostUID hostID := ⟨g, hsame.hosts ▸ hk.mem.1, hid, huid⟩
    exact ⟨req.hostUID, hostID, .inl ⟨⟨g, hk⟩, rfl⟩, howns,
      .of_sameOutside (fun _ _ => Iff.rfl) rfl rfl hsame howns, ⟨r, hr, hm, hseen⟩, hchanged⟩
  · obtain ⟨howns₁, db₂, hlabels, hstatus, hsame₁, hhosts⟩ := bootstrap_frame hboot
    have howns : db'.Owns (bootstrapRequest req).host.hostUID hostID := by
      rw [Database.Owns, hsame.hosts]
      exact howns₁
    exact ⟨_, hostID, .inr ⟨agentFound_eq_none_iff.mp hnone, rfl⟩, howns,
      .of_sameOutside hhosts hlabels hstatus (hsame₁.trans hsame) howns, ⟨r, hr, hm, hseen⟩,
      hchanged⟩

theorem Store.consistent_reportMetrics {digest : AgentDigest} (hc : db.Consistent)
    (h : (s.reportMetrics d req digest now).run db = .ok (snapshot, db')) : db'.Consistent := by
  have hcall := s.consistent_call (.reportMetrics d req digest now) hc
  rw [call, Tx.transact_of_ok (Tx.run_bind_of_ok h)] at hcall
  exact hcall

/-- A batch is recorded for the host of its outer UID exactly when its agent is known
there, or when the UID that a bootstrap would use is the outer one. -/
theorem Store.reportMetrics_recorded_iff (s : Store) (d : Draws) (req : PushMetricBatchRequest)
    (now : Time) (db db' : Database) (snapshot : HostSnapshot) (hc : db.Consistent)
    (hhost : req.hostUID ≠ "") (_hagent : req.agentID ≠ "") (_hhost' : req.host.hostUID ≠ "")
    (_hagent' : req.agent.agentID ≠ "")
    (h : (s.reportMetrics d req (digestFromMetricBatch req) now).transact db =
      (.ok snapshot, db')) :
    RecordedFor s d req now snapshot db db' ↔
      (∃ g, s.KnownAgent db req.hostUID req.agentID g) ∨
        orElse (trimSpace req.host.hostUID) (trimSpace req.hostUID) = req.hostUID := by
  have hrun := Tx.run_of_transact h
  obtain ⟨uid, hostID, hcase, ⟨g, hg, hgid, hguid⟩, hconf, ⟨r, hr, hm, hseen⟩, hchanged⟩ :=
    reportMetrics_target hhost hrun
  rw [host_bootstrapRequest] at hcase
  constructor
  · intro hrec
    by_contra hno
    rw [not_or] at hno
    rcases hcase with ⟨hk, -⟩ | ⟨-, huid⟩
    · exact hno.1 hk
    -- the bootstrapped host is another one, and its status row has changed
    · refine hchanged (hrec.confined.hostStatus hostID ?_)
      rintro ⟨g', hg', hg'id, hg'uid⟩
      have hgg : g' = g := db'.hosts.eq_of_key_eq hg' hg (hg'id.trans hgid.symm)
      exact hno.2 ((huid.symm.trans hguid.symm).trans (hgg ▸ hg'uid))
  · intro hcond
    have huid : uid = req.hostUID := by
      rcases hcase with ⟨-, huid⟩ | ⟨hno, huid⟩
      · exact huid
      · exact huid.trans (hcond.resolve_left hno)
    subst huid
    obtain ⟨-, -, -, -, -, g', hg', hz, hsnap⟩ := reportMetrics_ok hrun
    have hgg : g' = g := (consistent_reportMetrics hc hrun).hostUID_inj g' hg' g hg
      (((zeroOrEq_iff hhost).mp hz).symm.trans hguid.symm)
    subst hgg hgid
    obtain ⟨hsum, hlast⟩ := snapshotOf_status hr
    refine ⟨hconf, g', hg, hguid, hsnap, ?_, ?_, hchanged, fun u available e he => ?_⟩
    · rw [hsnap, hsum, hm]
    · rw [hsnap, hlast, hseen, Option.getD_some]
    · rcases processMetricBatch_effects h he with heq | heq
      · exact heq.trans hguid.symm
      · rw [heq, hsnap, snapshotOf_hostUID]

end Recorded

def namedBatch (nested agentID : String) : PushMetricBatchRequest where
  hostUID := "h1"
  agentID := agentID
  host := { hostUID := nested, tenantCode := "acme", primaryIP := "10.0.0.2" }
  agent := { agentID := agentID }

def namedReport (nested agentID : String) : StoreTx HostSnapshot :=
  sampleStore.reportMetrics (sampleDraws 4) (namedBatch nested agentID)
    (digestFromMetricBatch (namedBatch nested agentID)) 3000

theorem recordedFor_acme : ∃ snapshot db',
    (namedReport "h1" "a9").transact acmeDatabase = (.ok snapshot, db') ∧
      RecordedFor sampleStore (sampleDraws 4) (namedBatch "h1" "a9") 3000 snapshot
        acmeDatabase db' := by
  have hok : ((namedReport "h1" "a9").run acmeDatabase).isOk = true := by decide
  have hconsistent : acmeDatabase.Consistent := Store.consistent_call _ _ consistent_sampleStart
  cases hr : (namedReport "h1" "a9").run acmeDatabase with
  | error e => simp [hr, Except.isOk, Except.toBool] at hok
  | ok out =>
    have htx := Tx.transact_of_ok hr
    refine ⟨out.1, out.2, htx, ?_⟩
    exact (Store.reportMetrics_recorded_iff sampleStore (sampleDraws 4) (namedBatch "h1" "a9") 3000
      acmeDatabase out.2 out.1 hconsistent (by decide) (by decide) (by decide) (by decide)
      htx).mpr (.inr (by decide))

/-- A new agent reports for `h1` but carries the identity of `h2`: the status row of `h2`
is written, and the snapshot of `h1` is returned and published. -/
theorem reportMetrics_misfiles_batch : ∃ snapshot db',
    (namedReport "h2" "a9").transact acmeDatabase = (.ok snapshot, db') ∧
      ¬ RecordedFor sampleStore (sampleDraws 4) (namedBatch "h2" "a9") 3000 snapshot
        acmeDatabase db' := by
  have hok : ((namedReport "h2" "a9").run acmeDatabase).isOk = true := by decide
  have howns : ¬ ((namedReport "h2" "a9").transact acmeDatabase).2.Owns "h1" 4 := by decide
  have hstatus : ((namedReport "h2" "a9").transact acmeDatabase).2.hostStatusCurrent.get? 4 ≠
      acmeDatabase.hostStatusCurrent.get? 4 := by decide
  cases hr : (namedReport "h2" "a9").run acmeDatabase with
  | error e => simp [hr, Except.isOk, Except.toBool] at hok
  | ok out =>
    rw [Tx.transact_of_ok hr] at howns hstatus
    exact ⟨out.1, out.2, Tx.transact_of_ok hr, fun hrec =>
      hstatus (hrec.confined.hostStatus 4 howns)⟩

end Gaoming
