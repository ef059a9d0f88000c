import Gaoming.HostStoreProgram

/-!
# What the pieces of the host store do

One lemma per function: which rows it can touch (`Uses`), and what a run of it on
its own returns and leaves behind. The results about whole calls are derived
from these without unfolding the functions again.
-/

namespace Gaoming
open Relational Transaction

theorem zeroOrEq_iff {condition value : String} (h : condition ≠ "") :
    zeroOrEq condition value = true ↔ condition = value := by
  simp [zeroOrEq, h]

theorem idsNew_ne_empty {kind suffix : String} : idsNew kind suffix ≠ "" := by
  intro h
  have hlen := congrArg String.length h
  simp [idsNew, String.length_append] at hlen

theorem varchar_length {n : ℕ} {s t : String} (h : varchar n s = some t) (hs : s.length ≤ n) :
    t = s := by
  unfold varchar at h
  split_ifs at h
  exact (Option.some.inj h).symm

/-- Nothing is cut off a text that does not end in white space. -/
theorem varchar_trimSpace {n : ℕ} {s t : String} (h : varchar n (trimSpace s) = some t) :
    t = trimSpace s := by
  by_cases hlen : (trimSpace s).length ≤ n
  · exact varchar_length h hlen
  · exfalso
    unfold varchar at h
    split_ifs at h with hnul hblank
    have hne : (trimSpace s).toList ≠ [] := by
      intro h0
      rw [← String.length_toList, h0] at hlen
      simp at hlen
    have hdrop : (trimSpace s).toList.drop n ≠ [] := by
      rw [Ne, List.drop_eq_nil_iff, String.length_toList]
      exact hlen
    have hlast := List.all_eq_true.mp hblank _ (List.getLast_mem hdrop)
    rw [List.getLast_drop] at hlast
    have hspace := getLast_trimSpace s hne
    rw [beq_iff_eq.mp hlast] at hspace
    exact absurd hspace (by decide)

theorem varchar_ne_empty {n : ℕ} (hn : 0 < n) {s t : String} (h : varchar n s = some t)
    (hs : s ≠ "") : t ≠ "" := by
  unfold varchar at h
  split_ifs at h
  · exact (Option.some.inj h) ▸ hs
  · rw [← Option.some.inj h]
    intro h0
    have hnil : n = 0 ∨ s = "" := by simpa using congrArg String.toList h0
    rcases hnil with h0 | h0
    · omega
    · exact hs h0

theorem HostStatusRow.stored_spec {cols : Columns} {r r' : HostStatusRow}
    (h : r.stored cols = some r') : r'.hostID = r.hostID ∧ r'.version = r.version ∧
      r.toSummaryMetrics.stored cols = some r'.toSummaryMetrics ∧
      r'.lastAgentSeenAt = r.lastAgentSeenAt.map timestamptz ∧
      r'.lastMetricAt = r.lastMetricAt.map timestamptz ∧ r'.agentState = r.agentState ∧
      r'.reachabilityState = r.reachabilityState ∧ r'.overallState = r.overallState := by
  simp only [stored, Option.bind_eq_bind, Option.bind_eq_some_iff, Option.pure_def,
    Option.some.injEq] at h
  obtain ⟨m, hm, rfl⟩ := h
  exact ⟨rfl, rfl, hm, rfl, rfl, rfl, rfl, rfl⟩

theorem HostRow.stored_spec {cols : Columns} {r r' : HostRow} (h : r.stored cols = some r') :
    r'.id = r.id ∧ r'.tenantID = r.tenantID ∧ varchar 64 r.hostUID = some r'.hostUID := by
  simp only [stored, Option.bind_eq_bind, Option.bind_eq_some_iff, Option.pure_def,
    Option.some.injEq] at h
  obtain ⟨uid, huid, _, _, _, _, _, _, _, _, _, _, _, _, _, _, _, _, rfl⟩ := h
  exact ⟨rfl, rfl, huid⟩

theorem TenantRow.stored_spec {r r' : TenantRow} (h : r.stored = some r') :
    r'.id = r.id ∧ varchar 64 r.tenantCode = some r'.tenantCode := by
  simp only [stored, Option.bind_eq_bind, Option.bind_eq_some_iff, Option.pure_def,
    Option.some.injEq] at h
  obtain ⟨code, hcode, _, _, rfl⟩ := h
  exact ⟨rfl, hcode⟩

theorem AgentInstanceRow.stored_spec {r r' : AgentInstanceRow} (h : r.stored = some r') :
    r'.id = r.id ∧ r'.hostID = r.hostID := by
  simp only [stored, Option.bind_eq_bind, Option.bind_eq_some_iff, Option.pure_def,
    Option.some.injEq] at h
  obtain ⟨_, _, _, _, _, _, rfl⟩ := h
  exact ⟨rfl, rfl⟩

theorem HostLabelRow.stored_spec {r r' : HostLabelRow} (h : r.stored = some r') :
    r'.hostID = r.hostID := by
  simp only [stored, Option.bind_eq_bind, Option.bind_eq_some_iff, Option.pure_def,
    Option.some.injEq] at h
  obtain ⟨_, _, _, _, rfl⟩ := h
  rfl

theorem HostLabelRow.stored_all {hostID : Serial} {rows rows' : List HostLabelRow}
    (h : rows.mapM HostLabelRow.stored = some rows') (hrows : ∀ r ∈ rows, r.hostID = hostID) :
    ∀ r ∈ rows', r.hostID = hostID := by
  induction rows generalizing rows' with
  | nil =>
    simp only [List.mapM_nil, Option.pure_def, Option.some.injEq] at h
    subst h
    simp
  | cons r rows ih =>
    simp only [List.mapM_cons, Option.bind_eq_bind, Option.bind_eq_some_iff, Option.pure_def,
      Option.some.injEq] at h
    obtain ⟨r', hr, rest, hrest, rfl⟩ := h
    intro x hx
    rcases List.mem_cons.mp hx with rfl | hx
    · exact (stored_spec hr).trans (hrows r (by simp))
    · exact ih hrest (fun y hy => hrows y (by simp [hy])) x hx

section QueryText
variable {α β : Type} {params : List String} {f : Database → α} {db : Database}

theorem run_queryText (h : params.any hasNul = false) :
    (queryText params f).run db = .ok (f db, db) := by
  rw [queryText, Tx.run_exec, if_neg (by rw [h]; exact Bool.false_ne_true)]
  rfl

theorem run_queryText_nul (h : params.any hasNul = true) :
    (queryText params f).run db = .error .database := by
  rw [queryText, Tx.run_exec, if_pos h]
  rfl

theorem queryText_bind_ok {k : α → StoreTx β} {out : β × Database}
    (h : (queryText params f >>= k).run db = .ok out) :
    params.any hasNul = false ∧ (k (f db)).run db = .ok out := by
  cases hnul : params.any hasNul with
  | true =>
    rw [Tx.run_bind_of_error (run_queryText_nul hnul)] at h
    cases h
  | false =>
    rw [Tx.run_bind_of_ok (run_queryText hnul)] at h
    exact ⟨rfl, h⟩

theorem uses_queryText_bind {q : Access → Prop} {k : α → StoreTx β}
    (h : ∀ db, (k (f db)).Uses q) : (queryText params f >>= k).Uses q := by
  refine Tx.uses_exec_bind fun db a as he => ?_
  split_ifs at he
  cases he
  exact ⟨by simp, h db⟩

end QueryText

section Rows
variable {R : Type} {row : Option R} {found refused : Database → R → Bool}
  {write : R → List Access} {db db' : Database} {u : Unit}

theorem insertRow_ok : (insertRow row refused write).run db = .ok (u, db') ↔
    ∃ r, row = some r ∧ refused db r = false ∧ db' = Tx.view db (write r) := by
  rw [insertRow, Tx.run_exec]
  cases row with
  | none => simp [Except.map]
  | some r =>
    cases hr : refused db r
    · simp only [Except.map, hr, Bool.false_eq_true, if_false, Except.ok.injEq, Prod.mk.injEq,
        true_and, Option.some.injEq, exists_eq_left']
      exact eq_comm
    · simp [Except.map, hr]

theorem insertRow_error {e : StoreError} (h : (insertRow row refused write).run db = .error e) :
    e = .database := by
  rw [insertRow, Tx.run_exec] at h
  cases row with
  | none => simpa [Except.map, eq_comm] using h
  | some r =>
    cases hr : refused db r
    · simp [Except.map, hr] at h
    · simpa [Except.map, hr, eq_comm] using h

/-- On its own, `Save` writes the row whether or not there was one. -/
theorem run_saveRow : (saveRow row found refused write).run db =
    (insertRow row refused write).run db := by
  rw [saveRow, Tx.run_bind, Tx.run_exec, insertRow, Tx.run_exec]
  cases row with
  | none => rfl
  | some r =>
    cases hf : found db r with
    | false => simp [Except.map, Tx.run_exec, hf]
    | true =>
      cases hr : refused db r <;> simp [Except.map, hf, hr]

theorem uses_insertRow {q : Access → Prop} (h : ∀ r, row = some r → ∀ a ∈ write r, q a) :
    (insertRow row refused write).Uses q := by
  refine Tx.uses_exec fun db b as hexec => ?_
  cases row with
  | none => simp at hexec
  | some r =>
    simp only at hexec
    split_ifs at hexec
    simp only [Except.ok.injEq, Prod.mk.injEq] at hexec
    exact hexec.2 ▸ h r rfl

theorem uses_saveRow {q : Access → Prop} (h : ∀ r, row = some r → ∀ a ∈ write r, q a) :
    (saveRow row found refused write).Uses q := by
  refine Tx.uses_exec_bind fun db b as hexec => ?_
  have has : ∀ x ∈ as, q x := by
    cases row with
    | none => simp at hexec
    | some r =>
      simp only at hexec
      split_ifs at hexec
      · simp only [Except.ok.injEq, Prod.mk.injEq] at hexec
        exact hexec.2 ▸ h r rfl
      · simp only [Except.ok.injEq, Prod.mk.injEq] at hexec
        simp [← hexec.2]
  refine ⟨has, ?_⟩
  split_ifs
  · exact Tx.uses_pure _
  · exact uses_insertRow h

end Rows

theorem Database.tenantByCode_spec {db : Database} {code : String} {t : TenantRow}
    (hcode : code ≠ "") (h : db.tenantByCode code = some t) :
    t ∈ db.tenants.rows ∧ t.tenantCode = code := by
  obtain ⟨hm, hz⟩ := Table.mem_of_first h
  exact ⟨hm, ((zeroOrEq_iff hcode).mp hz).symm⟩

theorem Database.hostByUID_spec {db : Database} {hostUID : String} {h : HostRow}
    (huid : hostUID ≠ "") (hh : db.hostByUID hostUID = some h) :
    h ∈ db.hosts.rows ∧ h.hostUID = hostUID := by
  obtain ⟨hm, hz⟩ := Table.mem_of_first hh
  exact ⟨hm, ((zeroOrEq_iff huid).mp hz).symm⟩

theorem Database.hostByUID_eq_none {db : Database} {hostUID : String}
    (hh : db.hostByUID hostUID = none) : ∀ h ∈ db.hosts.rows, h.hostUID ≠ hostUID := by
  intro h hm heq
  have := Table.first_eq_none_iff.mp hh h hm
  simp [zeroOrEq, heq] at this

/-- The tenant row that `FirstOrCreate` leaves: a new one, or the one it found, overwritten. -/
inductive EnsuredTenant (d : Draws) (code name : String) (db : Database) : TenantRow → Prop
  | created (r : TenantRow) (hnone : db.tenantByCode code = none) (hid : r.id = d.tenantID)
      (hcode : varchar 64 code = some r.tenantCode)
      (hfresh : ∀ t ∈ db.tenants.rows, t.id ≠ r.id ∧ t.tenantCode ≠ r.tenantCode) :
      EnsuredTenant d code name db r
  | assigned (t : TenantRow) (n : String) (hsome : db.tenantByCode code = some t)
      (hname : varchar 128 name = some n) : EnsuredTenant d code name db
        { t with name := n, status := 1, updatedAt := timestamptz d.clock }

theorem ensureTenant_ok {d : Draws} {code name : String} {db db' : Database} {t : TenantRow}
    (h : (ensureTenant d code name).run db = .ok (t, db')) :
    ∃ r, EnsuredTenant d code name db r ∧ t.id = r.id ∧
      db' = { db with tenants := db.tenants.put r } := by
  replace h := (queryText_bind_ok h).2
  cases hf : db.tenantByCode code with
  | none =>
    rw [hf] at h
    obtain ⟨u, db₁, hins, hret⟩ := Tx.run_bind_eq_ok.mp h
    simp only [Tx.run_pure, Except.ok.injEq, Prod.mk.injEq] at hret
    obtain ⟨rfl, rfl⟩ := hret
    obtain ⟨r, hr, hrefused, rfl⟩ := insertRow_ok.mp hins
    obtain ⟨hid, hcode⟩ := TenantRow.stored_spec hr
    refine ⟨r, .created r hf hid hcode ?_, hid.symm, rfl⟩
    simpa [not_or] using hrefused
  | some t₀ =>
    rw [hf] at h
    obtain ⟨u, db₁, hupd, hret⟩ := Tx.run_bind_eq_ok.mp h
    simp only [Tx.run_pure, Except.ok.injEq, Prod.mk.injEq] at hret
    obtain ⟨rfl, rfl⟩ := hret
    obtain ⟨hmem, hz⟩ := Table.mem_of_first hf
    rw [assignTenant, Tx.run_exec, Table.get?_of_mem hmem] at hupd
    simp only [hz, if_true] at hupd
    cases hn : varchar 128 name with
    | none => simp [hn, Except.map] at hupd
    | some n =>
      simp only [hn, Except.map, Except.ok.injEq, Prod.mk.injEq] at hupd
      exact ⟨_, .assigned t₀ n hf hn, rfl, hupd.2.symm⟩

def Database.tenantCodeOfHost (db : Database) (hostUID : String) : String :=
  (((db.hostByUID hostUID).bind fun h => db.tenants.get? h.tenantID).map
    TenantRow.tenantCode).getD ""

theorem lookupTenantCodeByHostUID_ok {hostUID code : String} {db db' : Database}
    (h : (lookupTenantCodeByHostUID hostUID).run db = .ok (code, db')) :
    code = db.tenantCodeOfHost hostUID ∧ db' = db := by
  replace h := (queryText_bind_ok h).2
  unfold Database.tenantCodeOfHost
  cases hf : db.hostByUID hostUID with
  | none =>
    rw [hf] at h
    cases h
    exact ⟨rfl, rfl⟩
  | some g =>
    rw [hf] at h
    cases h
    exact ⟨rfl, rfl⟩

/-- The code that `resolveTenantForRegister` passes to `ensureTenant`. -/
def Store.registerTenantCode (s : Store) (d : Draws) (db : Database)
    (hostUID tenantCode : String) : String :=
  orElse (s.requestedTenantCode (db.tenantCodeOfHost hostUID) tenantCode)
    (idsNew "tenant" d.tenantSuffix)

theorem Store.registerTenantCode_ne {s : Store} {d : Draws} {db : Database}
    {hostUID tenantCode : String} : s.registerTenantCode d db hostUID tenantCode ≠ "" := by
  unfold registerTenantCode orElse
  split_ifs with h
  · exact idsNew_ne_empty
  · exact h

theorem Store.resolveTenantForRegister_ok {s : Store} {d : Draws} {hostUID tenantCode : String}
    {db db' : Database} {out : Serial × String}
    (h : (s.resolveTenantForRegister d hostUID tenantCode).run db = .ok (out, db')) :
    ∃ r, EnsuredTenant d (s.registerTenantCode d db hostUID tenantCode)
        (s.registerTenantCode d db hostUID tenantCode) db r ∧
      out.1 = r.id ∧ db' = { db with tenants := db.tenants.put r } := by
  obtain ⟨existing, db₀, hlookup, h⟩ := Tx.run_bind_eq_ok.mp h
  obtain ⟨rfl, rfl⟩ := lookupTenantCodeByHostUID_ok hlookup
  obtain ⟨t, db₁, hens, hret⟩ := Tx.run_bind_eq_ok.mp h
  simp only [Tx.run_pure, Except.ok.injEq, Prod.mk.injEq] at hret
  obtain ⟨rfl, rfl⟩ := hret
  exact ensureTenant_ok hens

/-- The code that `resolveTenantForMetric` looks for. -/
def Store.metricTenantCode (s : Store) (db : Database) (hostUID tenantCode : String) : String :=
  trimSpace (s.requestedTenantCode (db.tenantCodeOfHost hostUID) tenantCode)

theorem Store.resolveTenantForMetric_ok {s : Store} {hostUID tenantCode : String}
    {db db' : Database} {out : Serial × String}
    (h : (s.resolveTenantForMetric hostUID tenantCode).run db = .ok (out, db')) :
    db' = db ∧ s.metricTenantCode db hostUID tenantCode ≠ "" ∧
      ∃ t, db.tenantByCode (s.metricTenantCode db hostUID tenantCode) = some t ∧ out.1 = t.id := by
  obtain ⟨existing, db₀, hlookup, h⟩ := Tx.run_bind_eq_ok.mp h
  obtain ⟨rfl, hdb⟩ := lookupTenantCodeByHostUID_ok hlookup
  rw [hdb] at h
  change
    (if s.metricTenantCode db hostUID tenantCode = "" then _ else _ : StoreTx _).run db = _ at h
  split_ifs at h with hne
  · simp at h
  · refine ⟨?_, hne, ?_⟩
    all_goals
      replace h := (queryText_bind_ok h).2
      cases ht : db.tenantByCode (s.metricTenantCode db hostUID tenantCode) with
      | none =>
        rw [metricTenantCode] at ht
        simp [ht] at h
      | some t =>
        rw [metricTenantCode] at ht
        simp only [ht, Tx.run_pure, Except.ok.injEq, Prod.mk.injEq] at h
        simp [← h.1, ← h.2]

theorem Store.upsertHost_ok {s : Store} {d : Draws} {tenantID hostID : Serial} {hostUID : String}
    {req : RegisterAgentRequest} {now : Time} {db db' : Database} (huid : hostUID ≠ "")
    (h : (s.upsertHost d tenantID hostUID req now).run db = .ok (hostID, db')) :
    ∃ r : HostRow, r.id = hostID ∧ r.tenantID = tenantID ∧ varchar 64 hostUID = some r.hostUID ∧
      hostRefused db r = false ∧ db' = { db with hosts := db.hosts.put r } ∧
      (db.hostByUID hostUID = none ∧ db.hosts.get? hostID = none ∨
        ∃ g, db.hostByUID hostUID = some g ∧ g.id = hostID) := by
  replace h := (queryText_bind_ok h).2
  cases hf : db.hostByUID hostUID with
  | none =>
    rw [hf] at h
    obtain ⟨u, db₁, hins, hret⟩ := Tx.run_bind_eq_ok.mp h
    simp only [Tx.run_pure, Except.ok.injEq, Prod.mk.injEq] at hret
    obtain ⟨rfl, rfl⟩ := hret
    obtain ⟨r, hr, hrefused, rfl⟩ := insertRow_ok.mp hins
    obtain ⟨hid, hten, hvar⟩ := HostRow.stored_spec hr
    simp only [Bool.or_eq_false_iff, Option.isSome_eq_false_iff, Option.isNone_iff_eq_none]
      at hrefused
    rw [hid] at hrefused
    exact ⟨r, hid, hten, hvar, hrefused.2, rfl, .inl ⟨rfl, hrefused.1⟩⟩
  | some g =>
    rw [hf] at h
    obtain ⟨u, db₁, hsave, hret⟩ := Tx.run_bind_eq_ok.mp h
    simp only [Tx.run_pure, Except.ok.injEq, Prod.mk.injEq] at hret
    obtain ⟨rfl, rfl⟩ := hret
    rw [saveHost, run_saveRow] at hsave
    obtain ⟨r, hr, hrefused, rfl⟩ := insertRow_ok.mp hsave
    obtain ⟨hid, hten, hvar⟩ := HostRow.stored_spec hr
    rw [(Database.hostByUID_spec huid hf).2] at hvar
    exact ⟨r, hid, hten, hvar, hrefused, rfl, .inr ⟨g, rfl, rfl⟩⟩

/-- Accesses to the labels and agents of one host. -/
def Access.Beside (hostID : Serial) : Access → Prop
  | .putHostLabel r => r.hostID = hostID
  | .eraseHostLabel k => k.1 = hostID
  | .putAgentInstance r => r.hostID = hostID
  | .lockAgentID h _ => h = hostID
  | _ => False

/-- Accesses to the status of one host. -/
def Access.OnStatus (hostID : Serial) : Access → Prop
  | .readHostStatus h => h = hostID
  | .putHostStatus r => r.hostID = hostID
  | _ => False

section OnHost
variable {d : Draws} {hostID : Serial} {now : Time}

theorem uses_insertHostLabels {rows : List HostLabelRow} (h : ∀ r ∈ rows, r.hostID = hostID) :
    (insertHostLabels rows).Uses (Access.Beside hostID) := by
  refine uses_insertRow fun rows' hrows a ha => ?_
  obtain ⟨r, hr, rfl⟩ := List.mem_map.mp ha
  exact HostLabelRow.stored_all hrows h r hr

theorem uses_replaceLabels (labels : StringMap) :
    (replaceLabels hostID labels).Uses (Access.Beside hostID) := by
  refine Tx.uses_exec_bind fun db u as h => ?_
  simp only [Except.ok.injEq, Prod.mk.injEq] at h
  refine ⟨?_, ?_⟩
  · intro a ha
    rw [← h.2] at ha
    obtain ⟨l, hl, rfl⟩ := List.mem_map.mp ha
    have hhost : l.hostID = hostID := by simpa using (Table.mem_select.mp hl).2
    exact hhost
  · split_ifs
    · exact Tx.uses_pure _
    · refine uses_insertHostLabels fun r hr => ?_
      obtain ⟨kv, -, rfl⟩ := List.mem_map.mp hr
      rfl

theorem uses_upsertAgentInstance (req : RegisterAgentRequest) :
    (upsertAgentInstance d hostID req now).Uses (Access.Beside hostID) := by
  refine uses_queryText_bind fun db => ?_
  split
  · refine Tx.uses_bind (uses_insertRow fun r hr a ha => ?_) fun _ => Tx.uses_pure _
    have hid := (AgentInstanceRow.stored_spec hr).2
    simp only [List.mem_cons, List.not_mem_nil, or_false] at ha
    rcases ha with rfl | rfl <;> exact hid
  · rename_i agent hagent
    have hhost : agent.hostID = hostID := by
      have := (Table.mem_of_first hagent).2
      simp only [Bool.and_eq_true, decide_eq_true_eq] at this
      exact this.1
    refine Tx.uses_bind (uses_saveRow fun r hr a ha => ?_) fun _ => Tx.uses_pure _
    have hid := (AgentInstanceRow.stored_spec hr).2
    simp only [List.mem_singleton] at ha
    subst ha
    exact hid.trans hhost

theorem uses_insertHostStatus {cols : Columns} {row : HostStatusRow} (h : row.hostID = hostID) :
    (insertHostStatus cols row).Uses (Access.OnStatus hostID) := by
  refine uses_insertRow fun r hr a ha => ?_
  simp only [List.mem_singleton] at ha
  subst ha
  exact (HostStatusRow.stored_spec hr).1.trans h

theorem uses_saveHostStatus {cols : Columns} {row : HostStatusRow} (h : row.hostID = hostID) :
    (saveHostStatus cols row).Uses (Access.OnStatus hostID) := by
  refine uses_saveRow fun r hr a ha => ?_
  simp only [List.mem_singleton] at ha
  subst ha
  exact (HostStatusRow.stored_spec hr).1.trans h

/-- The continuation of a status read sees a row of that host, or none. -/
theorem uses_findHostStatus_bind {α : Type} {k : Option HostStatusRow → StoreTx α}
    (h : ∀ o : Option HostStatusRow, (∀ r ∈ o, r.hostID = hostID) →
      (k o).Uses (Access.OnStatus hostID)) :
    (findHostStatus hostID >>= k).Uses (Access.OnStatus hostID) := by
  refine Tx.uses_exec_bind fun db o as ho => ?_
  simp only [Except.ok.injEq, Prod.mk.injEq] at ho
  obtain ⟨rfl, rfl⟩ := ho
  exact ⟨by simp [Access.OnStatus], h _ fun r hr => Table.key_of_get? hr⟩

theorem Store.uses_upsertRegisteredStatus (s : Store) :
    (s.upsertRegisteredStatus d hostID now).Uses (Access.OnStatus hostID) := by
  refine uses_findHostStatus_bind fun o ho => ?_
  cases o with
  | none => exact uses_insertHostStatus rfl
  | some r => exact uses_saveHostStatus (ho r rfl)

theorem Store.uses_upsertDigestStatus (s : Store) (digest : AgentDigest) :
    (s.upsertDigestStatus d hostID digest now).Uses (Access.OnStatus hostID) := by
  refine uses_findHostStatus_bind fun o ho => ?_
  have hrow : (o.getD (.initial hostID)).hostID = hostID := by
    cases o with
    | none => rfl
    | some r => exact ho r rfl
  dsimp only
  split_ifs
  · exact uses_insertHostStatus hrow
  · exact uses_saveHostStatus hrow

theorem uses_updateAgentInstanceState (agentID : String) (seq : Int64) :
    (updateAgentInstanceState hostID agentID seq now).Uses (Access.Beside hostID) := by
  refine Tx.uses_exec fun db u as h => ?_
  split_ifs at h
  simp only [Except.ok.injEq, Prod.mk.injEq] at h
  intro a ha
  rw [← h.2] at ha
  obtain ⟨r, hr, rfl⟩ := List.mem_map.mp ha
  have := (Table.mem_select.mp hr).2
  simp only [Bool.and_eq_true, decide_eq_true_eq] at this
  exact this.1

end OnHost

/-- Everything but the labels, agents and status of one host is as it was. -/
structure SameOutside (hostID : Serial) (db db' : Database) : Prop where
  tenants : db'.tenants = db.tenants
  hosts : db'.hosts = db.hosts
  hostLabels : ∀ l : HostLabelRow, l.hostID ≠ hostID →
    (l ∈ db'.hostLabels.rows ↔ l ∈ db.hostLabels.rows)
  hostStatus : ∀ h, h ≠ hostID → db'.hostStatusCurrent.get? h = db.hostStatusCurrent.get? h

theorem SameOutside.refl (hostID : Serial) (db : Database) : SameOutside hostID db db :=
  ⟨rfl, rfl, fun _ _ => Iff.rfl, fun _ _ => rfl⟩

theorem SameOutside.trans {hostID : Serial} {db₁ db₂ db₃ : Database}
    (h : SameOutside hostID db₁ db₂) (h' : SameOutside hostID db₂ db₃) :
    SameOutside hostID db₁ db₃ where
  tenants := h'.tenants.trans h.tenants
  hosts := h'.hosts.trans h.hosts
  hostLabels := fun l hl => (h'.hostLabels l hl).trans (h.hostLabels l hl)
  hostStatus := fun k hk => (h'.hostStatus k hk).trans (h.hostStatus k hk)

theorem SameOutside.of_beside {hostID : Serial} {db : Database} {a : Access}
    (ha : a.Beside hostID) : SameOutside hostID db (db.apply a) := by
  cases a with
  | putHostLabel r =>
    refine ⟨rfl, rfl, fun l hl => ?_, fun _ _ => rfl⟩
    have hne : l ≠ r := fun h => hl (h ▸ ha)
    have hkey : l.key ≠ r.key := fun h => hl ((congrArg Prod.fst h).trans ha)
    simp [hne, hkey]
  | eraseHostLabel k =>
    refine ⟨rfl, rfl, fun l hl => ?_, fun _ _ => rfl⟩
    have hkey : l.key ≠ k := fun h => hl ((congrArg Prod.fst h).trans ha)
    simp [hkey]
  | putAgentInstance r => exact ⟨rfl, rfl, fun _ _ => Iff.rfl, fun _ _ => rfl⟩
  | lockAgentID h i => exact .refl hostID db
  | _ => exact ha.elim

theorem SameOutside.of_onStatus {hostID : Serial} {db : Database} {a : Access}
    (ha : a.OnStatus hostID) : SameOutside hostID db (db.apply a) := by
  cases a with
  | putHostStatus r =>
    refine ⟨rfl, rfl, fun _ _ => Iff.rfl, fun h hh => ?_⟩
    exact Table.get?_put_of_ne _ fun heq => hh (heq.symm.trans ha)
  | readHostStatus h => exact .refl hostID db
  | _ => exact ha.elim

section Runs
variable {α : Type} {hostID : Serial} {p : StoreTx α} {db db' : Database} {r : α}

theorem SameOutside.of_run_beside (hp : p.Uses (Access.Beside hostID))
    (hr : p.run db = .ok (r, db')) : SameOutside hostID db db' :=
  hp.run_induction (I := SameOutside hostID db) (fun _ _ ha h => h.trans (.of_beside ha)) hr
    (.refl hostID db)

theorem SameOutside.of_run_onStatus (hp : p.Uses (Access.OnStatus hostID))
    (hr : p.run db = .ok (r, db')) : SameOutside hostID db db' :=
  hp.run_induction (I := SameOutside hostID db) (fun _ _ ha h => h.trans (.of_onStatus ha)) hr
    (.refl hostID db)

theorem hostStatus_of_run_beside (hp : p.Uses (Access.Beside hostID))
    (hr : p.run db = .ok (r, db')) : db'.hostStatusCurrent = db.hostStatusCurrent := by
  refine hp.run_induction (I := fun x => x.hostStatusCurrent = db.hostStatusCurrent) ?_ hr rfl
  intro x a ha hx
  cases a <;> first | exact hx | exact ha.elim

end Runs

/-- The version a status row gets when it is written next. -/
def nextVersion (o : Option HostStatusRow) : Int64 := (o.map fun r => r.version + 1).getD 1

/-- The states of a host whose agent has been seen; nothing sets the reachability. -/
structure HostStatusRow.SeenAt (now : Time) (before : Option HostStatusRow) (r : HostStatusRow) :
    Prop where
  agentState : r.agentState = .up
  overallState : r.overallState = .up
  reachabilityState : r.reachabilityState =
    (before.map HostStatusRow.reachabilityState).getD .unknown
  lastAgentSeenAt : r.lastAgentSeenAt = some (timestamptz now)

theorem HostStatusRow.SeenAt.trans {now now' : Time} {before : Option HostStatusRow}
    {r r' : HostStatusRow} (h : r.SeenAt now before) (h' : r'.SeenAt now' (some r)) :
    r'.SeenAt now' before :=
  ⟨h'.agentState, h'.overallState, h'.reachabilityState.trans h.reachabilityState,
    h'.lastAgentSeenAt⟩

section Status
variable {s : Store} {d : Draws} {hostID : Serial} {now : Time} {db db' : Database} {u : Unit}

theorem run_findHostStatus_bind {α : Type} (k : Option HostStatusRow → StoreTx α) :
    (findHostStatus hostID >>= k).run db = (k (db.hostStatusCurrent.get? hostID)).run db :=
  Tx.run_bind_of_ok rfl

/-- The foreign key of a status row. -/
theorem host_of_not_refused {r : HostStatusRow} (hid : r.hostID = hostID)
    (h : hostStatusRefused db r = false) : (db.hosts.get? hostID).isSome = true := by
  rw [hostStatusRefused, hid, Option.isNone_eq_false_iff] at h
  exact h

theorem Store.upsertRegisteredStatus_ok
    (h : (s.upsertRegisteredStatus d hostID now).run db = .ok (u, db')) :
    ∃ r : HostStatusRow, r.hostID = hostID ∧
      r.version = nextVersion (db.hostStatusCurrent.get? hostID) ∧
      r.SeenAt now (db.hostStatusCurrent.get? hostID) ∧ (db.hosts.get? hostID).isSome = true ∧
      db' = { db with hostStatusCurrent := db.hostStatusCurrent.put r } := by
  rw [upsertRegisteredStatus, run_findHostStatus_bind] at h
  cases hf : db.hostStatusCurrent.get? hostID with
  | none =>
    rw [hf] at h
    obtain ⟨r, hr, hrefused, rfl⟩ := insertRow_ok.mp h
    obtain ⟨hid, hver, -, hseen, -, hagent, hreach, hoverall⟩ := HostStatusRow.stored_spec hr
    simp only [Bool.or_eq_false_iff] at hrefused
    exact ⟨r, hid, hver, ⟨hagent, hoverall, hreach, hseen⟩, host_of_not_refused hid hrefused.2, rfl⟩
  | some old =>
    rw [hf] at h
    simp only [saveHostStatus, run_saveRow] at h
    obtain ⟨r, hr, hrefused, rfl⟩ := insertRow_ok.mp h
    obtain ⟨hid, hver, -, hseen, -, hagent, hreach, hoverall⟩ := HostStatusRow.stored_spec hr
    have hold : old.hostID = hostID := Table.key_of_get? hf
    have hrid : r.hostID = hostID := hid.trans hold
    exact ⟨r, hrid, hver, ⟨hagent, hoverall, hreach, hseen⟩, host_of_not_refused hrid hrefused, rfl⟩

theorem Store.upsertDigestStatus_ok {digest : AgentDigest}
    (h : (s.upsertDigestStatus d hostID digest now).run db = .ok (u, db')) :
    ∃ r : HostStatusRow, r.hostID = hostID ∧
      r.version = ((db.hostStatusCurrent.get? hostID).getD (.initial hostID)).version + 1 ∧
      digest.toSummaryMetrics.stored s.columns = some r.toSummaryMetrics ∧
      r.lastMetricAt = some (timestamptz now) ∧
      r.SeenAt now (db.hostStatusCurrent.get? hostID) ∧ (db.hosts.get? hostID).isSome = true ∧
      db' = { db with hostStatusCurrent := db.hostStatusCurrent.put r } := by
  rw [upsertDigestStatus, run_findHostStatus_bind] at h
  set old := (db.hostStatusCurrent.get? hostID).getD (.initial hostID) with hold
  have hid : old.hostID = hostID := by
    cases hf : db.hostStatusCurrent.get? hostID with
    | none => simp [hold, hf, HostStatusRow.initial]
    | some r => simpa [hold, hf] using Table.key_of_get? hf
  dsimp only at h
  split_ifs at h with hzero
  · -- a row with version zero exists already, so its insertion is refused
    obtain ⟨r, hr, hrefused, rfl⟩ := insertRow_ok.mp h
    have hrid : r.hostID = hostID := (HostStatusRow.stored_spec hr).1.trans hid
    exfalso
    cases hf : db.hostStatusCurrent.get? hostID with
    | none => simp [hold, hf, HostStatusRow.initial] at hzero
    | some r => simp [hrid, hf] at hrefused
  · simp only [saveHostStatus, run_saveRow] at h
    obtain ⟨r, hr, hrefused, rfl⟩ := insertRow_ok.mp h
    obtain ⟨hrid, hver, hm, hseen, hmetric, hagent, hreach, hoverall⟩ :=
      HostStatusRow.stored_spec hr
    refine ⟨r, hrid.trans hid, hver, hm, hmetric, ⟨hagent, hoverall, hreach.trans ?_, hseen⟩,
      host_of_not_refused (hrid.trans hid) hrefused, rfl⟩
    cases hf : db.hostStatusCurrent.get? hostID with
    | none => simp [hold, hf, HostStatusRow.initial]
    | some r => simp [hold, hf]

theorem Store.upsertDigestStatus_error {digest : AgentDigest} {e : StoreError}
    (h : (s.upsertDigestStatus d hostID digest now).run db = .error e) : e = .database := by
  rw [upsertDigestStatus, run_findHostStatus_bind] at h
  dsimp only at h
  split_ifs at h
  · exact insertRow_error h
  · rw [saveHostStatus, run_saveRow] at h
    exact insertRow_error h

end Status

/-- The agent row that `findAgentInstance` returns. -/
def Database.agentOf (db : Database) (hostID : Serial) (agentID : String) :
    Option AgentInstanceRow :=
  db.agentInstances.first AgentInstanceRow.id fun a =>
    a.hostID = hostID && zeroOrEq agentID a.agentID

def Store.hostInTenants (s : Store) (db : Database) (hostUID : String) (limit : Bool) :
    Option HostRow :=
  db.hosts.first HostRow.id fun h =>
    zeroOrEq hostUID h.hostUID && (!limit || h.tenantID = s.defaultTenantID)

/-- A host that `lookupAgentInstance` tries, with an agent that matches. -/
def Store.KnownAgent (s : Store) (db : Database) (hostUID agentID : String) (h : HostRow) : Prop :=
  (s.hostInTenants db hostUID true = some h ∨ s.hostInTenants db hostUID false = some h) ∧
    (db.agentOf h.id agentID).isSome

def Database.configOf (db : Database) (agentID : String) (h : HostRow) :
    Option (Serial × AgentConfig) :=
  (db.agentOf h.id agentID).map fun a =>
    (h.id, ⟨a.configVersion, a.heartbeatIntervalSec, a.metricIntervalSec, ∅⟩)

def Store.agentFound (s : Store) (db : Database) (hostUID agentID : String) :
    Option (Serial × AgentConfig) :=
  ((s.hostInTenants db hostUID true).bind (db.configOf agentID)).or
    ((s.hostInTenants db hostUID false).bind (db.configOf agentID))

section Lookup
variable {s : Store} {db : Database} {hostUID agentID : String}

theorem run_findAgentInstance (hnul : hasNul agentID = false) (hostID : Serial) :
    (findAgentInstance hostID agentID).run db = .ok (db.agentOf hostID agentID, db) :=
  run_queryText (by simpa using hnul)

theorem run_findAgentConfig (hnul : hasNul agentID = false) (hostID : Serial) :
    (findAgentConfig hostID agentID).run db = .ok ((db.agentOf hostID agentID).map fun a =>
      ⟨a.configVersion, a.heartbeatIntervalSec, a.metricIntervalSec, ∅⟩, db) := by
  rw [findAgentConfig, Tx.run_bind_of_ok (run_findAgentInstance hnul hostID)]
  cases db.agentOf hostID agentID with
  | none => rfl
  | some a => rfl

theorem run_findAgentConfig_nul (hnul : hasNul agentID = true) (hostID : Serial) :
    (findAgentConfig hostID agentID).run db = .error .database :=
  Tx.run_bind_of_error (run_queryText_nul (by simpa using hnul))

theorem Store.run_findHostByUID (hnul : hasNul hostUID = false) (limit : Bool) :
    (s.findHostByUID hostUID limit).run db = .ok (s.hostInTenants db hostUID limit, db) :=
  run_queryText (by simpa using hnul)

theorem Store.run_lookupAgentInTenants (hnul : hasNul hostUID = false) (limit : Bool) :
    (s.lookupAgentInTenants hostUID agentID limit).run db =
      if hasNul agentID = true ∧ (s.hostInTenants db hostUID limit).isSome = true then
        .error .database
      else .ok ((s.hostInTenants db hostUID limit).bind (db.configOf agentID), db) := by
  rw [lookupAgentInTenants, Tx.run_bind_of_ok (run_findHostByUID hnul limit)]
  cases s.hostInTenants db hostUID limit with
  | none => simp
  | some h =>
    cases hagent : hasNul agentID with
    | true =>
      rw [if_pos ⟨rfl, rfl⟩]
      exact Tx.run_bind_of_error (run_findAgentConfig_nul hagent h.id)
    | false =>
      simp only [Tx.run_bind_of_ok (run_findAgentConfig hagent h.id), Tx.run_pure,
        Option.bind_some, Database.configOf, Option.map_map, Bool.false_eq_true, false_and,
        if_false]
      rfl

theorem Store.hostInTenants_false :
    s.hostInTenants db hostUID false = db.hostByUID hostUID := by
  simp [hostInTenants, Database.hostByUID]

theorem Store.isSome_hostByUID_of_hostInTenants {limit : Bool}
    (h : (s.hostInTenants db hostUID limit).isSome = true) :
    (db.hostByUID hostUID).isSome = true := by
  obtain ⟨g, hg⟩ := Option.isSome_iff_exists.mp h
  obtain ⟨hmem, hz⟩ := Table.mem_of_first hg
  simp only [Bool.and_eq_true] at hz
  rw [Option.isSome_iff_ne_none]
  intro hnone
  simpa [hz.1] using Table.first_eq_none_iff.mp hnone g hmem

/-- A text with a NUL comes to a statement: the host UID does at once, the agent ID where a
host is found. -/
def Store.lookupRefused (db : Database) (hostUID agentID : String) : Bool :=
  hasNul hostUID || hasNul agentID && (db.hostByUID hostUID).isSome

theorem Store.run_lookupAgentInstance :
    (s.lookupAgentInstance hostUID agentID).run db =
      if lookupRefused db hostUID agentID then .error .database
      else .ok (s.agentFound db hostUID agentID, db) := by
  cases huid : hasNul hostUID with
  | true =>
    rw [lookupRefused, huid, Bool.true_or, if_pos rfl]
    exact Tx.run_bind_of_error (Tx.run_bind_of_error (run_queryText_nul (by simpa using huid)))
  | false =>
    rw [lookupRefused, huid, Bool.false_or, lookupAgentInstance, Tx.run_bind,
      run_lookupAgentInTenants huid, agentFound]
    cases hagent : hasNul agentID with
    | false =>
      simp only [Bool.false_eq_true, false_and, if_false, Bool.false_and]
      cases (s.hostInTenants db hostUID true).bind (db.configOf agentID) with
      | none => simp [run_lookupAgentInTenants huid, hagent]
      | some f => rfl
    | true =>
      -- the host of the default tenant is one of the hosts that the second look-up takes
      rw [← s.hostInTenants_false, Bool.true_and]
      by_cases hdefault : (s.hostInTenants db hostUID true).isSome = true
      · have hany := isSome_hostByUID_of_hostInTenants hdefault
        rw [← s.hostInTenants_false] at hany
        rw [if_pos ⟨rfl, hdefault⟩, if_pos hany]
      · rw [if_neg fun h => hdefault h.2]
        rw [Option.not_isSome_iff_eq_none] at hdefault
        simp only [hdefault, Option.bind_none, run_lookupAgentInTenants huid, hagent, true_and,
          Option.none_or]

theorem Store.lookupAgentInstance_bind_ok {β : Type} {k : Option (Serial × AgentConfig) → StoreTx β}
    {out : β × Database}
    (h : (s.lookupAgentInstance hostUID agentID >>= k).run db = .ok out) :
    lookupRefused db hostUID agentID = false ∧
      (k (s.agentFound db hostUID agentID)).run db = .ok out := by
  rw [Tx.run_bind, run_lookupAgentInstance] at h
  split_ifs at h with hrefused
  exact ⟨Bool.eq_false_iff.mpr hrefused, h⟩

theorem Store.agentFound_eq_none_iff :
    s.agentFound db hostUID agentID = none ↔ ¬ ∃ h, s.KnownAgent db hostUID agentID h := by
  simp only [agentFound, KnownAgent, Option.or_eq_none_iff, Option.bind_eq_none_iff,
    Database.configOf, Option.map_eq_none_iff, not_exists, not_and, Option.not_isSome_iff_eq_none,
    or_imp, forall_and]

theorem Store.knownAgent_of_agentFound {f : Serial × AgentConfig}
    (h : s.agentFound db hostUID agentID = some f) :
    ∃ g, s.KnownAgent db hostUID agentID g ∧ f.1 = g.id := by
  simp only [agentFound, Option.or_eq_some_iff, Option.bind_eq_some_iff, Database.configOf,
    Option.map_eq_some_iff] at h
  rcases h with ⟨g, hg, a, ha, rfl⟩ | ⟨-, g, hg, a, ha, rfl⟩
  · exact ⟨g, ⟨.inl hg, by simp [ha]⟩, rfl⟩
  · exact ⟨g, ⟨.inr hg, by simp [ha]⟩, rfl⟩

theorem Store.KnownAgent.mem {h : HostRow} (hk : s.KnownAgent db hostUID agentID h) :
    h ∈ db.hosts.rows ∧ zeroOrEq hostUID h.hostUID = true := by
  rcases hk.1 with hf | hf
  all_goals
    obtain ⟨hm, hz⟩ := Table.mem_of_first hf
    simp only [Bool.and_eq_true] at hz
    exact ⟨hm, hz.1⟩

end Lookup

def Database.snapshotOf (db : Database) (h : HostRow) : HostSnapshot :=
  hostSnapshotFromModel h (db.tenants.get? h.tenantID) (db.hostStatusCurrent.get? h.id)
    (db.hostLabels.select fun l => l.hostID = h.id)

theorem snapshotOf_hostUID {db : Database} {h : HostRow} :
    (db.snapshotOf h).hostUID = h.hostUID := by
  unfold Database.snapshotOf hostSnapshotFromModel
  cases db.hostStatusCurrent.get? h.id <;> rfl

def Database.hostsListed (db : Database) (hostUID tenantCode : String) : List HostRow :=
  (db.hosts.select fun h => zeroOrEq hostUID h.hostUID &&
    (tenantCode = "" || db.tenants.rows.any fun t =>
      t.id = h.tenantID && t.tenantCode = tenantCode)).insertionSort
    fun g h => g.hostUID ≤ h.hostUID

theorem run_listHosts (hostUID tenantCode : String) (db : Database) :
    (listHosts hostUID tenantCode).run db =
      .ok ((db.hostsListed hostUID tenantCode).map db.snapshotOf, db) := rfl

theorem run_getHostByUID (hostUID tenantCode : String) (db : Database) :
    (getHostByUID hostUID tenantCode).run db =
      .ok (((db.hostsListed hostUID tenantCode).map db.snapshotOf).head?, db) := rfl

theorem Database.mem_hostsListed {db : Database} {hostUID : String} {h : HostRow} :
    h ∈ db.hostsListed hostUID "" ↔ h ∈ db.hosts.rows ∧ zeroOrEq hostUID h.hostUID = true := by
  simp [hostsListed, List.mem_insertionSort]

theorem readBack_ok {hostUID : String} {db db' : Database} {snapshot : HostSnapshot}
    (h : (readBack hostUID).run db = .ok (snapshot, db')) :
    db' = db ∧ ∃ g ∈ db.hosts.rows, zeroOrEq hostUID g.hostUID = true ∧
      snapshot = db.snapshotOf g := by
  rw [readBack, Tx.run_bind_of_ok (run_getHostByUID _ _ _)] at h
  cases hl : db.hostsListed hostUID "" with
  | nil => simp [hl] at h
  | cons g rest =>
    simp only [hl, List.map_cons, List.head?_cons, Tx.run_pure, Except.ok.injEq,
      Prod.mk.injEq] at h
    obtain ⟨hm, hz⟩ := Database.mem_hostsListed.mp (show g ∈ db.hostsListed hostUID "" by simp [hl])
    exact ⟨h.2.symm, g, hm, hz, h.1.symm⟩

theorem readBack_of_mem {hostUID : String} {db : Database} {g : HostRow} (hg : g ∈ db.hosts.rows)
    (hz : zeroOrEq hostUID g.hostUID = true) :
    ∃ snapshot, (readBack hostUID).run db = .ok (snapshot, db) := by
  rw [readBack, Tx.run_bind_of_ok (run_getHostByUID _ _ _)]
  have hm := Database.mem_hostsListed.mpr ⟨hg, hz⟩
  cases hl : db.hostsListed hostUID "" with
  | nil => simp [hl] at hm
  | cons h rest => exact ⟨db.snapshotOf h, rfl⟩

end Gaoming
