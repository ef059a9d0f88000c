import Gaoming.HostStoreInterleaving

/-!
# Versions of the status rows

Every write of a status row counts on from a version read before. `Counts n`
follows that through a transaction: each row it has written is at most `n` steps
ahead of the committed one, as long as nobody else writes the rows it has read.
-/

namespace Gaoming
open Relational Transaction

/-- The commit of call `i` gives every row it writes a greater version than it had. -/
def CommitIncreases (s : StoreSys) (i : ℕ) : Prop :=
  ∀ c ∈ (s.committing i).toList, ∀ row ∈ statusWrites c.acc,
    ∀ old ∈ (s.world.db.hostStatusCurrent.get? row.hostID).toList, old.version < row.version

instance (s : StoreSys) (i : ℕ) : Decidable (CommitIncreases s i) :=
  inferInstanceAs (Decidable (∀ c ∈ (s.committing i).toList, ∀ row ∈ statusWrites c.acc,
    ∀ old ∈ (s.world.db.hostStatusCurrent.get? row.hostID).toList, old.version < row.version))

/-- Nobody else has read a row that is now written, and its version is no `int64` limit. -/
def WritesUnread (s : StoreSys) : Event Database StoreCall → Prop
  | .advance i => ∀ c ∈ (s.committing i).toList, ∀ row ∈ statusWrites c.acc,
    (∀ d ∈ s.others i, row.hostID ∉ statusReads d.acc) ∧
    ∀ old ∈ (s.world.db.hostStatusCurrent.get? row.hostID).toList, old.version.toInt + 2 < 2 ^ 63
  | .env _ => False
  | _ => True

/-- The rows of `db'` are those of `db`, or have greater versions. -/
def VersionsFollow (db db' : Database) : Prop :=
  ∀ h old, db.hostStatusCurrent.get? h = some old →
    ∃ new, db'.hostStatusCurrent.get? h = some new ∧ (new = old ∨ old.version < new.version)

theorem VersionsFollow.refl (db : Database) : VersionsFollow db db :=
  fun _ old hold => ⟨old, hold, .inl rfl⟩

theorem VersionsFollow.trans {db₁ db₂ db₃ : Database} (h : VersionsFollow db₁ db₂)
    (h' : VersionsFollow db₂ db₃) : VersionsFollow db₁ db₃ := by
  intro k old hold
  obtain ⟨mid, hmid, hle⟩ := h k old hold
  obtain ⟨new, hnew, hle'⟩ := h' k mid hmid
  refine ⟨new, hnew, ?_⟩
  rcases hle with rfl | hlt
  · exact hle'
  · rcases hle' with rfl | hlt'
    · exact .inr hlt
    · exact .inr (Int64.lt_trans hlt hlt')

theorem lt_of_counted {v v' : Int64} {k : ℕ} (hpos : 0 < k) (hk : k ≤ 2)
    (hv : v.toInt + 2 < 2 ^ 63) (h : v' = v + Int64.ofNat k) : v < v' := by
  have hmin : -2 ^ 63 ≤ v.toInt := Int64.le_toInt v
  have hofNat : (Int64.ofNat k).toInt = k := by interval_cases k <;> rfl
  subst h
  rw [Int64.lt_iff_toInt_lt, Int64.toInt_add, hofNat, Int.bmod_eq_of_le] <;> omega

def Counts (n : ℕ) (acc : List Access) (w : StoreWorld) : Prop :=
  ∀ row ∈ statusWrites acc, row.hostID ∈ statusReads acc ∧
    ∀ old, w.db.hostStatusCurrent.get? row.hostID = some old →
      ∃ k, 0 < k ∧ k ≤ n ∧ row.version = old.version + Int64.ofNat k

/-- What every running call relies on: the status rows it has read stay as they are. -/
def KeepsReads (acc : List Access) (w w' : StoreWorld) : Prop :=
  ∀ h ∈ statusReads acc, w'.db.hostStatusCurrent.get? h = w.db.hostStatusCurrent.get? h

def Access.Quiet (a : Access) : Prop := ∀ r, a ≠ .putHostStatus r

theorem Access.Beside.quiet {hostID : Serial} {a : Access} (h : a.Beside hostID) : a.Quiet := by
  rintro r rfl
  exact h

theorem statusWrites_quiet {as : List Access} (h : ∀ a ∈ as, a.Quiet) : statusWrites as = [] := by
  rw [List.eq_nil_iff_forall_not_mem]
  intro r hr
  exact h _ (mem_statusWrites.mp hr) r rfl

theorem statusReads_append_left {as bs : List Access} {h : Serial} (hh : h ∈ statusReads as) :
    h ∈ statusReads (as ++ bs) :=
  mem_statusReads.mpr (List.mem_append_left _ (mem_statusReads.mp hh))

theorem keepsReads_refl (acc : List Access) (u v : StoreWorld) (_ : KeepsReads acc u v) :
    KeepsReads acc v v := fun _ _ => rfl

theorem counts_nil (n : ℕ) (w : StoreWorld) : Counts n [] w := by
  intro row hrow
  simp [statusWrites] at hrow

section Counting
variable {n : ℕ} {acc : List Access} {w : StoreWorld} {α β : Type}

theorem Counts.mono {m : ℕ} (h : Counts n acc w) (hnm : n ≤ m) : Counts m acc w := by
  intro row hrow
  obtain ⟨hread, hver⟩ := h row hrow
  refine ⟨hread, fun old hold => ?_⟩
  obtain ⟨k, hpos, hk, hv⟩ := hver old hold
  exact ⟨k, hpos, hk.trans hnm, hv⟩

theorem Counts.stable {w' : StoreWorld} (h : Counts n acc w) (as : List Access)
    (hw : KeepsReads (acc ++ as) w w') : Counts n acc w' := by
  intro row hrow
  obtain ⟨hread, hver⟩ := h row hrow
  refine ⟨hread, fun old hold => hver old ?_⟩
  rw [← hw row.hostID (statusReads_append_left hread)]
  exact hold

theorem Counts.append_quiet {as : List Access} (h : Counts n acc w) (has : ∀ a ∈ as, a.Quiet) :
    Counts n (acc ++ as) w := by
  intro row hrow
  rw [statusWrites_append, statusWrites_quiet has, List.append_nil] at hrow
  exact ⟨statusReads_append_left (h row hrow).1, (h row hrow).2⟩

theorem Counts.wp_quiet {p : StoreTx α} (h : Counts n acc w) (hp : p.Uses Access.Quiet) :
    p.wp KeepsReads (fun _ acc w => Counts n acc w) acc w := by
  refine Tx.wp_of_uses hp (P := Counts n acc) ?_ h ?_
  · exact fun as _ v v' hv hc => hc.stable as hv
  · exact fun a as v has hc => hc.append_quiet has

theorem Counts.bind_quiet {p : StoreTx α} {f : α → StoreTx β}
    {post : β → List Access → StoreWorld → Prop} (h : Counts n acc w) (hp : p.Uses Access.Quiet)
    (hf : ∀ a acc w, Counts n acc w → (f a).wp KeepsReads post acc w) :
    (p >>= f).wp KeepsReads post acc w :=
  Tx.wp_bind keepsReads_refl (Tx.wp_mono hf (h.wp_quiet hp))

/-- The write of a row that counts on from what was read. -/
def Access.Follows (hostID : Serial) (o : Option HostStatusRow) (a : Access) : Prop :=
  ∀ r, a = .putHostStatus r → r.hostID = hostID ∧ ∀ cur ∈ o, r.version = cur.version + 1

theorem Counts.findHostStatus_bind {hostID : Serial} {k : Option HostStatusRow → StoreTx α}
    (h : Counts n acc w)
    (hk : ∀ o : Option HostStatusRow, (∀ r ∈ o, r.hostID = hostID) →
      (k o).Uses (Access.Follows hostID o)) :
    (findHostStatus hostID >>= k).wp KeepsReads (fun _ acc w => Counts (n + 1) acc w) acc w := by
  refine Tx.wp_exec fun v hv o as hexec => ?_
  simp only [Except.ok.injEq, Prod.mk.injEq] at hexec
  obtain ⟨ho, rfl⟩ := hexec
  have hc : Counts n acc v := h.stable [] (by simpa using hv)
  have hread : hostID ∈ statusReads (acc ++ [.readHostStatus hostID]) :=
    mem_statusReads.mpr (by simp)
  refine Tx.wp_of_uses (hk o fun r hr => Table.key_of_get? (ho.trans hr))
    (P := fun u => Counts n acc u ∧
      u.db.hostStatusCurrent.get? hostID = v.db.hostStatusCurrent.get? hostID) ?_ ⟨hc, rfl⟩ ?_
  · rintro bs - u u' hu ⟨hcu, hsame⟩
    refine ⟨hcu.stable ([.readHostStatus hostID] ++ bs) ?_, ?_⟩
    · rwa [← List.append_assoc]
    · exact (hu hostID (statusReads_append_left hread)).trans hsame
  · rintro _ bs u hbs ⟨hcu, hsame⟩ row hrow
    rw [statusWrites_append, statusWrites_append, List.mem_append, List.mem_append] at hrow
    rcases hrow with (hrow | hrow) | hrow
    · obtain ⟨hr, hver⟩ := (hcu.mono (Nat.le_succ n)) row hrow
      exact ⟨statusReads_append_left (statusReads_append_left hr), hver⟩
    · simp [statusWrites] at hrow
    -- the row read is the committed one, or one that this transaction wrote before
    · obtain ⟨hid, hver⟩ := hbs _ (mem_statusWrites.mp hrow) row rfl
      refine ⟨?_, fun old hold => ?_⟩
      · rw [hid]
        exact statusReads_append_left hread
      rw [hid, hsame] at hold
      rcases hostStatus_view v.db acc hostID with heq | ⟨r, hr, hrid, hview⟩
      · refine ⟨1, Nat.one_pos, by omega, hver old ?_⟩
        rw [Option.mem_def, ← ho]
        exact heq.trans hold
      · obtain ⟨k, hpos, hkn, hrv⟩ := (hc r hr).2 old (hrid ▸ hold)
        refine ⟨k + 1, by omega, by omega, ?_⟩
        rw [hver r (ho.symm.trans hview), hrv, Int64.ofNat_add]
        exact Int64.add_assoc _ _ _

end Counting

attribute [local irreducible] trimSpace

section Uses
variable {s : Store} {d : Draws} {hostID : Serial} {now : Time}

theorem quiet_ensureTenant (code name : String) : (ensureTenant d code name).Uses Access.Quiet :=
  uses_ensureTenant (fun _ _ h => by cases h) fun _ _ h => by cases h

theorem Store.quiet_resolveTenantForRegister (hostUID tenantCode : String) :
    (s.resolveTenantForRegister d hostUID tenantCode).Uses Access.Quiet :=
  Tx.uses_bind (uses_lookupTenantCodeByHostUID _) fun _ =>
    Tx.uses_bind (quiet_ensureTenant _ _) fun _ => Tx.uses_pure _

theorem Store.quiet_resolveTenantForMetric (hostUID tenantCode : String) :
    (s.resolveTenantForMetric hostUID tenantCode).Uses Access.Quiet := by
  refine Tx.uses_bind (uses_lookupTenantCodeByHostUID _) fun existing => ?_
  refine Tx.uses_ite (Tx.uses_throw _) (uses_queryText_bind fun db => ?_)
  cases db.tenantByCode (trimSpace (s.requestedTenantCode existing tenantCode)) with
  | none => exact Tx.uses_throw _
  | some t => exact Tx.uses_pure _

theorem Store.quiet_upsertHost (tenantID : Serial) (hostUID : String) (req : RegisterAgentRequest) :
    (s.upsertHost d tenantID hostUID req now).Uses Access.Quiet := by
  refine uses_queryText_bind fun db => ?_
  split
  · refine Tx.uses_bind (uses_insertRow fun r _ a ha => ?_) fun _ => Tx.uses_pure _
    simp only [List.mem_cons, List.not_mem_nil, or_false] at ha
    rcases ha with rfl | rfl <;> exact fun _ h => by cases h
  · refine Tx.uses_bind (uses_saveRow fun r _ a ha => ?_) fun _ => Tx.uses_pure _
    simp only [List.mem_singleton] at ha
    exact ha ▸ fun _ h => by cases h

theorem Store.quiet_lookupAgentInstance (hostUID agentID : String) :
    (s.lookupAgentInstance hostUID agentID).Uses Access.Quiet := by
  have htry : ∀ limit, (s.lookupAgentInTenants hostUID agentID limit).Uses Access.Quiet := by
    intro limit
    refine uses_queryText_bind fun db => ?_
    split
    · exact Tx.uses_pure _
    · refine Tx.uses_bind (uses_queryText_bind fun db => ?_) fun _ => Tx.uses_pure _
      split <;> exact Tx.uses_pure _
  refine Tx.uses_bind (htry true) fun found => ?_
  cases found with
  | none => exact htry false
  | some f => exact Tx.uses_pure _

theorem follows_stored {cols : Columns} {o : Option HostStatusRow} {row r : HostStatusRow}
    (hid : row.hostID = hostID) (hver : ∀ cur ∈ o, row.version = cur.version + 1)
    (hr : row.stored cols = some r) : ∀ a ∈ [Access.putHostStatus r], a.Follows hostID o := by
  intro a ha x hx
  rw [List.mem_singleton] at ha
  rw [ha, Access.putHostStatus.injEq] at hx
  obtain ⟨hrid, hrver, -⟩ := HostStatusRow.stored_spec hr
  subst hx
  exact ⟨hrid.trans hid, fun cur hcur => hrver.trans (hver cur hcur)⟩

theorem follows_insertHostStatus {cols : Columns} {o : Option HostStatusRow} {row : HostStatusRow}
    (hid : row.hostID = hostID) (hver : ∀ cur ∈ o, row.version = cur.version + 1) :
    (insertHostStatus cols row).Uses (Access.Follows hostID o) :=
  uses_insertRow fun _ hr => follows_stored hid hver hr

theorem follows_saveHostStatus {cols : Columns} {o : Option HostStatusRow} {row : HostStatusRow}
    (hid : row.hostID = hostID) (hver : ∀ cur ∈ o, row.version = cur.version + 1) :
    (saveHostStatus cols row).Uses (Access.Follows hostID o) :=
  uses_saveRow fun _ hr => follows_stored hid hver hr

end Uses

section Calls
variable {s : Store} {d : Draws} {hostID : Serial} {now : Time} {n : ℕ} {acc : List Access}
  {w : StoreWorld}

theorem Store.counts_upsertRegisteredStatus (h : Counts n acc w) :
    (s.upsertRegisteredStatus d hostID now).wp KeepsReads
      (fun _ acc w => Counts (n + 1) acc w) acc w := by
  refine h.findHostStatus_bind fun o ho => ?_
  cases o with
  | none => exact follows_insertHostStatus rfl (by simp)
  | some r =>
    refine follows_saveHostStatus (ho r rfl) fun cur hcur => ?_
    rw [Option.mem_some.mp hcur]

theorem Store.counts_upsertDigestStatus (digest : AgentDigest) (h : Counts n acc w) :
    (s.upsertDigestStatus d hostID digest now).wp KeepsReads
      (fun _ acc w => Counts (n + 1) acc w) acc w := by
  refine h.findHostStatus_bind fun o ho => ?_
  have hid : (o.getD (.initial hostID)).hostID = hostID := by
    cases o with
    | none => rfl
    | some r => exact ho r rfl
  dsimp only
  split_ifs with hzero
  -- a row of version zero gets version one, which is also its successor
  · refine follows_insertHostStatus hid fun cur hcur => ?_
    rw [Option.mem_def.mp hcur, Option.getD_some] at hzero
    simp [hzero]
  · refine follows_saveHostStatus hid fun cur hcur => ?_
    rw [Option.mem_def.mp hcur, Option.getD_some]

theorem Counts.bind_readBack {α : Type} {hostUID : String} {f : HostSnapshot → α}
    (h : Counts n acc w) : (readBack hostUID >>= fun x => pure (f x)).wp KeepsReads
      (fun _ acc w => Counts n acc w) acc w :=
  h.bind_quiet (uses_readBack hostUID) fun _ _ _ hc =>
    Tx.wp_pure fun _ hv => hc.stable [] (by simpa using hv)

theorem Store.counts_registerAgent (req : RegisterAgentRequest) :
    (s.registerAgent d req now).wp KeepsReads (fun _ acc w => Counts 2 acc w) [] w := by
  refine (counts_nil 0 w).bind_quiet (quiet_resolveTenantForRegister _ _) fun out _ _ h => ?_
  refine h.bind_quiet (quiet_upsertHost _ _ _) fun hostID _ _ h => ?_
  refine h.bind_quiet ((uses_replaceLabels _).mono fun _ => Access.Beside.quiet) fun _ _ _ h => ?_
  refine h.bind_quiet ((uses_upsertAgentInstance _).mono fun _ => Access.Beside.quiet)
    fun cfg _ _ h => ?_
  refine Tx.wp_bind keepsReads_refl (Tx.wp_mono ?_ (counts_upsertRegisteredStatus h))
  exact fun _ _ _ h => (h.mono (by omega)).bind_readBack

theorem Store.counts_heartbeat (req : HeartbeatRequest) :
    (s.heartbeat d req now).wp KeepsReads (fun _ acc w => Counts 2 acc w) [] w := by
  refine (counts_nil 0 w).bind_quiet (quiet_lookupAgentInstance _ _) fun found _ _ h => ?_
  cases found with
  | none => trivial
  | some f =>
    refine h.bind_quiet ((uses_updateAgentInstanceState _ _).mono fun _ => Access.Beside.quiet)
      fun _ _ _ h => ?_
    refine Tx.wp_bind keepsReads_refl (Tx.wp_mono ?_ (counts_upsertDigestStatus _ h))
    exact fun _ _ _ h => (h.mono (by omega)).bind_readBack

theorem Store.counts_bootstrap (req : PushMetricBatchRequest) (h : Counts n acc w) :
    (s.bootstrapHostForMetric d req now).wp KeepsReads
      (fun _ acc w => Counts (n + 1) acc w) acc w := by
  refine Tx.wp_ite (fun _ => Tx.wp_throw) fun _ => ?_
  · refine h.bind_quiet (quiet_resolveTenantForMetric _ _) fun out _ _ h => ?_
    refine h.bind_quiet (quiet_upsertHost _ _ _) fun hostID _ _ h => ?_
    refine h.bind_quiet ((uses_replaceLabels _).mono fun _ => Access.Beside.quiet)
      fun _ _ _ h => ?_
    refine h.bind_quiet ((uses_upsertAgentInstance _).mono fun _ => Access.Beside.quiet)
      fun cfg _ _ h => ?_
    refine Tx.wp_bind keepsReads_refl (Tx.wp_mono ?_ (counts_upsertRegisteredStatus h))
    exact fun _ _ _ hc => Tx.wp_pure fun _ hv => hc.stable [] (by simpa using hv)

theorem Store.counts_hostForMetric (req : PushMetricBatchRequest) :
    (s.hostForMetric d req now).wp KeepsReads (fun _ acc w => Counts 1 acc w) [] w := by
  refine (counts_nil 0 w).bind_quiet (quiet_lookupAgentInstance _ _) fun found _ _ h => ?_
  cases found with
  | none => exact counts_bootstrap req h
  | some f =>
    exact Tx.wp_pure fun _ hv => (h.mono (by omega)).stable [] (by simpa using hv)

theorem Store.counts_reportMetrics (req : PushMetricBatchRequest) (digest : AgentDigest) :
    (s.reportMetrics d req digest now).wp KeepsReads (fun _ acc w => Counts 2 acc w) [] w := by
  refine Tx.wp_bind keepsReads_refl (Tx.wp_mono (fun hostID _ _ h => ?_) (counts_hostForMetric req))
  refine h.bind_quiet ((uses_updateAgentInstanceState _ _).mono fun _ => Access.Beside.quiet)
    fun _ _ _ h => ?_
  refine Tx.wp_bind keepsReads_refl (Tx.wp_mono (fun _ _ _ h => ?_) (counts_upsertDigestStatus _ h))
  exact h.wp_quiet (uses_readBack _)

theorem counts_reconcileOffline :
    (reconcileOffline now).wp KeepsReads (fun _ acc w => Counts 2 acc w) [] w := by
  refine wp_findStale_bind fun v rows hrows => ?_
  refine Tx.wp_of_uses (uses_afterScan rows)
    (P := fun u => ∀ r ∈ rows, u.db.hostStatusCurrent.get? r.hostID = some r) ?_
    (fun r hr => (hrows r hr).2) ?_
  · exact fun as _ u u' hu hP r hr => (hu r.hostID (mem_statusReads_scan hr as)).trans (hP r hr)
  · intro out as u has hP row hrow
    rw [statusWrites_append, statusWrites_scan, List.nil_append, mem_statusWrites] at hrow
    obtain ⟨r, hr, x, hx, hid, hver⟩ := has _ hrow
    rw [Access.putHostStatus.injEq] at hx
    subst hx
    refine ⟨hid ▸ mem_statusReads_scan hr as, fun old hold => ⟨1, Nat.one_pos, by omega, ?_⟩⟩
    rw [hid, hP r hr, Option.some.injEq] at hold
    exact hold ▸ hver

theorem Store.counts_program (s : Store) (c : StoreCall) (w : StoreWorld) :
    (s.program c).wp KeepsReads (fun _ acc w => Counts 2 acc w) [] w := by
  have hret : ∀ {α : Type} (f : α → StoreReply) (a : α) (acc : List Access) (w : StoreWorld),
      Counts 2 acc w → (pure (f a) : StoreTx StoreReply).wp KeepsReads
        (fun _ acc w => Counts 2 acc w) acc w :=
    fun f a acc w hc => Tx.wp_pure fun _ hv => hc.stable [] (by simpa using hv)
  cases c with
  | allocateTenant d =>
    refine (counts_nil 2 w).bind_quiet ?_ (hret _)
    exact Tx.uses_bind (quiet_ensureTenant _ _) fun _ => Tx.uses_pure _
  | registerAgent d req now =>
    exact Tx.wp_bind keepsReads_refl (Tx.wp_mono (hret fun x => .registered x.1 x.2.1 x.2.2)
      (counts_registerAgent req))
  | heartbeat d req now =>
    exact Tx.wp_bind keepsReads_refl (Tx.wp_mono (hret fun x => .heartbeat x.1 x.2)
      (counts_heartbeat req))
  | reportMetrics d req digest now =>
    exact Tx.wp_bind keepsReads_refl (Tx.wp_mono (hret _) (counts_reportMetrics req digest))
  | reconcileOffline now =>
    exact Tx.wp_bind keepsReads_refl (Tx.wp_mono (hret _) counts_reconcileOffline)

end Calls

theorem versions_discipline (s : Store) : Sys.Discipline s.program WritesUnread
    (fun _ => True) (fun _ => KeepsReads) (fun _ _ _ acc w => Counts 2 acc w) where
  rely_refl := fun _ _ _ _ _ _ => rfl
  rely_trans := fun _ _ _ _ _ huv hvw h hh => (hvw h hh).trans (huv h hh)
  start := fun t c _ _ => s.counts_program c t.world
  commit := by
    intro t i c r hok hc hp _ _
    refine ⟨trivial, fun j d hne hd _ h hread => ?_⟩
    rcases hostStatus_view t.world.db c.acc h with hsame | ⟨row, hrow, hid, -⟩
    · exact hsame
    · have hcommit : c ∈ (t.committing i).toList := by
        rw [Sys.committing_eq_some.mpr ⟨hc, r, hp⟩]
        simp
      have hunread := (hok c hcommit row hrow).1 d (Sys.mem_others.mpr ⟨j, hne, hd⟩)
      exact absurd (hid ▸ hread) hunread
  env := fun _ _ hok => hok.elim

section Versions
variable {s : Store} {db : Database} {t u : StoreSys}

theorem commitIncreases_of_run (h : Sys.Run s.program WritesUnread (idle db) t) {i : ℕ}
    (hok : WritesUnread t (.advance i)) : CommitIncreases t i := by
  have hsound := h.sound (versions_discipline s) (Sys.sound_of_idle trivial)
  intro c hc row hrow old hold
  have hlimit := (hok c hc row hrow).2 old hold
  rw [Option.mem_toList] at hc hold
  obtain ⟨hlive, r, hp⟩ := Sys.committing_eq_some.mp hc
  obtain ⟨k, hpos, hk, hver⟩ :=
    (hsound.commit_post (versions_discipline s) hlive hp row hrow).2 old hold
  exact lt_of_counted hpos hk hlimit hver

theorem versionsFollow_step {e : Event Database StoreCall}
    (h : Sys.Run s.program WritesUnread (idle db) t) (hok : WritesUnread t e)
    (he : t.step s.program e = some u) : VersionsFollow t.world.db u.world.db := by
  cases Sys.effect_of_step he with
  | start c => exact .refl _
  | stmt i c exec next b as hc hp hx hfree => exact .refl _
  | finish i e => exact .refl _
  | env db => exact hok.elim
  | commit i c r hc hp =>
    intro k old hold
    rcases hostStatus_view t.world.db c.acc k with hsame | ⟨row, hrow, hid, hview⟩
    · exact ⟨old, hsame.trans hold, .inl rfl⟩
    · refine ⟨row, hview, .inr (commitIncreases_of_run h hok c ?_ row hrow old ?_)⟩
      · rw [Sys.committing_eq_some.mpr ⟨hc, r, hp⟩]
        simp
      · rw [hid, hold]
        simp

theorem versionsFollow_of_run (h : Sys.Run s.program WritesUnread (idle db) t)
    (h' : Sys.Run s.program WritesUnread t u) : VersionsFollow t.world.db u.world.db := by
  induction h' with
  | refl => exact .refl _
  | step e hr hok he ih => exact ih.trans (versionsFollow_step (h.trans hr) hok he)

/-- Versions grow strictly in every run in which a status row is only written while no
other call relies on having read it, and is not at the limit of its type. -/
theorem status_versions_increase (s : Store) (db : Database) (t : StoreSys)
    (h : Sys.Run s.program WritesUnread (idle db) t) :
    (∀ i, WritesUnread t (.advance i) → CommitIncreases t i) ∧
      ∀ u, Sys.Run s.program WritesUnread t u → VersionsFollow t.world.db u.world.db :=
  ⟨fun _ hok => commitIncreases_of_run h hok, fun _ hu => versionsFollow_of_run h hu⟩

end Versions

instance (s : StoreSys) : (e : Event Database StoreCall) → Decidable (WritesUnread s e)
  | .advance i => inferInstanceAs (Decidable (∀ c ∈ (s.committing i).toList,
      ∀ row ∈ statusWrites c.acc, (∀ d ∈ s.others i, row.hostID ∉ statusReads d.acc) ∧
      ∀ old ∈ (s.world.db.hostStatusCurrent.get? row.hostID).toList,
        old.version.toInt + 2 < 2 ^ 63))
  | .env _ => instDecidableFalse
  | .start _ | .cancel _ => instDecidableTrue

/-- The host `h1` with the agents `a1` and `a2`. -/
def twoAgents : Database :=
  (sampleStore.call (sampleRegister 3 "h1" "a2" "acme" 1000) acmeDatabase).2

/-- Both agents are at work, but the second reads the status row when the first has committed. -/
def turns : List (Event Database StoreCall) :=
  [.start (sampleHeartbeat 4 "a1" 2000), .start (sampleHeartbeat 5 "a2" 2000)] ++
  List.replicate 3 (.advance 0) ++ List.replicate 3 (.advance 1) ++
  List.replicate 8 (.advance 0) ++ List.replicate 8 (.advance 1)

theorem versions_increase_acme : ∃ t,
    (idle twoAgents).steps sampleStore.program turns = some t ∧ t.world.commits.length = 2 ∧
    VersionsFollow twoAgents t.world.db := by
  have hadmits : (idle twoAgents).admits sampleStore.program WritesUnread turns = true := by
    decide +kernel
  have hcommits : ((idle twoAgents).steps sampleStore.program turns).any
      (fun t => t.world.commits.length = 2) = true := by decide +kernel
  obtain ⟨t, ht, hrun⟩ := Sys.run_of_admits hadmits
  rw [ht, Option.any_some, decide_eq_true_eq] at hcommits
  exact ⟨t, ht, hcommits, (status_versions_increase sampleStore twoAgents _ .refl).2 t hrun⟩

/-- Both agents read the status row before either of them has written it. -/
def lostUpdate : List (Event Database StoreCall) :=
  [.start (sampleHeartbeat 4 "a1" 2000), .start (sampleHeartbeat 5 "a2" 2000)] ++
  List.replicate 5 (.advance 0) ++ List.replicate 5 (.advance 1) ++
  List.replicate 6 (.advance 0) ++ List.replicate 5 (.advance 1)

theorem heartbeats_repeat_version :
    ((idle twoAgents).steps sampleStore.program lostUpdate).any
      (fun t => !decide (CommitIncreases t 1)) = true := by
  decide +kernel

end Gaoming
