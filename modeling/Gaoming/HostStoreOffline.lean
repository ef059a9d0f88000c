import Gaoming.HostStoreStatus

/-!
# The scan for hosts that are not seen any more

`ReconcileOffline` of the PostgreSQL store selects by two columns where the one in
memory tests their conjunction. Every writer sets both columns together, so the two
scans agree; the scan of the database sees all times in whole microseconds.
-/

namespace Gaoming
open Relational Transaction

-- The scan in memory, `pkg/hostruntime/repository/memory/store.go`.

/-- The map of hosts, each of them under its own UID. -/
structure MemoryStore where
  hosts : Table HostSnapshot.hostUID

def heartbeatOfflineThreshold : Int64 := 15000000000

theorem Time.sub_le_threshold (t u : ℤ) :
    Time.sub t u ≤ heartbeatOfflineThreshold ↔ t - u ≤ 15 * second := by
  have hthreshold : heartbeatOfflineThreshold.toInt = 15000000000 := by decide
  rw [Int64.le_iff_toInt_le, Time.toInt_sub, hthreshold]
  change _ ↔ t - u ≤ 15 * (1000000000 : ℤ)
  omega

namespace MemoryStore

/-- The three reasons to go on with the next host. -/
def skips (now : Time) (snapshot : HostSnapshot) : Bool :=
  snapshot.lastAgentSeenAt.isZero ||
    Time.sub now snapshot.lastAgentSeenAt ≤ heartbeatOfflineThreshold ||
    (snapshot.agentState = .offline && snapshot.overallState = .offline)

def markedOffline (snapshot : HostSnapshot) : HostSnapshot :=
  { snapshot with
    agentState := .offline, reachabilityState := .offline, overallState := .offline
    version := snapshot.version + 1 }

def reconcileHost (now : Time) (state : MemoryStore × ℕ) (snapshot : HostSnapshot) :
    MemoryStore × ℕ :=
  if skips now snapshot then state
  else (⟨state.1.hosts.put (markedOffline snapshot)⟩, state.2 + 1)

def reconcileOffline (s : MemoryStore) (now : Time) : MemoryStore × ℕ :=
  s.hosts.rows.foldl (reconcileHost now) (s, 0)

theorem foldl_reconcileHost (now : Time) (rows : List HostSnapshot) (s : MemoryStore) (n : ℕ) :
    rows.foldl (reconcileHost now) (s, n) =
      (⟨s.hosts.putAll ((rows.filter fun x => !skips now x).map markedOffline)⟩,
        n + (rows.filter fun x => !skips now x).length) := by
  induction rows generalizing s n with
  | nil => rfl
  | cons x rows ih =>
    rw [List.foldl_cons, reconcileHost]
    by_cases hx : skips now x = true
    · rw [if_pos hx, ih, List.filter_cons_of_neg (by simp [hx])]
    · rw [if_neg hx, ih, List.filter_cons_of_pos (by simp [hx]), List.map_cons, List.length_cons]
      refine Prod.ext rfl ?_
      change n + 1 + _ = n + (_ + 1)
      omega

end MemoryStore

/-- Not seen for fifteen seconds, and not offline in both columns already. -/
def Silent (now : Time) (row : HostStatusRow) : Bool :=
  (row.lastAgentSeenAt.any fun seen => seen < timestamptz now - 15 * second) &&
    !(row.agentState = .offline && row.overallState = .offline)

def HostStatusRow.offlineAt (now : Time) (row : HostStatusRow) : HostStatusRow :=
  { row with
    agentState := .offline, reachabilityState := .offline, overallState := .offline
    version := row.version + 1, updatedAt := timestamptz now }

/-- What the calls keep of hosts and statuses. -/
structure Database.Watched (db : Database) : Prop where
  consistent : db.Consistent
  hostUID_ne : ∀ h ∈ db.hosts.rows, h.hostUID ≠ ""
  host : ∀ r ∈ db.hostStatusCurrent.rows, (db.hosts.get? r.hostID).isSome = true
  states : ∀ r ∈ db.hostStatusCurrent.rows, r.agentState = .offline ↔ r.overallState = .offline
  seen : ∀ r ∈ db.hostStatusCurrent.rows, ∃ t, r.lastAgentSeenAt = some t ∧ t.isZero = false

theorem timestamptz_sub_seconds (t : ℤ) (n : ℤ) :
    timestamptz (t - n * second) = timestamptz t - n * second := by
  change t - n * 1000000000 - (t - n * 1000000000) % 1000 = t - t % 1000 - n * 1000000000
  omega

section Scan
variable {now : Time} {db : Database}

theorem Database.Watched.isStale_eq (h : db.Watched) {r : HostStatusRow}
    (hr : r ∈ db.hostStatusCurrent.rows) : isStale now r = Silent now r := by
  have hstates := h.states r hr
  rw [isStale, Silent, timestamptz_sub_seconds, Bool.and_assoc]
  congr 1
  by_cases hagent : r.agentState = .offline
  · simp [hagent, hstates.mp hagent]
  · have hoverall : r.overallState ≠ .offline := fun ho => hagent (hstates.mpr ho)
    simp [hagent, hoverall]

def Database.silentRows (db : Database) (now : Time) : List HostStatusRow :=
  (db.hostStatusCurrent.select (Silent now)).insertionSort fun a b => a.hostID ≤ b.hostID

theorem mem_silentRows {r : HostStatusRow} :
    r ∈ db.silentRows now ↔ r ∈ db.hostStatusCurrent.rows ∧ Silent now r = true := by
  rw [Database.silentRows, List.mem_insertionSort, Table.mem_select]

theorem silentRows_ordered (now : Time) (db : Database) :
    (db.silentRows now).Pairwise fun a b => a.hostID < b.hostID :=
  Table.pairwise_lt_insertionSort
    (db.hostStatusCurrent.nodup.sublist (List.filter_sublist.map HostStatusRow.hostID))

theorem getHostByUID_of_mem (hc : db.Consistent) {g : HostRow} (hg : g ∈ db.hosts.rows)
    (huid : g.hostUID ≠ "") :
    (getHostByUID g.hostUID "").run db = .ok (some (db.snapshotOf g), db) := by
  rw [run_getHostByUID]
  have hmem : g ∈ db.hostsListed g.hostUID "" :=
    Database.mem_hostsListed.mpr ⟨hg, (zeroOrEq_iff huid).mpr rfl⟩
  cases hl : db.hostsListed g.hostUID "" with
  | nil => simp [hl] at hmem
  | cons x rest =>
    obtain ⟨hx, hz⟩ := Database.mem_hostsListed.mp (hl ▸ List.mem_cons_self (a := x) (l := rest))
    have hxg : x = g := hc.hostUID_inj x hx g hg ((zeroOrEq_iff huid).mp hz).symm
    rw [hxg]
    rfl

def Database.markAll (db : Database) (now : Time) (rows : List HostStatusRow) : Database :=
  { db with
    hostStatusCurrent := db.hostStatusCurrent.putAll (rows.map (HostStatusRow.offlineAt now)) }

theorem snapshotOf_congr {db' : Database} {g : HostRow} (htenants : db'.tenants = db.tenants)
    (hlabels : db'.hostLabels = db.hostLabels)
    (hstatus : db'.hostStatusCurrent.get? g.id = db.hostStatusCurrent.get? g.id) :
    db'.snapshotOf g = db.snapshotOf g := by
  rw [Database.snapshotOf, Database.snapshotOf, htenants, hlabels, hstatus]

theorem run_markOffline {r : HostStatusRow} (hr : db.hostStatusCurrent.get? r.hostID = some r) :
    (markOffline r.hostID (r.version + 1) now).run db = .ok ((), db.markAll now [r]) := by
  rw [markOffline, Tx.run_exec, hr]
  rfl

theorem run_markEachOffline (hc : db.Consistent) (huid : ∀ h ∈ db.hosts.rows, h.hostUID ≠ "")
    {rows : List HostStatusRow} (hordered : rows.Pairwise fun a b => a.hostID < b.hostID)
    (hrows : ∀ r ∈ rows, db.hostStatusCurrent.get? r.hostID = some r)
    (hhosts : ∀ r ∈ rows, (db.hosts.get? r.hostID).isSome = true) :
    ∃ hosts : List HostRow, hosts.map HostRow.id = rows.map HostStatusRow.hostID ∧
      (∀ h ∈ hosts, h ∈ db.hosts.rows) ∧
      (markEachOffline db.hosts now rows).run db =
        .ok (hosts.map (db.markAll now rows).snapshotOf, db.markAll now rows) := by
  induction rows generalizing db with
  | nil => exact ⟨[], rfl, by simp, rfl⟩
  | cons r rows ih =>
    obtain ⟨hfirst, hordered⟩ := List.pairwise_cons.mp hordered
    have hr := hrows r List.mem_cons_self
    obtain ⟨g, hg⟩ := Option.isSome_iff_exists.mp (hhosts r List.mem_cons_self)
    have hgid : g.id = r.hostID := Table.key_of_get? hg
    have hgmem := Table.mem_of_get? hg
    -- the marked row is none of the rows that follow
    have hlater : ∀ x ∈ rows, (db.markAll now [r]).hostStatusCurrent.get? x.hostID = some x := by
      intro x hx
      rw [← hrows x (List.mem_cons_of_mem _ hx)]
      exact Table.get?_put_of_ne _ (hfirst x hx).ne
    have hc₁ : (db.markAll now [r]).Consistent := hc.congr rfl rfl
    obtain ⟨hosts, hids, hmem, hrun⟩ := ih hc₁ huid hordered hlater fun x hx =>
      hhosts x (List.mem_cons_of_mem _ hx)
    refine ⟨g :: hosts, by rw [List.map_cons, List.map_cons, hgid, hids], ?_, ?_⟩
    · intro h hh
      rcases List.mem_cons.mp hh with rfl | hh
      · exact hgmem
      · exact hmem h hh
    · have hsnapshot :
          (db.markAll now (r :: rows)).snapshotOf g = (db.markAll now [r]).snapshotOf g := by
        have hnot : ∀ y ∈ rows.map (HostStatusRow.offlineAt now), y.hostID ≠ g.id := by
          intro y hy
          obtain ⟨x, hx, rfl⟩ := List.mem_map.mp hy
          exact hgid ▸ (hfirst x hx).ne'
        exact snapshotOf_congr rfl rfl (Table.get?_putAll_of_not_mem hnot)
      have hrest : (markEachOffline db.hosts now rows).run (db.markAll now [r]) =
          .ok (hosts.map (db.markAll now (r :: rows)).snapshotOf, db.markAll now (r :: rows)) :=
        hrun
      rw [markEachOffline, Tx.run_bind_of_ok (run_markOffline hr), hg,
        Option.map_some, Option.getD_some,
        Tx.run_bind_of_ok (getHostByUID_of_mem hc₁ hgmem (huid g hgmem)), Tx.run_bind_of_ok hrest,
        Tx.run_pure, List.map_cons, hsnapshot]
      rfl

structure ExactScan (now : Time) (db : Database) (hosts : List HostRow)
    (changed : List HostSnapshot) (db' : Database) : Prop where
  mem_hosts : ∀ h, h ∈ hosts ↔ h ∈ db.hosts.rows ∧
    ∃ row, db.hostStatusCurrent.get? h.id = some row ∧ Silent now row = true
  ordered : hosts.Pairwise fun g h => g.id < h.id
  changed : changed = hosts.map db'.snapshotOf
  statuses : ∀ id, db'.hostStatusCurrent.get? id =
    (db.hostStatusCurrent.get? id).map fun row => if Silent now row then row.offlineAt now else row
  others : db' = { db with hostStatusCurrent := db'.hostStatusCurrent }

theorem Database.Watched.findStale_eq (h : db.Watched) :
    ((db.hostStatusCurrent.select (isStale now)).insertionSort fun a b => a.hostID ≤ b.hostID) =
      db.silentRows now := by
  have hselect : db.hostStatusCurrent.select (isStale now) =
      db.hostStatusCurrent.select (Silent now) := List.filter_congr fun r hr => h.isStale_eq hr
  rw [hselect, silentRows]

theorem view_readHostStatus (rows : List HostStatusRow) (db : Database) :
    Tx.view db (rows.map fun r => .readHostStatus r.hostID) = db := by
  induction rows with
  | nil => rfl
  | cons r rows ih => exact ih

theorem run_reconcileOffline (h : db.Watched) :
    (reconcileOffline now).run db = (markEachOffline db.hosts now (db.silentRows now)).run db := by
  have hscan : (findStale now).run db = .ok (db.silentRows now, db) := by
    rw [← h.findStale_eq]
    exact congrArg (fun x => Except.ok (_, x)) (view_readHostStatus _ db)
  rw [reconcileOffline, Tx.run_bind_of_ok hscan, Tx.run_bind_of_ok (Tx.run_query _ _)]
  split_ifs with hempty
  · rw [List.isEmpty_iff.mp hempty]
    rfl
  · rfl

theorem statuses_markAll (now : Time) (db : Database) (id : Serial) :
    (db.markAll now (db.silentRows now)).hostStatusCurrent.get? id =
      (db.hostStatusCurrent.get? id).map fun row =>
        if Silent now row then row.offlineAt now else row := by
  have hnodup : ((db.silentRows now).map (HostStatusRow.offlineAt now)).map HostStatusRow.hostID
      |>.Nodup := by
    rw [List.map_map]
    exact List.pairwise_map.mpr ((silentRows_ordered now db).imp fun hlt => hlt.ne)
  have hother : ∀ row, db.hostStatusCurrent.get? id = some row → ¬ Silent now row = true →
      ∀ r ∈ (db.silentRows now).map (HostStatusRow.offlineAt now), r.hostID ≠ id := by
    intro row hrow hno r hr hid
    obtain ⟨x, hx, rfl⟩ := List.mem_map.mp hr
    obtain ⟨hmem, hsilent⟩ := mem_silentRows.mp hx
    have hget : db.hostStatusCurrent.get? id = some x := hid ▸ Table.get?_of_mem hmem
    rw [hrow, Option.some.injEq] at hget
    exact hno (hget ▸ hsilent)
  cases hrow : db.hostStatusCurrent.get? id with
  | none =>
    refine (Table.get?_putAll_of_not_mem fun r hr hid => ?_).trans hrow
    obtain ⟨x, hx, rfl⟩ := List.mem_map.mp hr
    exact Table.get?_eq_none_iff.mp hrow x (mem_silentRows.mp hx).1 hid
  | some row =>
    rw [Option.map_some]
    split_ifs with hsilent
    · have hmem : row ∈ db.silentRows now := mem_silentRows.mpr ⟨Table.mem_of_get? hrow, hsilent⟩
      have hid : row.hostID = id := Table.key_of_get? hrow
      rw [← show (row.offlineAt now).hostID = id from hid]
      exact Table.get?_putAll_of_mem hnodup (List.mem_map_of_mem hmem)
    · exact (Table.get?_putAll_of_not_mem (hother row hrow hsilent)).trans hrow

theorem mem_markAll {r : HostStatusRow}
    (hr : r ∈ (db.markAll now (db.silentRows now)).hostStatusCurrent.rows) :
    ∃ x ∈ db.hostStatusCurrent.rows, r = if Silent now x then x.offlineAt now else x := by
  have hget := Table.get?_of_mem hr
  rw [statuses_markAll, Option.map_eq_some_iff] at hget
  obtain ⟨x, hx, hxr⟩ := hget
  exact ⟨x, Table.mem_of_get? hx, hxr.symm⟩

theorem Database.Watched.markAll (h : db.Watched) :
    (db.markAll now (db.silentRows now)).Watched where
  consistent := h.consistent.congr rfl rfl
  hostUID_ne := h.hostUID_ne
  host := by
    intro r hr
    obtain ⟨x, hx, rfl⟩ := mem_markAll hr
    split_ifs
    · exact h.host x hx
    · exact h.host x hx
  states := by
    intro r hr
    obtain ⟨x, hx, rfl⟩ := mem_markAll hr
    split_ifs
    · exact Iff.rfl
    · exact h.states x hx
  seen := by
    intro r hr
    obtain ⟨x, hx, rfl⟩ := mem_markAll hr
    split_ifs
    · exact h.seen x hx
    · exact h.seen x hx

theorem silentRows_markAll (now : Time) (db : Database) :
    (db.markAll now (db.silentRows now)).silentRows now = [] := by
  refine List.eq_nil_iff_forall_not_mem.mpr fun r hr => ?_
  obtain ⟨hmem, hsilent⟩ := mem_silentRows.mp hr
  obtain ⟨x, -, rfl⟩ := mem_markAll hmem
  split_ifs at hsilent with hx
  · simp [Silent, HostStatusRow.offlineAt] at hsilent
  · exact hx hsilent

theorem Database.Watched.exactScan (h : db.Watched) (now : Time) :
    ∃ hosts, ExactScan now db hosts
        (hosts.map (db.markAll now (db.silentRows now)).snapshotOf)
        (db.markAll now (db.silentRows now)) ∧
      (reconcileOffline now).run db =
        .ok (hosts.map (db.markAll now (db.silentRows now)).snapshotOf,
          db.markAll now (db.silentRows now)) := by
  have hrows : ∀ r ∈ db.silentRows now, db.hostStatusCurrent.get? r.hostID = some r :=
    fun r hr => Table.get?_of_mem (mem_silentRows.mp hr).1
  obtain ⟨hosts, hids, hmem, hrun⟩ := run_markEachOffline h.consistent h.hostUID_ne
    (silentRows_ordered now db) hrows fun r hr => h.host r (mem_silentRows.mp hr).1
  refine ⟨hosts, ⟨?_, ?_, rfl, statuses_markAll now db, rfl⟩, (run_reconcileOffline h).trans hrun⟩
  · intro g
    constructor
    · intro hg
      have hid : g.id ∈ (db.silentRows now).map HostStatusRow.hostID :=
        hids ▸ List.mem_map_of_mem hg
      obtain ⟨r, hr, hrid⟩ := List.mem_map.mp hid
      exact ⟨hmem g hg, r, hrid ▸ hrows r hr, (mem_silentRows.mp hr).2⟩
    · rintro ⟨hg, row, hrow, hsilent⟩
      have hin : row ∈ db.silentRows now := mem_silentRows.mpr ⟨Table.mem_of_get? hrow, hsilent⟩
      have hid : row.hostID ∈ hosts.map HostRow.id := hids ▸ List.mem_map_of_mem hin
      obtain ⟨g', hg', hgid⟩ := List.mem_map.mp hid
      have hkey : g'.id = g.id := hgid.trans (Table.key_of_get? hrow)
      exact db.hosts.eq_of_key_eq (hmem g' hg') hg hkey ▸ hg'
  · have hlt : (hosts.map HostRow.id).Pairwise (· < ·) := by
      rw [hids]
      exact List.pairwise_map.mpr (silentRows_ordered now db)
    exact List.pairwise_map.mp hlt

theorem Database.Watched.scan_again (h : db.Watched) (now : Time) :
    (reconcileOffline now).run (db.markAll now (db.silentRows now)) =
      .ok ([], db.markAll now (db.silentRows now)) := by
  rw [run_reconcileOffline h.markAll, silentRows_markAll]
  rfl

end Scan

/-- A call whose time is not Go's zero time once it is stored. -/
def Timed (_ : Database) (c : StoreCall) : Prop :=
  ∀ now, c.seenAt = some now → (timestamptz now).isZero = false

section Reachable
variable {s : Store} {db : Database}

theorem Store.hostUID_ne_upsertHost {d : Draws} {tenantID hostID : Serial} {hostUID : String}
    {req : RegisterAgentRequest} {now : Time} {db' : Database} (huid : hostUID ≠ "")
    (h : (s.upsertHost d tenantID hostUID req now).run db = .ok (hostID, db'))
    (hne : ∀ h ∈ db.hosts.rows, h.hostUID ≠ "") :
    (∀ h ∈ db'.hosts.rows, h.hostUID ≠ "") ∧
      ∀ id, (db.hosts.get? id).isSome = true → (db'.hosts.get? id).isSome = true := by
  obtain ⟨r, -, -, hvar, -, rfl, -⟩ := upsertHost_ok huid h
  constructor
  · intro g hg
    rcases Table.mem_put.mp hg with rfl | ⟨hg, -⟩
    · exact varchar_ne_empty (by decide) hvar huid
    · exact hne g hg
  · intro id hid
    change ((db.hosts.put r).get? id).isSome = true
    rw [Table.get?_put]
    split_ifs
    · rfl
    · exact hid

theorem Store.hosts_call (s : Store) (c : StoreCall) (hne : ∀ h ∈ db.hosts.rows, h.hostUID ≠ "") :
    (∀ h ∈ (s.call c db).2.hosts.rows, h.hostUID ≠ "") ∧
      ∀ id, (db.hosts.get? id).isSome = true → ((s.call c db).2.hosts.get? id).isSome = true := by
  cases s.callEffect c db with
  | none _ _ hhosts =>
    rw [hhosts]
    exact ⟨hne, fun _ h => h⟩
  | allocated d t ht hdb =>
    rw [hdb]
    exact ⟨hne, fun _ h => h⟩
  | registered d req now t hostID ht hhost hrest =>
    rw [hrest.hosts]
    have hup := hostUID_ne_upsertHost (registerHostUID_ne d req) hhost hne
    exact hup
  | bootstrapped d req digest now t req' hostID hnew huid hcode ht hhost hrest =>
    rw [hrest.hosts]
    exact hostUID_ne_upsertHost huid hhost hne

theorem Database.Watched.call (h : db.Watched) {c : StoreCall} (hc : Timed db c) :
    (s.call c db).2.Watched := by
  obtain ⟨hne, hkeep⟩ := s.hosts_call c h.hostUID_ne
  have hconsistent := s.consistent_call c h.consistent
  cases s.statusEffect c h.consistent with
  | none _ _ hsame =>
    refine ⟨hconsistent, hne, ?_, ?_, ?_⟩
    · rw [hsame]
      exact fun r hr => hkeep _ (h.host r hr)
    · rw [hsame]
      exact h.states
    · rw [hsame]
      exact h.seen
  | reconciled now snapshots hrun =>
    obtain ⟨hosts, -, hexact⟩ := h.exactScan now
    rw [hrun, Except.ok.injEq, Prod.mk.injEq] at hexact
    rw [hexact.2]
    exact h.markAll
  | seen _ now hostID row hnow _ hthere hrow hseen hother =>
    -- a row is the one of the host that was seen, or one that was there before
    have hcases : ∀ r ∈ (s.call c db).2.hostStatusCurrent.rows,
        r = row ∨ r ∈ db.hostStatusCurrent.rows := by
      intro r hr
      have hget := Table.get?_of_mem hr
      by_cases hid : r.hostID = hostID
      · rw [hid, hrow, Option.some.injEq] at hget
        exact .inl hget.symm
      · rw [hother _ hid] at hget
        exact .inr (Table.mem_of_get? hget)
    have hrowid : row.hostID = hostID := Table.key_of_get? hrow
    refine ⟨hconsistent, hne, ?_, ?_, ?_⟩
    · intro r hr
      rcases hcases r hr with rfl | hr
      · exact hrowid ▸ hthere
      · exact hkeep _ (h.host r hr)
    · intro r hr
      rcases hcases r hr with rfl | hr
      · simp [hseen.agentState, hseen.overallState]
      · exact h.states r hr
    · intro r hr
      rcases hcases r hr with rfl | hr
      · exact ⟨_, hseen.lastAgentSeenAt, hc now hnow⟩
      · exact h.seen r hr

theorem Store.Reaches.watched {db₀ : Database} (hc : db₀.Consistent)
    (hhosts : db₀.hosts.rows = []) (hstatuses : db₀.hostStatusCurrent.rows = [])
    (h : s.Reaches Timed db₀ db) : db.Watched := by
  induction h with
  | refl =>
    exact ⟨hc, by simp [hhosts], by simp [hstatuses], by simp [hstatuses], by simp [hstatuses]⟩
  | step c _ hok ih => exact ih.call hok

end Reachable

theorem nodup_snapshots {db : Database} (h : db.Consistent) :
    ((db.hosts.rows.map db.snapshotOf).map HostSnapshot.hostUID).Nodup := by
  have huid : HostSnapshot.hostUID ∘ db.snapshotOf = HostRow.hostUID :=
    funext fun _ => snapshotOf_hostUID
  rw [List.map_map, huid]
  exact db.hosts.nodup.of_map.map_on h.hostUID_inj

def Database.inMemory (db : Database) (h : db.Consistent) : MemoryStore :=
  ⟨⟨db.hosts.rows.map db.snapshotOf, nodup_snapshots h⟩⟩

section Memory
variable {now : Time} {db : Database}

theorem skips_snapshotOf {t seen : ℤ} (hseen : Time.isZero seen = false) :
    (Time.isZero seen || decide (Time.sub t seen ≤ heartbeatOfflineThreshold)) =
      !decide (seen < t - 15 * second) := by
  have hsub := Time.sub_le_threshold t seen
  rw [hseen, Bool.false_or, ← decide_not]
  refine decide_eq_decide.mpr (hsub.trans ?_)
  constructor
  · intro h
    exact not_lt.mpr (sub_le_comm.mp h)
  · intro h
    exact sub_le_comm.mp (not_lt.mp h)

theorem Database.Watched.skips_iff (h : db.Watched) (g : HostRow) :
    MemoryStore.skips (timestamptz now) (db.snapshotOf g) = false ↔
      ∃ row, db.hostStatusCurrent.get? g.id = some row ∧ Silent now row = true := by
  cases hrow : db.hostStatusCurrent.get? g.id with
  | none =>
    have hzero : (db.snapshotOf g).lastAgentSeenAt = 0 := by
      rw [snapshotOf, hrow]
      rfl
    simp [MemoryStore.skips, hzero, Time.isZero]
  | some row =>
    obtain ⟨seen, hseen, hzero⟩ := h.seen row (Table.mem_of_get? hrow)
    have hsnapshot : (db.snapshotOf g).lastAgentSeenAt = seen ∧
        (db.snapshotOf g).agentState = row.agentState ∧
        (db.snapshotOf g).overallState = row.overallState := by
      rw [snapshotOf, hrow]
      refine ⟨?_, rfl, rfl⟩
      change row.lastAgentSeenAt.getD 0 = seen
      rw [hseen]
      rfl
    obtain ⟨hlast, hagent, hoverall⟩ := hsnapshot
    rw [MemoryStore.skips, hlast, hagent, hoverall, skips_snapshotOf hzero]
    simp only [Option.some.injEq, exists_eq_left', Silent, hseen, Option.any_some]
    cases decide (seen < timestamptz now - 15 * second)
    · simp
    · simp [imp_iff_not_or]

theorem markedOffline_snapshotOf {g : HostRow} {row : HostStatusRow} {db' : Database}
    (hrow : db.hostStatusCurrent.get? g.id = some row)
    (hrow' : db'.hostStatusCurrent.get? g.id = some (row.offlineAt now))
    (htenants : db'.tenants = db.tenants) (hlabels : db'.hostLabels = db.hostLabels) :
    db'.snapshotOf g = MemoryStore.markedOffline (db.snapshotOf g) := by
  rw [Database.snapshotOf, Database.snapshotOf, hrow, hrow', htenants, hlabels]
  rfl

theorem ExactScan.inMemory {hosts : List HostRow} {changed : List HostSnapshot} {db' : Database}
    (h : db.Watched) (hscan : ExactScan now db hosts changed db') {g : HostRow}
    (hg : g ∈ db.hosts.rows) :
    ((db.inMemory h.consistent).reconcileOffline (timestamptz now)).1.hosts.get? g.hostUID =
      some (db'.snapshotOf g) := by
  have htenants : db'.tenants = db.tenants := by rw [hscan.others]
  have hlabels : db'.hostLabels = db.hostLabels := by rw [hscan.others]
  have hstatus := hscan.statuses g.id
  rw [MemoryStore.reconcileOffline, MemoryStore.foldl_reconcileHost]
  set selected := (db.inMemory h.consistent).hosts.rows.filter fun x =>
    !MemoryStore.skips (timestamptz now) x with hselected
  have hnodup : ((selected.map MemoryStore.markedOffline).map HostSnapshot.hostUID).Nodup := by
    rw [List.map_map]
    exact (nodup_snapshots h.consistent).sublist (List.filter_sublist.map HostSnapshot.hostUID)
  have hmem : db.snapshotOf g ∈ (db.inMemory h.consistent).hosts.rows := List.mem_map_of_mem hg
  have huid : (db.snapshotOf g).hostUID = g.hostUID := snapshotOf_hostUID
  by_cases hskip : MemoryStore.skips (timestamptz now) (db.snapshotOf g) = false
  · obtain ⟨row, hrow, hsilent⟩ := (h.skips_iff g).mp hskip
    rw [hrow, Option.map_some, if_pos hsilent] at hstatus
    rw [markedOffline_snapshotOf hrow hstatus htenants hlabels]
    have hin : MemoryStore.markedOffline (db.snapshotOf g) ∈
        selected.map MemoryStore.markedOffline :=
      List.mem_map_of_mem (List.mem_filter.mpr ⟨hmem, by simp [hskip]⟩)
    have hput := Table.get?_putAll_of_mem (t := (db.inMemory h.consistent).hosts) hnodup hin
    rw [← huid]
    exact hput
  · have hsame : db'.hostStatusCurrent.get? g.id = db.hostStatusCurrent.get? g.id := by
      rw [hstatus]
      cases hrow : db.hostStatusCurrent.get? g.id with
      | none => rfl
      | some row =>
        have hnot : ¬ Silent now row = true := fun hs => hskip ((h.skips_iff g).mpr ⟨row, hrow, hs⟩)
        rw [Option.map_some, if_neg hnot]
    rw [snapshotOf_congr htenants hlabels hsame]
    have hnot : ∀ x ∈ selected.map MemoryStore.markedOffline, x.hostUID ≠ g.hostUID := by
      intro x hx hxuid
      obtain ⟨y, hy, rfl⟩ := List.mem_map.mp hx
      obtain ⟨hymem, hyskip⟩ := List.mem_filter.mp hy
      have hyg : y = db.snapshotOf g := (db.inMemory h.consistent).hosts.eq_of_key_eq hymem hmem
        (hxuid.trans huid.symm)
      rw [hyg] at hyskip
      exact hskip (by simpa using hyskip)
    refine (Table.get?_putAll_of_not_mem hnot).trans ?_
    rw [← huid]
    exact Table.get?_of_mem hmem

theorem ExactScan.count_inMemory {hosts : List HostRow} {changed : List HostSnapshot}
    {db' : Database} (h : db.Watched) (hscan : ExactScan now db hosts changed db') :
    ((db.inMemory h.consistent).reconcileOffline (timestamptz now)).2 = changed.length := by
  rw [MemoryStore.reconcileOffline, MemoryStore.foldl_reconcileHost, Nat.zero_add, hscan.changed,
    List.length_map]
  change ((db.hosts.rows.map db.snapshotOf).filter _).length = _
  rw [List.filter_map, List.length_map]
  refine List.Perm.length_eq ((List.perm_ext_iff_of_nodup ?_ ?_).mpr fun g => ?_)
  · exact db.hosts.nodup.of_map.filter _
  · exact List.Pairwise.imp (fun hlt heq => absurd (congrArg HostRow.id heq) hlt.ne) hscan.ordered
  · rw [List.mem_filter, hscan.mem_hosts, ← h.skips_iff g]
    simp

end Memory

/-- In every state that timed calls reach from a database without hosts, the scan marks
exactly the hosts that have not been seen for fifteen seconds, returns their snapshots in
order, finds nothing the second time, and does what the scan in memory does to the same
hosts. All times are taken in whole microseconds, as the columns keep them. -/
theorem Store.Reaches.offline_scan_exact {s : Store} {db₀ db : Database} (hc : db₀.Consistent)
    (hhosts : db₀.hosts.rows = []) (hstatuses : db₀.hostStatusCurrent.rows = [])
    (h : s.Reaches Timed db₀ db) (now : Time) :
    ∃ hosts changed db', s.call (.reconcileOffline now) db = (.ok (.offline changed), db') ∧
      ExactScan now db hosts changed db' ∧
      s.call (.reconcileOffline now) db' = (.ok (.offline []), db') ∧
      ∃ hdb : db.Consistent,
        ((db.inMemory hdb).reconcileOffline (timestamptz now)).2 = changed.length ∧
        ∀ g ∈ db.hosts.rows,
          (MemoryStore.skips (timestamptz now) (db.snapshotOf g) = false ↔ g ∈ hosts) ∧
          ((db.inMemory hdb).reconcileOffline (timestamptz now)).1.hosts.get? g.hostUID =
            some (db'.snapshotOf g) := by
  have hw := h.watched hc hhosts hstatuses
  obtain ⟨hosts, hscan, hrun⟩ := hw.exactScan now
  refine ⟨hosts, _, _, ?_, hscan, ?_, hw.consistent, hscan.count_inMemory hw, ?_⟩
  · exact Tx.transact_of_ok (Tx.run_bind_of_ok hrun)
  · exact Tx.transact_of_ok (Tx.run_bind_of_ok (hw.scan_again now))
  · intro g hg
    refine ⟨?_, hscan.inMemory hw hg⟩
    rw [hw.skips_iff g, hscan.mem_hosts]
    exact ⟨fun hrow => ⟨hg, hrow⟩, fun hrow => hrow.2⟩

theorem consistent_acme : acmeDatabase.Consistent :=
  sampleStore.consistent_call _ consistent_sampleStart

theorem offline_scan_acme : ∃ hosts changed db',
    sampleStore.call (.reconcileOffline (20 * second)) acmeDatabase =
      (.ok (.offline changed), db') ∧
    ExactScan (20 * second) acmeDatabase hosts changed db' ∧ changed.length = 1 := by
  have hreach : sampleStore.Reaches Timed sampleStart acmeDatabase := by
    refine .step _ .refl fun now hnow => ?_
    cases hnow
    decide
  have hlength : (match (sampleStore.call (.reconcileOffline (20 * second)) acmeDatabase).1 with
      | .ok (.offline changed) => changed.length
      | _ => 0) = 1 := by decide
  obtain ⟨hosts, changed, db', hcall, hscan, -⟩ := Store.Reaches.offline_scan_exact
    consistent_sampleStart (by decide) (by decide) hreach (20 * second)
  rw [hcall] at hlength
  exact ⟨hosts, changed, db', hcall, hscan, hlength⟩

/-- Half a microsecond after the fifteen seconds the scan in memory marks the host, and the
one of the database, which has cut the half off, does not. -/
theorem offline_scan_half_microsecond :
    (∃ row ∈ acmeDatabase.hostStatusCurrent.rows, row.agentState = .up ∧ row.overallState = .up ∧
      ∃ seen ∈ row.lastAgentSeenAt, seen < (15 * second + 1500) - 15 * second) ∧
    sampleStore.call (.reconcileOffline (15 * second + 1500)) acmeDatabase =
      (.ok (.offline []), acmeDatabase) ∧
    ((acmeDatabase.inMemory consistent_acme).reconcileOffline (15 * second + 1500)).2 = 1 := by
  refine ⟨by decide, by decide, by decide⟩

end Gaoming
