import Gaoming.TransactionInterleaving
import Gaoming.HostStoreTenants

/-!
# Interleaved calls of the host store

Status rows are read by one statement and written by a later one, and no lock
covers the time in between. These results say which commits of other calls do
harm in that time: those that make a candidate of a running `ReconcileOffline`
fresh again, and those that write a row another call has read.
-/

namespace Gaoming
open Relational Transaction

abbrev StoreSys := Sys Database Access StoreError StoreReply StoreCall
abbrev StoreWorld := World Database StoreCall StoreReply

def idle (db : Database) : StoreSys := ⟨⟨db, []⟩, []⟩

def statusWrites (acc : List Access) : List HostStatusRow :=
  acc.filterMap fun
    | .putHostStatus r => some r
    | _ => none

theorem mem_statusWrites {acc : List Access} {r : HostStatusRow} :
    r ∈ statusWrites acc ↔ .putHostStatus r ∈ acc := by
  simp only [statusWrites, List.mem_filterMap]
  constructor
  · rintro ⟨a, ha, h⟩
    cases a <;> simp_all
  · exact fun h => ⟨_, h, rfl⟩

def statusReads (acc : List Access) : List Serial :=
  acc.filterMap fun
    | .readHostStatus h => some h
    | _ => none

theorem mem_statusReads {acc : List Access} {h : Serial} :
    h ∈ statusReads acc ↔ .readHostStatus h ∈ acc := by
  simp only [statusReads, List.mem_filterMap]
  constructor
  · rintro ⟨a, ha, hh⟩
    cases a <;> simp_all
  · exact fun hh => ⟨_, hh, rfl⟩

theorem statusWrites_append (as bs : List Access) :
    statusWrites (as ++ bs) = statusWrites as ++ statusWrites bs := List.filterMap_append

theorem hostStatus_view (db : Database) (acc : List Access) (h : Serial) :
    (Tx.view db acc).hostStatusCurrent.get? h = db.hostStatusCurrent.get? h ∨
      ∃ r ∈ statusWrites acc, r.hostID = h ∧
        (Tx.view db acc).hostStatusCurrent.get? h = some r := by
  induction acc generalizing db with
  | nil => exact .inl rfl
  | cons a acc ih =>
    rw [Tx.view_cons]
    rcases ih (db.apply a) with hsame | ⟨r, hr, hrh, hview⟩
    · by_cases ha : ∃ r, a = .putHostStatus r
      · obtain ⟨r, rfl⟩ := ha
        by_cases hrh : r.hostID = h
        · refine .inr ⟨r, by simp [statusWrites], hrh, hsame.trans ?_⟩
          exact hrh ▸ Table.get?_put_self _ r
        · exact .inl (hsame.trans (Table.get?_put_of_ne _ hrh))
      · refine .inl (hsame.trans ?_)
        cases a <;> first | rfl | exact absurd ⟨_, rfl⟩ ha
    · refine .inr ⟨r, ?_, hrh, hview⟩
      rw [mem_statusWrites] at hr ⊢
      exact List.mem_cons_of_mem a hr

def seenBefore (t : Time) (row : HostStatusRow) : Bool :=
  row.lastAgentSeenAt.any fun seen => seen < t

/-- A `ReconcileOffline` that is about to commit overwrites only rows not seen for 15 s. -/
def MarksOnlyUnseen (s : StoreSys) : Prop :=
  ∀ i < s.clients.length, ∀ c ∈ (s.committing i).toList, ∀ row ∈ statusWrites c.acc,
    match c.call with
    | .reconcileOffline now =>
      (s.world.db.hostStatusCurrent.get? row.hostID).any (seenBefore (now - 15 * second)) = true
    | _ => True

/-- No commit writes a fresh row for a candidate of a `ReconcileOffline` still running. -/
def SparesCandidates (s : StoreSys) : Event Database StoreCall → Prop
  | .advance i => ∀ c ∈ (s.committing i).toList, ∀ d ∈ s.others i, ∀ row ∈ statusWrites c.acc,
    match d.call with
    | .reconcileOffline now => row.hostID ∈ statusReads d.acc →
      seenBefore (now - 15 * second) row = true
    | _ => True
  | .env _ => False
  | _ => True

section Offline
variable {now : Time}

theorem seenBefore_of_isStale {row : HostStatusRow} (h : isStale now row = true) :
    seenBefore (now - 15 * second) row = true := by
  simp only [isStale, Bool.and_eq_true, Option.any_eq_true, decide_eq_true_eq] at h
  obtain ⟨⟨⟨seen, hseen, hlt⟩, -⟩, -⟩ := h
  simp only [seenBefore, Option.any_eq_true, decide_eq_true_eq]
  exact ⟨seen, hseen, lt_of_lt_of_le hlt (timestamptz_le _)⟩

def StaleAt (now : Time) (h : Serial) (db : Database) : Prop :=
  (db.hostStatusCurrent.get? h).any (seenBefore (now - 15 * second)) = true

/-- What a running call relies on: the candidates it has read stay unseen. -/
def StaysUnseen : StoreCall → List Access → StoreWorld → StoreWorld → Prop
  | .reconcileOffline now, acc, w, w' =>
    ∀ h ∈ statusReads acc, StaleAt now h w.db → StaleAt now h w'.db
  | _, _, _, _ => True

def MarkedUnseen : StoreCall → ℕ → StoreReply → List Access → StoreWorld → Prop
  | .reconcileOffline now, _, _, acc, w => ∀ row ∈ statusWrites acc, StaleAt now row.hostID w.db
  | _, _, _, _, _ => True

theorem wp_findStale_bind {α : Type} {rely : List Access → StoreWorld → StoreWorld → Prop}
    {post : α → List Access → StoreWorld → Prop} {k : List HostStatusRow → StoreTx α}
    {w : StoreWorld}
    (h : ∀ v rows, (∀ r ∈ rows, isStale now r = true ∧
        v.db.hostStatusCurrent.get? r.hostID = some r) →
      (k rows).wp rely post (rows.map fun r => .readHostStatus r.hostID) v) :
    (findStale now >>= k).wp rely post [] w := by
  refine Tx.wp_exec fun v _ rows as hexec => ?_
  simp only [Except.ok.injEq, Prod.mk.injEq, Tx.view_nil] at hexec
  obtain ⟨hrows, rfl⟩ := hexec
  rw [List.nil_append, hrows]
  refine h v rows fun r hr => ?_
  rw [← hrows, List.mem_insertionSort, Table.mem_select] at hr
  exact ⟨hr.2, Table.get?_of_mem hr.1⟩

theorem mem_statusReads_scan {rows : List HostStatusRow} {r : HostStatusRow} (hr : r ∈ rows)
    (as : List Access) :
    r.hostID ∈ statusReads (rows.map (fun r => Access.readHostStatus r.hostID) ++ as) :=
  mem_statusReads.mpr (List.mem_append_left _ (List.mem_map.mpr ⟨r, hr, rfl⟩))

theorem statusWrites_scan (rows : List HostStatusRow) :
    statusWrites (rows.map fun r => Access.readHostStatus r.hostID) = [] := by
  rw [List.eq_nil_iff_forall_not_mem]
  intro r hr
  rw [mem_statusWrites, List.mem_map] at hr
  obtain ⟨x, -, hx⟩ := hr
  cases hx

theorem uses_afterScan (rows : List HostStatusRow) :
    (Tx.query Database.hosts >>= fun hosts =>
      if rows.isEmpty then pure [] else markEachOffline hosts now rows : StoreTx _).Uses
      fun a => ∃ r ∈ rows, a.Succeeds r :=
  Tx.uses_bind (Tx.uses_query _) fun hosts =>
    Tx.uses_ite (Tx.uses_pure _) (uses_markEachOffline hosts rows)

theorem reconcileOffline_wp (s : Store) (n : ℕ) (w : StoreWorld) :
    (s.program (.reconcileOffline now)).wp (StaysUnseen (.reconcileOffline now))
      (MarkedUnseen (.reconcileOffline now) n) [] w := by
  refine Tx.wp_bind (fun _ _ _ _ _ _ hs => hs) (wp_findStale_bind fun v rows hrows => ?_)
  refine Tx.wp_of_uses (uses_afterScan rows)
    (P := fun u => ∀ r ∈ rows, StaleAt now r.hostID u.db) ?_ ?_ ?_
  · exact fun as _ u u' hrely hu r hr => hrely r.hostID (mem_statusReads_scan hr as) (hu r hr)
  · intro r hr
    rw [StaleAt, (hrows r hr).2]
    exact seenBefore_of_isStale (hrows r hr).1
  · intro out as u has hu
    refine Tx.wp_pure fun u' hrely row hrow => ?_
    rw [statusWrites_append, statusWrites_scan, List.nil_append, mem_statusWrites] at hrow
    obtain ⟨r, hr, hsucc⟩ := has _ hrow
    have hid : row.hostID = r.hostID := hsucc.onStatus
    rw [hid]
    exact hrely r.hostID (mem_statusReads_scan hr as) (hu r hr)

theorem stale_afterCommit {acc : List Access} {h : Serial} {db : Database}
    (hstale : StaleAt now h db)
    (hw : ∀ row ∈ statusWrites acc, row.hostID = h → seenBefore (now - 15 * second) row = true) :
    StaleAt now h (Tx.view db acc) := by
  rcases hostStatus_view db acc h with hsame | ⟨r, hr, hrh, hview⟩
  · rw [StaleAt, hsame]
    exact hstale
  · rw [StaleAt, hview]
    exact hw r hr hrh

theorem offline_discipline (s : Store) : Sys.Discipline s.program SparesCandidates
    (fun _ => True) StaysUnseen MarkedUnseen where
  rely_refl := by
    intro c acc w _
    cases c <;> first | trivial | exact fun _ _ hs => hs
  rely_trans := by
    intro c acc u v w huv hvw
    cases c <;> first | trivial | exact fun h hh hs => hvw h hh (huv h hh hs)
  start := by
    intro t c _ _
    cases c with
    | reconcileOffline now => exact reconcileOffline_wp s _ _
    | _ => exact Tx.wp_of_post (fun _ _ _ => trivial) _ _ _
  commit := by
    intro t i c r hok hc hp _ _
    refine ⟨trivial, fun j d hne hd _ => ?_⟩
    have hcommit : c ∈ (t.committing i).toList := by
      rw [Sys.committing_eq_some.mpr ⟨hc, r, hp⟩]
      simp
    have hspare := hok c hcommit d (Sys.mem_others.mpr ⟨j, hne, hd⟩)
    cases hcall : d.call with
    | reconcileOffline now =>
      intro h hread hstale
      refine stale_afterCommit hstale fun row hrow hid => ?_
      have hrow' := hspare row hrow
      rw [hcall] at hrow'
      exact hrow' (hid ▸ hread)
    | _ => trivial
  env := fun _ _ hok => hok.elim

/-- A `ReconcileOffline` marks no host offline that was seen in the last 15 s, in every run
in which no commit refreshes a candidate it has already selected. -/
theorem reconcileOffline_marks_only_unseen (s : Store) (db : Database) (t : StoreSys)
    (h : Sys.Run s.program SparesCandidates (idle db) t) : MarksOnlyUnseen t := by
  have hsound := h.sound (offline_discipline s) (Sys.sound_of_idle trivial)
  intro i _ c hc row hrow
  rw [Option.mem_toList] at hc
  obtain ⟨hlive, r, hp⟩ := Sys.committing_eq_some.mp hc
  have hpost := hsound.commit_post (offline_discipline s) hlive hp
  cases hcall : c.call with
  | reconcileOffline now =>
    rw [hcall] at hpost
    exact hpost row hrow
  | _ => trivial

end Offline

instance (s : StoreSys) : Decidable (MarksOnlyUnseen s) := by
  unfold MarksOnlyUnseen
  refine @Nat.decidableBallLT _ _ fun i _ => ?_
  refine @List.decidableBAll _ _ (fun c => ?_) _
  refine @List.decidableBAll _ _ (fun row => ?_) _
  cases c.call <;> infer_instance

instance (s : StoreSys) (e : Event Database StoreCall) : Decidable (SparesCandidates s e) := by
  cases e with
  | advance i =>
    refine @List.decidableBAll _ _ (fun c => ?_) _
    refine @List.decidableBAll _ _ (fun d => ?_) _
    refine @List.decidableBAll _ _ (fun row => ?_) _
    cases d.call <;> infer_instance
  | env db => exact instDecidableFalse
  | _ => exact instDecidableTrue

/-- The host `h2` was seen at 19 s. -/
def twoHosts : Database :=
  (sampleStore.call (sampleRegister 3 "h2" "a2" "acme" (19 * second)) acmeDatabase).2

/-- While the candidates are marked, `h2` reports. -/
def busyScan : List (Event Database StoreCall) :=
  [.start (.reconcileOffline (20 * second)), .advance 0,
    .start (.heartbeat (sampleDraws 4) ⟨"h2", "a2", 1, 20 * second, {}⟩ (20 * second))] ++
  List.replicate 6 (.advance 1) ++ List.replicate 3 (.advance 0) ++
  List.replicate 5 (.advance 1) ++ List.replicate 3 (.advance 0)

theorem marksOnlyUnseen_acme : ∃ t,
    (idle twoHosts).steps sampleStore.program busyScan = some t ∧ t.world.commits.length = 1 ∧
    (t.committing 0).any (fun c => (statusWrites c.acc).map HostStatusRow.hostID = [2]) = true ∧
    MarksOnlyUnseen t := by
  have hadmits : (idle twoHosts).admits sampleStore.program SparesCandidates busyScan = true := by
    decide +kernel
  have hmarks : ((idle twoHosts).steps sampleStore.program busyScan).any (fun t =>
      decide (t.world.commits.length = 1) && (t.committing 0).any fun c =>
        (statusWrites c.acc).map HostStatusRow.hostID = [2]) = true := by decide +kernel
  obtain ⟨t, ht, hrun⟩ := Sys.run_of_admits hadmits
  rw [ht, Option.any_some, Bool.and_eq_true, decide_eq_true_eq] at hmarks
  exact ⟨t, ht, hmarks.1, hmarks.2,
    reconcileOffline_marks_only_unseen sampleStore twoHosts t hrun⟩

/-- The candidates are read, the host reports at 19 s, and is then marked offline at 20 s. -/
def staleScan : List (Event Database StoreCall) :=
  [.start (.reconcileOffline (20 * second)), .advance 0,
    .start (sampleHeartbeat 3 "a1" (19 * second))] ++
  List.replicate 11 (.advance 1) ++ List.replicate 6 (.advance 0)

theorem reconcileOffline_marks_live_host :
    ((idle acmeDatabase).steps sampleStore.program staleScan).any
      (fun t => !decide (MarksOnlyUnseen t)) = true := by
  decide

end Gaoming
