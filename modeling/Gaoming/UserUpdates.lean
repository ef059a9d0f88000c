import Gaoming.OperationsAuthority

/-!
# Updates of one user

`UpdateUser` reads the row without a lock and later writes every column of what it
has read, so whatever another transaction has committed in between is undone. When
no such commit happens, every column of a user carries the last value that a
committed call has set.
-/

namespace Gaoming
open Relational Transaction

def ControlCall.patchOn (id : Serial) : ControlCall → UserUpdate
  | .updateUser _ _ userID patch => if userID = (id : ℤ) then patch else {}
  | _ => {}

def ControlCall.loginOn (id : Serial) : ControlCall → Option Time
  | .createSession _ userID _ _ _ _ now =>
      if userID = (id : ℤ) then some (timestamptz now) else none
  | _ => none

/-- The last of the values, as a column of this width keeps it; without any, the first one. -/
def Carries (width : ℕ) (values : List String) (first current : String) : Prop :=
  match values.getLast? with
  | none => current = first
  | some x => varchar width x = some current

section History
variable (id : Serial) (calls : List ControlCall)

def namesSet : List String := calls.filterMap fun c => (c.patchOn id).displayName
def rolesSet : List String := calls.filterMap fun c => (c.patchOn id).role
def statusesSet : List String := calls.filterMap fun c => (c.patchOn id).status
def loginsSet : List Time := calls.filterMap (ControlCall.loginOn id)

end History

/-- The row has values that its columns can hold. -/
structure UserRow.Fits (u : UserRow) : Prop where
  displayName : varchar 128 u.displayName = some u.displayName
  role : varchar 32 u.role = some u.role
  status : varchar 32 u.status = some u.status
  lastLoginAt : u.lastLoginAt.map timestamptz = u.lastLoginAt

structure UserHistory (id : Serial) (calls : List ControlCall) (u₀ u : UserRow) : Prop where
  fits : u.Fits
  displayName : Carries 128 (namesSet id calls) u₀.displayName u.displayName
  role : Carries 32 (rolesSet id calls) u₀.role u.role
  status : Carries 32 (statusesSet id calls) u₀.status u.status
  lastLoginAt : u.lastLoginAt = (loginsSet id calls).getLast?.or u₀.lastLoginAt

/-- The users of a world are those of `db₀`, with what the commits have set. -/
def UserState (db₀ : Database) (w : ControlWorld) : Prop :=
  ∀ id u₀, db₀.users.get? id = some u₀ → ∃ u, w.db.users.get? id = some u ∧
    UserHistory id (w.commits.map Commit.call) u₀ u

section Columns
variable {width : ℕ} {values : List String} {first current next : String}

theorem Carries.keep (h : Carries width values first current)
    (hnext : varchar width current = some next)
    (hidem : varchar width current = some current) : Carries width values first next := by
  rw [hidem, Option.some.injEq] at hnext
  exact hnext ▸ h

theorem Carries.set {x : String} (hx : varchar width x = some next) :
    Carries width (values ++ [x]) first next := by
  rw [Carries, List.getLast?_concat]
  exact hx

/-- One assignment of `UpdateUser`, followed by the column's conversion. -/
theorem Carries.patch {set : Option String} (h : Carries width values first current)
    (hidem : varchar width current = some current)
    (hnext : varchar width (set.getD current) = some next) :
    Carries width (values ++ set.toList) first next := by
  cases set with
  | none =>
    rw [Option.toList_none, List.append_nil]
    exact h.keep hnext hidem
  | some x => exact Carries.set hnext

end Columns

section Steps
variable {id : Serial} {calls : List ControlCall} {u₀ u r : UserRow}

theorem filterMap_concat {α β : Type} (f : α → Option β) (l : List α) (a : α) :
    (l ++ [a]).filterMap f = l.filterMap f ++ (f a).toList := by
  rw [List.filterMap_append]
  cases h : f a <;> simp [h]

theorem UserRow.fits_of_stored (h : u.stored = some r) : r.Fits := by
  obtain ⟨-, -, hname, hrole, hstatus, hlogin⟩ := UserRow.stored_spec h
  refine ⟨varchar_idem hname, varchar_idem hrole, varchar_idem hstatus, ?_⟩
  rw [hlogin, Option.map_map]
  congr 1
  exact funext timestamptz_idem

/-- A call that sets nothing of this user. -/
theorem UserHistory.skip {c : ControlCall} (h : UserHistory id calls u₀ u)
    (hpatch : c.patchOn id = {}) (hlogin : c.loginOn id = none) :
    UserHistory id (calls ++ [c]) u₀ u where
  fits := h.fits
  displayName := by simpa [namesSet, filterMap_concat, hpatch] using h.displayName
  role := by simpa [rolesSet, filterMap_concat, hpatch] using h.role
  status := by simpa [statusesSet, filterMap_concat, hpatch] using h.status
  lastLoginAt := by simpa [loginsSet, filterMap_concat, hlogin] using h.lastLoginAt

theorem UserHistory.update {d : AccountDraws} {tenantCode : String} {patch : UserUpdate}
    (h : UserHistory id calls u₀ u)
    (hr : ({ patch.apply u with updatedAt := d.clock } : UserRow).stored = some r) :
    UserHistory id (calls ++ [.updateUser d tenantCode id patch]) u₀ r := by
  obtain ⟨-, -, hname, hrole, hstatus, hlogin⟩ := UserRow.stored_spec hr
  have hpatch : (ControlCall.updateUser d tenantCode id patch).patchOn id = patch := if_pos rfl
  have hnone : (ControlCall.updateUser d tenantCode id patch).loginOn id = none := rfl
  refine ⟨UserRow.fits_of_stored hr, ?_, ?_, ?_, ?_⟩
  · rw [namesSet, filterMap_concat, hpatch]
    exact h.displayName.patch h.fits.displayName hname
  · rw [rolesSet, filterMap_concat, hpatch]
    exact h.role.patch h.fits.role hrole
  · rw [statusesSet, filterMap_concat, hpatch]
    exact h.status.patch h.fits.status hstatus
  · rw [loginsSet, filterMap_concat, hnone, Option.toList_none, List.append_nil]
    exact hlogin.trans (h.fits.lastLoginAt.trans h.lastLoginAt)

theorem UserHistory.login {d : AccountDraws} {tokenHash ip userAgent : String}
    {expiresAt now : Time} (h : UserHistory id calls u₀ u) :
    UserHistory id (calls ++ [.createSession d id tokenHash expiresAt ip userAgent now]) u₀
      { u with lastLoginAt := some (timestamptz now), updatedAt := timestamptz now } := by
  have hset : (ControlCall.createSession d id tokenHash expiresAt ip userAgent now).loginOn id =
      some (timestamptz now) := if_pos rfl
  refine ⟨?_, ?_, ?_, ?_, ?_⟩
  · refine ⟨h.fits.displayName, h.fits.role, h.fits.status, ?_⟩
    rw [Option.map_some, timestamptz_idem]
  · simpa [namesSet, filterMap_concat, ControlCall.patchOn] using h.displayName
  · simpa [rolesSet, filterMap_concat, ControlCall.patchOn] using h.role
  · simpa [statusesSet, filterMap_concat, ControlCall.patchOn] using h.status
  · rw [loginsSet, filterMap_concat, hset, Option.toList_some, List.getLast?_concat]
    rfl

end Steps

def usersRead (acc : List Access) : List Serial :=
  acc.filterMap fun
    | .readUser id => some id
    | _ => none

def usersWritten (acc : List Access) : List Serial :=
  acc.filterMap fun
    | .putUser r => some r.id
    | _ => none

theorem mem_usersRead {acc : List Access} {id : Serial} :
    id ∈ usersRead acc ↔ .readUser id ∈ acc := by
  rw [usersRead, List.mem_filterMap]
  constructor
  · rintro ⟨a, ha, h⟩
    cases a with
    | readUser id' =>
      cases h
      exact ha
    | _ => cases h
  · exact fun h => ⟨_, h, rfl⟩

theorem mem_usersWritten {acc : List Access} {r : UserRow} (h : .putUser r ∈ acc) :
    r.id ∈ usersWritten acc := List.mem_filterMap.mpr ⟨_, h, rfl⟩

structure UserRely (J : ControlWorld → Prop) (acc : List Access) (w w' : ControlWorld) :
    Prop where
  holds : J w'
  reads : ∀ id ∈ usersRead acc, w'.db.users.get? id = w.db.users.get? id
  kept : Kept acc w.db w'.db

theorem UserRely.trans {J : ControlWorld → Prop} {acc : List Access} {u v w : ControlWorld}
    (h : UserRely J acc u v) (h' : UserRely J acc v w) : UserRely J acc u w :=
  ⟨h'.holds, fun id hid => (h'.reads id hid).trans (h.reads id hid), h.kept.trans h'.kept⟩

def UserPost (db₀ : Database) : ControlCall → List Access → ControlWorld → Prop
  | .updateUser d _ userID patch, acc, w => ∃ u r, w.db.users.get? u.id = some u ∧
      userID = (u.id : ℤ) ∧
      ({ patch.apply u with updatedAt := d.clock } : UserRow).stored = some r ∧
      (Tx.view w.db acc).users = w.db.users.put r
  | .createSession _ userID _ _ _ _ now, acc, w =>
    (∃ u, w.db.users.get? u.id = some u ∧ userID = (u.id : ℤ) ∧
      (Tx.view w.db acc).users = w.db.users.put
        { u with lastLoginAt := some (timestamptz now), updatedAt := timestamptz now }) ∨
    (∀ id u₀, db₀.users.get? id = some u₀ → userID ≠ (id : ℤ)) ∧
      (Tx.view w.db acc).users = w.db.users
  | _, acc, w => (Tx.view w.db acc).users = w.db.users

def Access.SparesUsers : Access → Prop
  | .putUser _ => False
  | _ => True

section Calls
variable {db₀ : Database} {J : ControlWorld → Prop} {w : ControlWorld}

theorem users_spared {acc : List Access} (h : ∀ a ∈ acc, a.SparesUsers) (db : Database) :
    (Tx.view db acc).users = db.users := by
  refine view_frame (f := Database.users) (fun a ha x => ?_) db
  cases a with
  | putUser r => exact (h _ ha).elim
  | _ => rfl

theorem spared_of_uses {c : ControlCall} (h : (controlProgram c).Uses Access.SparesUsers) :
    (controlProgram c).wp (UserRely J)
      (fun _ acc w => (Tx.view w.db acc).users = w.db.users) [] w :=
  Tx.wp_of_uses h (P := fun _ => True) (fun _ _ _ _ _ _ => trivial) trivial
    fun _ _ v has _ => users_spared has v.db

theorem spares_administrative {c : ControlCall} (h : c.administrative = true) :
    (controlProgram c).Uses Access.SparesUsers := by
  refine (administrative_program h).mono fun a ha => ?_
  cases a with
  | putUser r => exact ha.elim
  | _ => trivial

theorem spares_ackAlert (p : Principal) (alertID : String) (now : Time) :
    (ackAlert p alertID now).Uses Access.SparesUsers := by
  unfold ackAlert
  cases parseInt alertID with
  | none => exact Tx.uses_throw _
  | some id =>
    refine Tx.uses_ite (Tx.uses_throw _) ?_
    refine Tx.uses_bind (uses_operationTenant (fun _ => trivial) fun _ => trivial) fun tenant => ?_
    refine Tx.uses_bind (uses_takeAlert fun _ => trivial) fun event =>
      Tx.uses_ite (Tx.uses_pure _) ?_
    exact Tx.uses_bind (uses_updateAlertAck fun _ => trivial) fun _ =>
      uses_writeOperationAudit fun _ => trivial

theorem updateUser_wp (d : AccountDraws) (tenantCode : String) (userID : ℤ) (patch : UserUpdate) :
    (updateUser d tenantCode userID patch).wp (UserRely J)
      (fun _ acc w => UserPost db₀ (.updateUser d tenantCode userID patch) acc w) [] w := by
  refine Tx.wp_query fun v₁ _ => ?_
  cases (Tx.view v₁.db []).tenants.rows.find? fun t => t.tenantCode = tenantCode with
  | none => exact Tx.wp_throw
  | some tenant =>
  refine Tx.wp_exec fun v₂ _ u as hexec => ?_
  split at hexec
  · cases hexec
  rename_i u' hu
  cases hexec
  obtain ⟨hrow₂, hid, -⟩ := find_user_of_tenant hu
  -- the row that was read stays the committed one until this call commits
  have hlater : ∀ as v, UserRely J ([.readUser u.id] ++ as) v₂ v → v.db.users.get? u.id = some u :=
    fun as v hv => (hv.reads _ (mem_usersRead.mpr (by simp))).trans hrow₂
  refine Tx.wp_exec fun v₃ h₃ updated as hexec => ?_
  cases hr : ({ patch.apply u with updatedAt := d.clock } : UserRow).stored with
  | none =>
    rw [hr] at hexec
    cases hexec
  | some r =>
  rw [hr] at hexec
  have hkey : r.id = u.id := (UserRow.stored_spec hr).1
  have hthere : ¬ ((Tx.view v₃.db ([] ++ [.readUser u.id])).users.get? r.id).isNone = true := by
    change ¬ (v₃.db.users.get? r.id).isNone = true
    rw [hkey, hlater [] v₃ h₃]
    simp
  dsimp only at hexec
  rw [if_neg hthere] at hexec
  split_ifs at hexec
  cases hexec
  refine Tx.wp_query fun v₄ h₄ => Tx.wp_pure fun v₅ h₅ => ?_
  have hall : UserRely J ([.readUser u.id] ++ [.lockUsers .share, .putUser r]) v₃ v₅ := h₄.trans h₅
  have hrow₅ : v₅.db.users.get? u.id = some u :=
    (hall.reads _ (mem_usersRead.mpr (by simp))).trans (hlater [] v₃ h₃)
  exact ⟨u, r, hrow₅, hid.symm, hr, rfl⟩

theorem spares_insertUserSession (d : AccountDraws) (userID : ℤ)
    (session : Serial → UserSessionRow) :
    (insertUserSession d userID session).Uses Access.SparesUsers := by
  refine Tx.uses_exec fun db x bs hx a ha => ?_
  split at hx
  · cases hx
  · split at hx
    · cases hx
    · split_ifs at hx
      cases hx
      simp only [List.mem_cons, List.not_mem_nil, or_false] at ha
      rcases ha with rfl | rfl <;> trivial

/-- The accesses of a login. -/
def loginAccesses (u : UserRow) (now : Time) : List Access :=
  [.lockUsers .share, .putUser { u with
    lastLoginAt := some (timestamptz now), updatedAt := timestamptz now }]

theorem locks_login (u : UserRow) (now : Time) : Locks (loginAccesses u now) (.user u.id) :=
  ⟨_, List.mem_cons_of_mem _ (List.mem_singleton_self _), rfl, by simp [Access.mode]⟩

theorem createSession_wp (d : AccountDraws) (userID : ℤ) (tokenHash : String) (expiresAt : Time)
    (ip userAgent : String) (now : Time) :
    (createSession d userID tokenHash expiresAt ip userAgent now).wp (UserRely (UserState db₀))
      (fun _ acc w =>
        UserPost db₀ (.createSession d userID tokenHash expiresAt ip userAgent now) acc w)
      [] w := by
  refine Tx.wp_exec fun v₁ h₁ _ as hexec => ?_
  split at hexec
  · rename_i hnone
    cases hexec
    refine Tx.wp_of_uses (spares_insertUserSession _ _ _) (P := fun _ => True)
      (fun _ _ _ _ _ _ => trivial) trivial fun _ as v has _ => .inr ⟨?_, ?_⟩
    · rintro id u₀ hu₀ rfl
      obtain ⟨u, hu, -⟩ := h₁.holds id u₀ hu₀
      have hno := List.find?_eq_none.mp hnone u (Table.mem_of_get? hu)
      simp [Table.key_of_get? hu] at hno
    · rw [Tx.view_append]
      exact users_spared has _
  · rename_i u hu
    cases hexec
    obtain ⟨hrow, hid⟩ := find_user hu
    refine Tx.wp_of_uses (spares_insertUserSession _ _ _)
      (P := fun v => v.db.users.get? u.id = some u) ?_ hrow ?_
    · intro as _ v v' hv hP
      exact (hv.kept.users _ ((locks_login u now).append as)).trans hP
    · intro _ as v has hP
      refine .inl ⟨u, hP, hid.symm, ?_⟩
      rw [Tx.view_append]
      exact users_spared has _

theorem userPost_wp (c : ControlCall) (w : ControlWorld) :
    (controlProgram c).wp (UserRely (UserState db₀))
      (fun _ acc w => UserPost db₀ c acc w) [] w := by
  cases c with
  | updateUser d tenantCode userID patch =>
    exact Tx.wp_bind_pure (Tx.wp_mapError (updateUser_wp d tenantCode userID patch))
  | createSession d userID tokenHash expiresAt ip userAgent now =>
    exact Tx.wp_bind_pure (f := fun _ => ControlReply.done)
      (Tx.wp_mapError (createSession_wp d userID tokenHash expiresAt ip userAgent now))
  | ackAlert p alertID now =>
    exact spared_of_uses (Tx.uses_bind (Tx.uses_mapError (spares_ackAlert p alertID now))
      fun _ => Tx.uses_pure _)
  | createMaintenance => exact spared_of_uses (spares_administrative rfl)
  | createShare => exact spared_of_uses (spares_administrative rfl)
  | revokeShare => exact spared_of_uses (spares_administrative rfl)
  | setTenantStatus => exact spared_of_uses (spares_administrative rfl)

end Calls

section Runs
variable {db₀ : Database} {w : ControlWorld}

theorem UserState.skip {c : Commit ControlCall ControlReply} {db : Database} (h : UserState db₀ w)
    (husers : db.users = w.db.users)
    (hnone : ∀ id u₀, db₀.users.get? id = some u₀ →
      c.call.patchOn id = {} ∧ c.call.loginOn id = none) :
    UserState db₀ ⟨db, w.commits ++ [c]⟩ := by
  intro id u₀ hu₀
  obtain ⟨u, hu, hhist⟩ := h id u₀ hu₀
  obtain ⟨hpatch, hlogin⟩ := hnone id u₀ hu₀
  refine ⟨u, husers ▸ hu, ?_⟩
  rw [List.map_append]
  exact hhist.skip hpatch hlogin

/-- A commit that writes the row of one user. -/
theorem UserState.put {c : Commit ControlCall ControlReply} {db : Database} {u r : UserRow}
    (h : UserState db₀ w) (hu : w.db.users.get? u.id = some u) (hkey : r.id = u.id)
    (husers : db.users = w.db.users.put r)
    (hnone : ∀ id, id ≠ u.id → c.call.patchOn id = {} ∧ c.call.loginOn id = none)
    (hset : ∀ calls u₀, UserHistory u.id calls u₀ u → UserHistory u.id (calls ++ [c.call]) u₀ r) :
    UserState db₀ ⟨db, w.commits ++ [c]⟩ := by
  intro id u₀ hu₀
  obtain ⟨x, hx, hhist⟩ := h id u₀ hu₀
  rw [List.map_append]
  by_cases hid : id = u.id
  · subst hid
    rw [hu, Option.some.injEq] at hx
    subst hx
    refine ⟨r, ?_, hset _ _ hhist⟩
    rw [husers, ← hkey]
    exact Table.get?_put_self _ r
  · obtain ⟨hpatch, hlogin⟩ := hnone id hid
    refine ⟨x, ?_, hhist.skip hpatch hlogin⟩
    rw [husers]
    exact (Table.get?_put_of_ne _ fun heq => hid (heq.symm.trans hkey)).trans hx

theorem UserState.commit {c : Commit ControlCall ControlReply} {acc : List Access}
    (h : UserState db₀ w) (hpost : UserPost db₀ c.call acc w) :
    UserState db₀ ⟨Tx.view w.db acc, w.commits ++ [c]⟩ := by
  obtain ⟨began, call, r⟩ := c
  cases call with
  | updateUser d tenantCode userID patch =>
    obtain ⟨u, row, hu, rfl, hrow, husers⟩ := hpost
    refine h.put hu (UserRow.stored_spec hrow).1 husers (fun id hid => ⟨?_, rfl⟩)
      fun calls u₀ hhist => hhist.update hrow
    exact if_neg fun heq => hid (by exact_mod_cast heq.symm)
  | createSession d userID tokenHash expiresAt ip userAgent now =>
    rcases hpost with ⟨u, hu, rfl, husers⟩ | ⟨habsent, husers⟩
    · refine h.put
        (r := { u with lastLoginAt := some (timestamptz now), updatedAt := timestamptz now })
        hu rfl husers (fun id hid => ⟨rfl, ?_⟩) fun calls u₀ hhist => hhist.login
      exact if_neg fun heq => hid (by exact_mod_cast heq.symm)
    · exact h.skip husers fun id u₀ hu₀ => ⟨rfl, if_neg (habsent id u₀ hu₀)⟩
  | ackAlert => exact h.skip hpost fun _ _ _ => ⟨rfl, rfl⟩
  | createMaintenance => exact h.skip hpost fun _ _ _ => ⟨rfl, rfl⟩
  | createShare => exact h.skip hpost fun _ _ _ => ⟨rfl, rfl⟩
  | revokeShare => exact h.skip hpost fun _ _ _ => ⟨rfl, rfl⟩
  | setTenantStatus => exact h.skip hpost fun _ _ _ => ⟨rfl, rfl⟩

end Runs

/-- No call commits a change to a user that another running call has read and will write. -/
def ReadsUndisturbed (s : ControlSys) : Event Database ControlCall → Prop
  | .advance i => ∀ c ∈ (s.committing i).toList, ∀ id ∈ usersWritten c.acc,
      ∀ d ∈ s.others i, id ∉ usersRead d.acc
  | .env db => LeavesControl s (.env db)
  | _ => True

instance (s : ControlSys) : (e : Event Database ControlCall) → Decidable (ReadsUndisturbed s e)
  | .advance i => inferInstanceAs (Decidable (∀ c ∈ (s.committing i).toList,
      ∀ id ∈ usersWritten c.acc, ∀ d ∈ s.others i, id ∉ usersRead d.acc))
  | .env db => inferInstanceAs (Decidable (LeavesControl s (.env db)))
  | .start _ | .cancel _ => instDecidableTrue

theorem users_discipline (db₀ : Database) :
    Sys.Discipline controlProgram ReadsUndisturbed (UserState db₀)
      (fun _ => UserRely (UserState db₀)) (fun c _ _ acc w => UserPost db₀ c acc w) where
  rely_refl := fun _ acc w h => ⟨h, fun _ _ => rfl, .refl acc w.db⟩
  rely_trans := fun _ _ _ _ _ h h' => h.trans h'
  start := fun s c _ _ => userPost_wp c s.world
  commit := by
    intro s i c r hok hlive hp hJ hpost
    have hJ' : UserState db₀ (s.afterCommit c r) := hJ.commit hpost
    refine ⟨hJ', fun j d hne hd hcompat => ⟨hJ', fun id hid => ?_, kept_of_compatible hcompat _⟩⟩
    have hcommit : c ∈ (s.committing i).toList := by
      rw [Sys.committing_eq_some.mpr ⟨hlive, r, hp⟩]
      simp
    refine view_frame (f := fun x => x.users.get? id) (fun a ha => users_apply ?_) s.world.db
    rintro row rfl rfl
    exact hok c hcommit row.id (mem_usersWritten ha) d (Sys.mem_others.mpr ⟨j, hne, hd⟩) hid
  env := by
    rintro s db ⟨husers, htenants, halerts, -⟩ hJ
    have hJ' : UserState db₀ { s.world with db := db } := by
      intro id u₀ hu₀
      rw [husers]
      exact hJ id u₀ hu₀
    refine ⟨hJ', fun _ _ _ => ⟨hJ', fun _ _ => ?_, fun _ _ => ?_, fun _ _ => ?_, fun _ _ => ?_⟩⟩
    · rw [husers]
    · rw [husers]
    · rw [htenants]
    · rw [halerts]

theorem UserState.initial {db : Database} (h : ∀ u ∈ db.users.rows, u.Fits) :
    UserState db ⟨db, []⟩ :=
  fun _ u₀ hu₀ => ⟨u₀, hu₀, h u₀ (Table.mem_of_get? hu₀), rfl, rfl, rfl, rfl⟩

/-- The two patches set no field in common. -/
structure UserUpdate.Disjoint (p q : UserUpdate) : Prop where
  displayName : p.displayName = none ∨ q.displayName = none
  role : p.role = none ∨ q.role = none
  status : p.status = none ∨ q.status = none

instance (p q : UserUpdate) : Decidable (p.Disjoint q) :=
  decidable_of_iff ((p.displayName = none ∨ q.displayName = none) ∧
      (p.role = none ∨ q.role = none) ∧ (p.status = none ∨ q.status = none))
    ⟨fun ⟨hname, hrole, hstatus⟩ => ⟨hname, hrole, hstatus⟩,
      fun h => ⟨h.displayName, h.role, h.status⟩⟩

/-- The row has what the patch sets, as its columns keep it. -/
structure UserUpdate.CarriedBy (p : UserUpdate) (u : UserRow) : Prop where
  displayName : ∀ x, p.displayName = some x → varchar 128 x = some u.displayName
  role : ∀ x, p.role = some x → varchar 32 x = some u.role
  status : ∀ x, p.status = some x → varchar 32 x = some u.status

theorem getLast?_filterMap_of_pairwise {α β : Type} {f : α → Option β} {l : List α} {a : α} {x : β}
    (hl : l.Pairwise fun a b => f a = none ∨ f b = none) (ha : a ∈ l) (hx : f a = some x) :
    (l.filterMap f).getLast? = some x := by
  induction l with
  | nil => cases ha
  | cons b l ih =>
    obtain ⟨hb, hl⟩ := List.pairwise_cons.mp hl
    by_cases hfb : f b = none
    · have hmem : a ∈ l := by
        rcases List.mem_cons.mp ha with rfl | hmem
        · simp [hfb] at hx
        · exact hmem
      rw [List.filterMap_cons_none hfb]
      exact ih hl hmem
    · have hrest : l.filterMap f = [] :=
        List.filterMap_eq_nil_iff.mpr fun c hc => (hb c hc).resolve_left hfb
      rcases List.mem_cons.mp ha with rfl | hmem
      · rw [List.filterMap_cons_some hx, hrest]
        rfl
      · rw [(hb a hmem).resolve_left hfb] at hx
        cases hx

theorem Carries.of_getLast? {width : ℕ} {values : List String} {first current x : String}
    (h : Carries width values first current) (hx : values.getLast? = some x) :
    varchar width x = some current := by
  rw [Carries, hx] at h
  exact h

theorem UserHistory.carriedBy {id : Serial} {calls : List ControlCall} {u₀ u : UserRow}
    (h : UserHistory id calls u₀ u)
    (hdisjoint : calls.Pairwise fun c d => (c.patchOn id).Disjoint (d.patchOn id))
    {c : ControlCall} (hc : c ∈ calls) : (c.patchOn id).CarriedBy u where
  displayName := fun _ hx => h.displayName.of_getLast?
    (getLast?_filterMap_of_pairwise (hdisjoint.imp UserUpdate.Disjoint.displayName) hc hx)
  role := fun _ hx => h.role.of_getLast?
    (getLast?_filterMap_of_pairwise (hdisjoint.imp UserUpdate.Disjoint.role) hc hx)
  status := fun _ hx => h.status.of_getLast?
    (getLast?_filterMap_of_pairwise (hdisjoint.imp UserUpdate.Disjoint.status) hc hx)

/-- In a run where no call commits a change to a user between another call's read of that
user and the end of that call, every user has what all committed patches have set, when no
two of them set the same field, and the time of the login that committed last. -/
theorem user_updates_carried (db : Database) (s : ControlSys)
    (hinit : ∀ u ∈ db.users.rows, u.Fits)
    (h : Sys.Run controlProgram ReadsUndisturbed ⟨⟨db, []⟩, []⟩ s) (id : Serial) (u₀ : UserRow)
    (hu₀ : db.users.get? id = some u₀)
    (hdisjoint : (s.world.commits.map Commit.call).Pairwise fun c d =>
      (c.patchOn id).Disjoint (d.patchOn id)) :
    ∃ u, s.world.db.users.get? id = some u ∧
      (∀ c ∈ s.world.commits, (c.call.patchOn id).CarriedBy u) ∧
      u.lastLoginAt =
        (loginsSet id (s.world.commits.map Commit.call)).getLast?.or u₀.lastLoginAt := by
  have hsound := h.sound (users_discipline db) (Sys.sound_of_idle (.initial hinit))
  obtain ⟨u, hu, hhist⟩ := hsound.inv id u₀ hu₀
  exact ⟨u, hu, fun c hc => hhist.carriedBy hdisjoint (List.mem_map_of_mem hc), hhist.lastLoginAt⟩

-- One administrator disables an account that another one renames, while its owner logs in.

def sampleUsers : Database :=
  { sampleShares with users := ⟨[
      { id := 1, tenantID := 1, role := "admin", status := "active" },
      { id := 2, tenantID := 1, role := "member", status := "active", displayName := "old" }],
    by decide⟩ }

def disableAndRename : List (Event Database ControlCall) :=
  [.start (.updateUser {} "acme" 2 { status := some "disabled" }),
    .start (.updateUser {} "acme" 2 { displayName := some "new" }),
    .start (.createSession {} 2 "token" 9000 "" "" 5000)]

def inTurn : List (Event Database ControlCall) :=
  disableAndRename ++ (controlAdvances 0 5 ++ controlAdvances 2 3 ++ controlAdvances 1 5)

theorem user_updates_carried_in_turn : ∃ s,
    (⟨⟨sampleUsers, []⟩, []⟩ : ControlSys).steps controlProgram inTurn = some s ∧
    s.world.commits.length = 3 ∧ ∃ u, s.world.db.users.get? 2 = some u ∧
      (∀ c ∈ s.world.commits, (c.call.patchOn 2).CarriedBy u) ∧ u.lastLoginAt = some 5000 := by
  have hadmits : (⟨⟨sampleUsers, []⟩, []⟩ : ControlSys).admits controlProgram ReadsUndisturbed
      inTurn = true := by decide +kernel
  have hend : ((⟨⟨sampleUsers, []⟩, []⟩ : ControlSys).steps controlProgram inTurn).any (fun s =>
      s.world.commits.length = 3 &&
      decide ((s.world.commits.map Commit.call).Pairwise fun c d =>
        (c.patchOn 2).Disjoint (d.patchOn 2)) &&
      (loginsSet 2 (s.world.commits.map Commit.call)).getLast? = some 5000) = true := by
    decide +kernel
  obtain ⟨s, hs, hrun⟩ := Sys.run_of_admits hadmits
  rw [hs, Option.any_some, Bool.and_eq_true, Bool.and_eq_true] at hend
  obtain ⟨⟨hlength, hdisjoint⟩, hlogin⟩ := hend
  have hfits : ∀ u ∈ sampleUsers.users.rows, u.Fits := by
    intro u hu
    simp only [sampleUsers, List.mem_cons, List.not_mem_nil, or_false] at hu
    rcases hu with rfl | rfl <;> exact ⟨by decide, by decide, by decide, rfl⟩
  obtain ⟨u, hu, hcarried, hlast⟩ := user_updates_carried sampleUsers s hfits hrun 2 _ rfl
    (of_decide_eq_true hdisjoint)
  rw [of_decide_eq_true hlogin] at hlast
  exact ⟨s, hs, of_decide_eq_true hlength, u, hu, hcarried, hlast⟩

/-- Both updates read the row before either writes it, and the login commits in between. -/
def readBeforeWrites : List (Event Database ControlCall) :=
  disableAndRename ++ (controlAdvances 0 2 ++ controlAdvances 1 2 ++ controlAdvances 0 3 ++
    controlAdvances 2 3 ++ controlAdvances 1 3)

/-- All three commit, and the account is active again and has no login. -/
theorem user_updates_lost : ∃ s u,
    (⟨⟨sampleUsers, []⟩, []⟩ : ControlSys).steps controlProgram readBeforeWrites = some s ∧
    s.world.commits.length = 3 ∧ s.world.db.users.get? 2 = some u ∧
    u.status = "active" ∧ u.displayName = "new" ∧ u.lastLoginAt = none := by
  have hend : ((⟨⟨sampleUsers, []⟩, []⟩ : ControlSys).steps controlProgram readBeforeWrites).any
      (fun s => s.world.commits.length = 3 && (s.world.db.users.get? 2).any fun u =>
        u.status = "active" ∧ u.displayName = "new" ∧ u.lastLoginAt = none) = true := by
    decide +kernel
  rw [Option.any_eq_true] at hend
  obtain ⟨s, hs, hend⟩ := hend
  rw [Bool.and_eq_true, Option.any_eq_true] at hend
  obtain ⟨hlength, u, hu, hcolumns⟩ := hend
  exact ⟨s, u, hs, of_decide_eq_true hlength, hu, of_decide_eq_true hcolumns⟩

end Gaoming
