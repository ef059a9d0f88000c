import Gaoming.AccountStoreSpec
import Gaoming.TransactionInterleaving

/-!
# The first administrator

`BootstrapAdmin` and `EnsureStartupAdmin` decide on different conditions: the web
setup wants neither a marker nor a user, the start of the process only that there
is no user. Both take the advisory lock first and hold it to their end, so what one
of them has read of users and marker is still so when it commits, except that users
may be deleted. The marker is never taken away.
-/

namespace Gaoming
open Relational Transaction

inductive BootstrapCall
  | bootstrapAdmin (d : AccountDraws) (account : LocalAccount) (now : Time)
  | ensureStartupAdmin (d : AccountDraws) (password : String) (now : Time)
  deriving DecidableEq

inductive BootstrapReply
  | user (u : User)
  | created (b : Bool)
  deriving DecidableEq

def bootstrapProgram : BootstrapCall → AccountTx BootstrapReply
  | .bootstrapAdmin d account now => do return .user (← bootstrapAdmin d account now)
  | .ensureStartupAdmin d password now => do return .created (← ensureStartupAdmin d password now)

abbrev BootstrapSys := Sys Database Access AccountError BootstrapReply BootstrapCall
abbrev BootstrapWorld := World Database BootstrapCall BootstrapReply

def BootstrapCall.isSetup : BootstrapCall → Bool
  | .bootstrapAdmin _ _ _ => true
  | .ensureStartupAdmin _ _ _ => false

def BootstrapReply.creates : BootstrapReply → Bool
  | .user _ => true
  | .created b => b

theorem users_ne_nil_view {acc : List Access} {db : Database} (h : db.users.rows ≠ []) :
    (Tx.view db acc).users.rows ≠ [] := by
  refine Tx.view_induction (q := fun _ => True) (I := fun db : Database => db.users.rows ≠ []) ?_
    (fun _ _ => trivial) h
  intro db a _ hdb
  cases a with
  | putUser r => exact List.ne_nil_of_mem (Table.mem_put.mpr (.inl rfl))
  | _ => exact hdb

theorem users_ne_nil_of_put {acc : List Access} {r : UserRow} (h : .putUser r ∈ acc)
    (db : Database) : (Tx.view db acc).users.rows ≠ [] := by
  obtain ⟨before, after, rfl⟩ := List.append_of_mem h
  have hput : ((Tx.view db before).apply (.putUser r)).users.rows ≠ [] :=
    List.ne_nil_of_mem (Table.mem_put.mpr (.inl rfl))
  rw [Tx.view_append, Tx.view_cons]
  exact users_ne_nil_view hput

theorem marker_view {acc : List Access} {db : Database} (h : db.authBootstrapState.isSome = true) :
    (Tx.view db acc).authBootstrapState.isSome = true := by
  refine Tx.view_induction (q := fun _ => True)
    (I := fun db : Database => db.authBootstrapState.isSome = true) ?_ (fun _ _ => trivial) h
  intro db a _ hdb
  cases a with
  | putBootstrapState t => rfl
  | _ => exact hdb

/-- The marker that a transaction sees depends on nothing else in the database. -/
theorem marker_view_congr (acc : List Access) {db db' : Database}
    (h : db.authBootstrapState = db'.authBootstrapState) :
    (Tx.view db acc).authBootstrapState = (Tx.view db' acc).authBootstrapState := by
  induction acc generalizing db db' with
  | nil => exact h
  | cons a acc ih =>
    apply ih
    cases a with
    | putBootstrapState t => rfl
    | _ => exact h

structure SetupRely (acc : List Access) (w w' : BootstrapWorld) : Prop where
  marker : .advisory setupLock ∈ acc → w'.db.authBootstrapState = w.db.authBootstrapState
  empty : .advisory setupLock ∈ acc → w.db.users.rows = [] → w'.db.users.rows = []

theorem SetupRely.refl (acc : List Access) (w : BootstrapWorld) : SetupRely acc w w :=
  ⟨fun _ => rfl, fun _ h => h⟩

theorem SetupRely.trans {acc : List Access} {u v w : BootstrapWorld} (h : SetupRely acc u v)
    (h' : SetupRely acc v w) : SetupRely acc u w :=
  ⟨fun ha => (h'.marker ha).trans (h.marker ha), fun ha he => h'.empty ha (h.empty ha he)⟩

/-- What a transaction that goes on to create the account has found. -/
structure Open (setup : Bool) (acc : List Access) (w : BootstrapWorld) : Prop where
  locked : .advisory setupLock ∈ acc
  empty : w.db.users.rows = []
  unmarked : setup = true → w.db.authBootstrapState = none

theorem Open.rely {setup : Bool} {acc : List Access} {w w' : BootstrapWorld}
    (h : Open setup acc w) (hr : SetupRely acc w w') : Open setup acc w' :=
  ⟨h.locked, hr.empty h.locked h.empty, fun hs => (hr.marker h.locked).trans (h.unmarked hs)⟩

theorem Open.append {setup : Bool} {acc : List Access} {w : BootstrapWorld}
    (h : Open setup acc w) (as : List Access) : Open setup (acc ++ as) w :=
  ⟨List.mem_append_left _ h.locked, h.empty, h.unmarked⟩

structure Creating (setup : Bool) (acc : List Access) (w : BootstrapWorld) : Prop
    extends Open setup acc w where
  user : ∃ r, .putUser r ∈ acc

theorem Creating.rely {setup : Bool} {acc : List Access} {w w' : BootstrapWorld}
    (h : Creating setup acc w) (hr : SetupRely acc w w') : Creating setup acc w' :=
  ⟨h.toOpen.rely hr, h.user⟩

theorem Creating.append {setup : Bool} {acc : List Access} {w : BootstrapWorld}
    (h : Creating setup acc w) (as : List Access) : Creating setup (acc ++ as) w :=
  ⟨h.toOpen.append as, h.user.imp fun _ hr => List.mem_append_left _ hr⟩

section Programs
variable {α : Type} {setup : Bool} {acc : List Access} {w : BootstrapWorld}

theorem createLocalAdmin_wp {k : User → AccountTx α}
    {post : α → List Access → BootstrapWorld → Prop} (d : AccountDraws) (account : LocalAccount)
    (now : Time) (h : Open setup acc w)
    (hk : ∀ user acc w, Creating setup acc w → (k user).wp SetupRely post acc w) :
    (createLocalAdmin d account now >>= k).wp SetupRely post acc w := by
  have hrefl : ∀ acc (u v : BootstrapWorld), SetupRely acc u v → SetupRely acc v v :=
    fun acc _ v _ => .refl acc v
  apply Tx.wp_bind hrefl
  apply Tx.wp_bind hrefl
  refine Tx.wp_of_stable (I := Open setup) (fun _ _ _ hr h => h.rely hr)
    (fun _ as _ h => h.append as) _ h
    fun _ acc w h => ?_
  apply Tx.wp_bind hrefl
  refine Tx.wp_of_stable (I := Open setup) (fun _ _ _ hr h => h.rely hr)
    (fun _ as _ h => h.append as) _ h
    fun tenant acc w h => ?_
  refine Tx.wp_exec fun v hv _ as hexec => ?_
  have hcreating : Creating setup (acc ++ as) v := by
    refine ⟨(h.rely hv).append as, ?_⟩
    split at hexec
    · cases hexec
    · rename_i r hr
      split_ifs at hexec
      cases hexec
      exact ⟨r, by simp⟩
  exact Tx.wp_of_stable (I := Creating setup) (fun _ _ _ hr h => h.rely hr)
    (fun _ as _ h => h.append as) _ hcreating fun user acc w h => hk user acc w h

/-- What a call has found and written when it commits. -/
structure SetupPost (setup : Bool) (r : BootstrapReply) (acc : List Access) (w : BootstrapWorld) :
    Prop where
  locked : .advisory setupLock ∈ acc
  mustCreate : setup = true → r.creates = true
  creates : r.creates = true → Creating setup acc w ∧
    (Tx.view w.db acc).authBootstrapState.isSome = true
  idle : r.creates = false → (Tx.view w.db acc).users = w.db.users ∧
    (Tx.view w.db acc).authBootstrapState = w.db.authBootstrapState

theorem setupPost_of_creating {r : BootstrapReply} (hr : r.creates = true)
    (h : Creating setup acc w) (hmarker : (Tx.view w.db acc).authBootstrapState.isSome = true) :
    SetupPost setup r acc w where
  locked := h.locked
  mustCreate := fun _ => hr
  creates := fun _ => ⟨h, hmarker⟩
  idle := fun hno => by simp [hr] at hno

theorem bootstrapAdmin_wp (d : AccountDraws) (account : LocalAccount) (now : Time) :
    (bootstrapAdmin d account now).wp SetupRely (fun user => SetupPost true (.user user)) [] w := by
  refine Tx.wp_exec fun v₁ _ _ as hexec => ?_
  cases hexec
  refine Tx.wp_query fun v₂ _ => Tx.wp_ite (fun _ => Tx.wp_throw) fun havailable => ?_
  have hopen : Open true ([] ++ [.advisory setupLock]) v₂ := by
    change ¬ (!(v₂.db.authBootstrapState.isNone && v₂.db.users.rows.isEmpty)) = true at havailable
    have h : v₂.db.authBootstrapState = none ∧ v₂.db.users.rows = [] := by simpa using havailable
    exact ⟨by simp, h.2, fun _ => h.1⟩
  refine createLocalAdmin_wp d account now hopen fun user acc w h => ?_
  refine Tx.wp_exec fun v₃ h₃ _ as hexec => Tx.wp_pure fun v₄ h₄ => ?_
  split_ifs at hexec
  cases hexec
  refine setupPost_of_creating rfl (((h.rely h₃).append _).rely h₄) ?_
  rw [Tx.view_append]
  rfl

theorem ensureStartupAdmin_wp (d : AccountDraws) (password : String) (now : Time) :
    (ensureStartupAdmin d password now).wp SetupRely
      (fun created => SetupPost false (.created created)) [] w := by
  refine Tx.wp_exec fun v₁ _ _ as hexec => ?_
  cases hexec
  refine Tx.wp_exec fun v₂ _ _ as hexec => ?_
  cases hexec
  refine Tx.wp_query fun v₃ _ => Tx.wp_ite ?_ fun hempty => ?_
  · -- the users that exist end the call; it has taken locks and nothing else
    refine fun _ => Tx.wp_pure fun v₄ _ => ⟨by simp, by simp, ?_, fun _ => ⟨rfl, rfl⟩⟩
    intro hno
    cases hno
  refine Tx.wp_ite (fun _ => Tx.wp_throw) fun _ => ?_
  cases d.passwordHash with
  | none => exact Tx.wp_throw
  | some hash =>
  have hopen : Open false (([] ++ [.advisory setupLock]) ++ [.lockUsers .exclusive]) v₃ := by
    change ¬ (!v₃.db.users.rows.isEmpty) = true at hempty
    exact ⟨by simp, by simpa using hempty, fun hno => by cases hno⟩
  refine createLocalAdmin_wp d _ now hopen fun user acc w h => ?_
  refine Tx.wp_exec fun v₄ h₄ _ as hexec => Tx.wp_pure fun v₅ h₅ => ?_
  have hcreating : Creating false (acc ++ as) v₅ := ((h.rely h₄).append as).rely h₅
  refine setupPost_of_creating rfl hcreating ?_
  have hmarker : v₅.db.authBootstrapState = v₄.db.authBootstrapState :=
    h₅.marker hcreating.locked
  rw [marker_view_congr _ hmarker, Tx.view_append]
  split_ifs at hexec with hsome
  · cases hexec
    exact marker_view hsome
  · cases hexec
    rfl

theorem setupPost_wp (c : BootstrapCall) (w : BootstrapWorld) :
    (bootstrapProgram c).wp SetupRely (SetupPost c.isSetup) [] w := by
  cases c with
  | bootstrapAdmin d account now => exact Tx.wp_bind_pure (bootstrapAdmin_wp d account now)
  | ensureStartupAdmin d password now =>
      exact Tx.wp_bind_pure (ensureStartupAdmin_wp d password now)

end Programs

/-- Outside the two transactions users are deleted, with or without what depends on them. -/
def DeletesUsers (s : BootstrapSys) : Event Database BootstrapCall → Prop
  | .env db => db.authBootstrapState = s.world.db.authBootstrapState ∧
      ∀ u ∈ db.users.rows, u ∈ s.world.db.users.rows
  | _ => True

instance (s : BootstrapSys) : (e : Event Database BootstrapCall) → Decidable (DeletesUsers s e)
  | .env db => inferInstanceAs (Decidable (
      db.authBootstrapState = s.world.db.authBootstrapState ∧
        ∀ u ∈ db.users.rows, u ∈ s.world.db.users.rows))
  | .start _ | .advance _ | .cancel _ => instDecidableTrue

/-- The same, and the last user is never deleted. -/
def KeepsSomeUser (s : BootstrapSys) (e : Event Database BootstrapCall) : Prop :=
  DeletesUsers s e ∧ ∀ db, e = .env db → db.users.rows ≠ []

structure SetupState (w : BootstrapWorld) : Prop where
  marked : (∃ c ∈ w.commits, c.result.creates = true) → w.db.authBootstrapState.isSome = true
  once : w.commits.Pairwise fun c d => c.result.creates = true → d.call.isSetup = false
  setups : ∀ c ∈ w.commits, c.call.isSetup = true → c.result.creates = true

theorem SetupState.commit {w : BootstrapWorld} {c : Commit BootstrapCall BootstrapReply}
    {acc : List Access} (h : SetupState w) (hpost : SetupPost c.call.isSetup c.result acc w) :
    SetupState ⟨Tx.view w.db acc, w.commits ++ [c]⟩ where
  marked := by
    rintro ⟨d, hd, hcreates⟩
    rcases List.mem_append.mp hd with hd | hd
    · exact marker_view (h.marked ⟨d, hd, hcreates⟩)
    · rw [List.mem_singleton.mp hd] at hcreates
      exact (hpost.creates hcreates).2
  once := by
    refine List.pairwise_append.mpr
      ⟨h.once, List.pairwise_singleton _ _, fun d hd e he hcreates => ?_⟩
    rw [List.mem_singleton.mp he]
    by_contra hsetup
    have hsetup : c.call.isSetup = true := by simpa using hsetup
    -- the setup has found no marker, but the earlier call has left one
    have hnone := (hpost.creates (hpost.mustCreate hsetup)).1.unmarked hsetup
    have hsome := h.marked ⟨d, hd, hcreates⟩
    simp [hnone] at hsome
  setups := by
    intro d hd hsetup
    rcases List.mem_append.mp hd with hd | hd
    · exact h.setups d hd hsetup
    · rw [List.mem_singleton.mp hd] at hsetup ⊢
      exact hpost.mustCreate hsetup

theorem not_locked_of_compatible {as bs : List Access} (h : Compatible Database as bs)
    (ha : .advisory setupLock ∈ as) : .advisory setupLock ∉ bs := by
  intro hb
  have hconflict := h _ ha _ hb
  revert hconflict
  decide

theorem setup_discipline :
    Sys.Discipline bootstrapProgram DeletesUsers SetupState (fun _ => SetupRely)
      (fun c _ r acc w => SetupPost c.isSetup r acc w) where
  rely_refl := fun _ acc w _ => .refl acc w
  rely_trans := fun _ _ _ _ _ h h' => h.trans h'
  start := fun s c _ _ => setupPost_wp c s.world
  commit := by
    intro s i c r _ _ _ hJ hpost
    refine ⟨hJ.commit (c := ⟨c.began, c.call, r⟩) hpost, fun j d _ _ hcompat => ?_⟩
    have hno := not_locked_of_compatible hcompat hpost.locked
    exact ⟨fun h => absurd h hno, fun h => absurd h hno⟩
  env := by
    rintro s db ⟨hmarker, husers⟩ hJ
    refine ⟨⟨fun h => ?_, hJ.once, hJ.setups⟩, fun _ _ _ => ⟨fun _ => hmarker, fun _ hempty => ?_⟩⟩
    · rw [hmarker]
      exact hJ.marked h
    · refine List.eq_nil_iff_forall_not_mem.mpr fun u hu => ?_
      have hmem := husers u hu
      rw [hempty] at hmem
      cases hmem

/-- What holds in every reachable state of the two transactions and the deletions. -/
abbrev SetupSound (s : BootstrapSys) : Prop :=
  s.Sound SetupState (fun _ => SetupRely) fun c _ r acc w => SetupPost c.isSetup r acc w

def createdBy (commits : List (Commit BootstrapCall BootstrapReply)) :
    List (Commit BootstrapCall BootstrapReply) :=
  commits.filter fun c => c.result.creates

/-- While there is a user, one event adds no account. -/
theorem createdBy_step {s t : BootstrapSys} {e : Event Database BootstrapCall} (h : SetupSound s)
    (hok : KeepsSomeUser s e) (hstep : s.step bootstrapProgram e = some t)
    (husers : s.world.db.users.rows ≠ []) :
    t.world.db.users.rows ≠ [] ∧ createdBy t.world.commits = createdBy s.world.commits := by
  cases Sys.effect_of_step hstep with
  | start call => exact ⟨husers, rfl⟩
  | stmt i c exec next b as => exact ⟨husers, rfl⟩
  | finish i e => exact ⟨husers, rfl⟩
  | env db => exact ⟨hok.2 db rfl, rfl⟩
  | commit i c r hlive hp =>
    have hpost := h.commit_post setup_discipline hlive hp
    by_cases hr : r.creates = true
    · exact absurd (hpost.creates hr).1.empty husers
    · refine ⟨users_ne_nil_view husers, ?_⟩
      rw [createdBy, List.filter_append]
      simp [hr, createdBy]

theorem createdBy_run {s t : BootstrapSys} (h : SetupSound s) (husers : s.world.db.users.rows ≠ [])
    (hrun : Sys.Run bootstrapProgram KeepsSomeUser s t) :
    createdBy t.world.commits = createdBy s.world.commits := by
  suffices hall : SetupSound t ∧ t.world.db.users.rows ≠ [] ∧
      createdBy t.world.commits = createdBy s.world.commits from hall.2.2
  induction hrun with
  | refl => exact ⟨h, husers, rfl⟩
  | step e _ hok he ih =>
    obtain ⟨hsound, hne, heq⟩ := ih
    obtain ⟨hne', heq'⟩ := createdBy_step hsound hok he hne
    exact ⟨hsound.step setup_discipline hok.1 he, hne', heq'.trans heq⟩

theorem countP_le_one_of_pairwise {α : Type} {p : α → Bool} {l : List α}
    (h : l.Pairwise fun a b => p a = true → p b = false) : l.countP p ≤ 1 := by
  induction l with
  | nil => simp
  | cons a l ih =>
    obtain ⟨ha, hl⟩ := List.pairwise_cons.mp h
    by_cases hp : p a = true
    · have hzero : l.countP p = 0 :=
        List.countP_eq_zero.mpr fun b hb => by simp [ha b hb hp]
      rw [List.countP_cons_of_pos hp]
      omega
    · rw [List.countP_cons_of_neg hp]
      exact ih hl

/-- `BootstrapAdmin` commits at most once, and never after a call that has created an account.
After a call has created an account no other one does, unless all users are deleted. -/
theorem bootstrap_single_use (db : Database) (s : BootstrapSys)
    (h : Sys.Run bootstrapProgram DeletesUsers ⟨⟨db, []⟩, []⟩ s) :
    (s.world.commits.countP fun c => c.call.isSetup) ≤ 1 ∧
    (s.world.commits.Pairwise fun c d => c.result.creates = true → d.call.isSetup = false) ∧
    ∀ i c t u, s.step bootstrapProgram (.advance i) = some t →
      t.world.commits = s.world.commits ++ [c] → c.result.creates = true →
      Sys.Run bootstrapProgram KeepsSomeUser t u →
      createdBy u.world.commits = createdBy t.world.commits := by
  have hidle : SetupSound ⟨⟨db, []⟩, []⟩ :=
    Sys.sound_of_idle ⟨by simp, List.Pairwise.nil, by simp⟩
  have hsound : SetupSound s := h.sound setup_discipline hidle
  refine ⟨countP_le_one_of_pairwise ?_, hsound.inv.once, ?_⟩
  · refine hsound.inv.once.imp_of_mem fun hc _ hcd hsetup => hcd (hsound.inv.setups _ hc hsetup)
  · intro i c t u hstep hcommits hcreates hrun
    have hsound' : SetupSound t := hsound.step (e := .advance i) setup_discipline trivial hstep
    refine createdBy_run hsound' ?_ hrun
    cases Sys.effect_of_step hstep with
    | stmt i c exec next b as => simp at hcommits
    | finish i e => simp at hcommits
    | commit i d r hlive hp =>
      have hc : c = ⟨d.began, d.call, r⟩ := by simpa using hcommits.symm
      have hpost := hsound.commit_post setup_discipline hlive hp
      rw [hc] at hcreates
      obtain ⟨row, hrow⟩ := (hpost.creates hcreates).1.user
      exact users_ne_nil_of_put hrow _

-- Two setups at once, then all users are deleted and the process is started again.

def sampleAccount : LocalAccount := ⟨"acme", "root", "Root", "hash"⟩

def bootstrapAdvances (i n : ℕ) : List (Event Database BootstrapCall) :=
  List.replicate n (.advance i)

def setupsAndRestart : List (Event Database BootstrapCall) :=
  [.start (.bootstrapAdmin {} sampleAccount 1000),
    .start (.bootstrapAdmin {} sampleAccount 2000)] ++
    bootstrapAdvances 0 8 ++ bootstrapAdvances 1 3 ++
    [.env { ({} : Database) with
        tenants := .single ⟨1, "acme", "acme", 1, 0, 0⟩
        authBootstrapState := some 1000 },
      .start (.ensureStartupAdmin { tenantID := 2, passwordHash := some "hash" } "admin" 3000),
      .start (.bootstrapAdmin {} sampleAccount 4000)] ++
    bootstrapAdvances 2 9 ++ bootstrapAdvances 3 3

theorem bootstrap_single_use_restart : ∃ s,
    (⟨⟨{}, []⟩, []⟩ : BootstrapSys).steps bootstrapProgram setupsAndRestart = some s ∧
    (createdBy s.world.commits).length = 2 ∧
    (s.world.commits.countP fun c => c.call.isSetup) ≤ 1 ∧
    s.world.commits.Pairwise fun c d => c.result.creates = true → d.call.isSetup = false := by
  have hadmits : (⟨⟨{}, []⟩, []⟩ : BootstrapSys).admits bootstrapProgram DeletesUsers
      setupsAndRestart = true := by decide +kernel
  have hend : ((⟨⟨{}, []⟩, []⟩ : BootstrapSys).steps bootstrapProgram setupsAndRestart).any
      (fun s => (createdBy s.world.commits).length = 2) = true := by decide +kernel
  obtain ⟨s, hs, hrun⟩ := Sys.run_of_admits hadmits
  rw [hs, Option.any_some] at hend
  obtain ⟨hcount, honce, -⟩ := bootstrap_single_use {} s hrun
  exact ⟨s, hs, of_decide_eq_true hend, hcount, honce⟩

end Gaoming
