import Mathlib.Data.Nat.Notation
import Mathlib.Data.List.Basic
import Mathlib.Tactic.Common

/-!
# The session of the dashboard

`AuthProvider`: calls of `refreshSession` and `signOut` that run side by side.
Between two awaits a call runs alone. The server answers the requests in any
order, and the continuations of the calls run in any order; a counter of
revisions decides which call may still set the user.
-/

namespace Gaoming

structure AuthUser where
  id : ℕ
  tenantCode : String
  role : String
  status : String
  deriving DecidableEq

/-- Where a call stands: the await it is in, with the values it goes on with. -/
inductive AuthPhase
  /-- `refreshSession`, waiting for the answer about the session. -/
  | session
  /-- The answer: `none` if the request failed. -/
  | answered (next : Option (Option AuthUser))
  /-- `signOut`, waiting for the answer to the logout. -/
  | logout
  /-- `ok` for a success and for 401; any other failure is thrown. -/
  | loggedOut (ok : Bool)
  /-- In `applyIdentity`, waiting for `cancelQueries`. -/
  | cancelling (next : Option AuthUser)
  | done
  deriving DecidableEq

structure AuthCall where
  current : ℕ
  /-- `refreshSession`, whose `finally` ends the initialisation; otherwise `signOut`. -/
  refresh : Bool
  phase : AuthPhase
  deriving DecidableEq

/-- The refs and the state of the provider, its calls, and the session that the server holds for
the browser. `signedOut` records that a logout has succeeded on the server and no login since. -/
structure AuthProvider where
  revision : ℕ := 0
  identity : String := ""
  user : Option AuthUser := none
  initializing : Bool := true
  calls : List AuthCall := []
  session : Option AuthUser := none
  signedOut : Bool := false
  deriving DecidableEq

inductive AuthStep
  | refreshSession
  | signOut
  /-- The cleanup of the effect and its next run. -/
  | remount
  | login (user : AuthUser)
  | answerSession (i : ℕ)
  | failSession (i : ℕ)
  | answerLogout (i : ℕ)
  /-- 401, which the server answers when there is no session. -/
  | refuseLogout (i : ℕ)
  /-- Another failure; the server may have carried the logout out. -/
  | failLogout (i : ℕ) (carriedOut : Bool)
  | resume (i : ℕ)
  deriving DecidableEq

def AuthStep.begins : AuthStep → Bool
  | .refreshSession | .signOut | .remount => true
  | _ => false

namespace AuthProvider

def identityOf : Option AuthUser → String
  | some next => s!"{next.tenantCode}:{next.id}:{next.role}:{next.status}"
  | none => ""

/-- `++revision.current`, and the call up to its first await. -/
def begin (s : AuthProvider) (refresh : Bool) : AuthProvider :=
  { s with
    revision := s.revision + 1
    calls := s.calls ++ [⟨s.revision + 1, refresh, if refresh then .session else .logout⟩] }

def setPhase (s : AuthProvider) (i : ℕ) (phase : AuthPhase) : AuthProvider :=
  { s with calls := s.calls.modify i fun c => { c with phase := phase } }

/-- The end of `applyIdentity`, and of the call. -/
def setUser (s : AuthProvider) (i : ℕ) (c : AuthCall) (next : Option AuthUser) : AuthProvider :=
  if c.current ≠ s.revision then s.setPhase i .done
  else { s.setPhase i .done with
    user := next, initializing := s.initializing && !c.refresh }

/-- `applyIdentity` up to the await of `cancelQueries`, if it comes to that. -/
def applyIdentity (s : AuthProvider) (i : ℕ) (c : AuthCall) (next : Option AuthUser) :
    AuthProvider :=
  if s.identity ≠ identityOf next then s.setPhase i (.cancelling next)
  else s.setUser i c next

def resume (s : AuthProvider) (i : ℕ) (c : AuthCall) : AuthProvider :=
  match c.phase with
  | .answered next =>
    if c.current ≠ s.revision then s.setPhase i .done
    else s.applyIdentity i c (next.getD none)
  | .loggedOut true => s.applyIdentity i c none
  | .loggedOut false => s.setPhase i .done
  | .cancelling next =>
    if c.current ≠ s.revision then s.setPhase i .done
    else { s with identity := identityOf next }.setUser i c next
  | .session | .logout | .done => s

def step (s : AuthProvider) : AuthStep → AuthProvider
  | .refreshSession => s.begin true
  | .signOut => s.begin false
  | .remount => { s with revision := s.revision + 1 }.begin true
  | .login user => { s with session := some user, signedOut := false }
  | .answerSession i =>
    if (s.calls[i]?).map AuthCall.phase = some .session then
      s.setPhase i (.answered (some s.session))
    else s
  | .failSession i =>
    if (s.calls[i]?).map AuthCall.phase = some .session then s.setPhase i (.answered none) else s
  | .answerLogout i =>
    if (s.calls[i]?).map AuthCall.phase = some .logout then
      { s.setPhase i (.loggedOut true) with session := none, signedOut := true }
    else s
  | .refuseLogout i =>
    if (s.calls[i]?).map AuthCall.phase = some .logout && s.session.isNone then
      s.setPhase i (.loggedOut true)
    else s
  | .failLogout i carriedOut =>
    if (s.calls[i]?).map AuthCall.phase = some .logout then
      let s := s.setPhase i (.loggedOut false)
      if carriedOut then { s with session := none, signedOut := true } else s
    else s
  | .resume i =>
    match s.calls[i]? with
    | none => s
    | some c => s.resume i c

def run (s : AuthProvider) (steps : List AuthStep) : AuthProvider := steps.foldl step s

def start (session : Option AuthUser) : AuthProvider :=
  { session := session : AuthProvider }.begin true

/-- Once a logout has succeeded for good and every call is over, nobody is signed in. -/
def SignOutSticks (s : AuthProvider) : Prop :=
  s.signedOut = true → (∀ c ∈ s.calls, c.phase = .done) → s.user = none

def NoLogoutBefore (s : AuthProvider) (i : ℕ) : Prop :=
  ∀ j < i, (s.calls[j]?).map AuthCall.phase ≠ some .logout

instance (s : AuthProvider) (i : ℕ) : Decidable (s.NoLogoutBefore i) :=
  inferInstanceAs (Decidable (∀ j < i, _))

/-- The newest call is not told of a user while the logout of an earlier call is unanswered, and
its own logout does not fail, other than with 401, while a user is shown and one has signed out
or may still do so. -/
def LogoutsFirst (s : AuthProvider) : AuthStep → Prop
  | .answerSession i => i + 1 = s.calls.length → s.session = none ∨ s.NoLogoutBefore i
  | .failLogout i carriedOut => i + 1 = s.calls.length →
    s.user = none ∨ carriedOut = false ∧ s.signedOut = false ∧ s.NoLogoutBefore i
  | _ => True

instance (s : AuthProvider) : DecidablePred s.LogoutsFirst := fun step => by
  cases step <;> unfold LogoutsFirst <;> infer_instance

/-- Runs whose steps meet the condition from the moment on when their last call begins. -/
def Admits : AuthProvider → List AuthStep → Prop
  | _, [] => True
  | s, e :: es => (es.any AuthStep.begins = true ∨ s.LogoutsFirst e) ∧ (s.step e).Admits es

instance : ∀ (s : AuthProvider) (steps : List AuthStep), Decidable (s.Admits steps)
  | _, [] => inferInstanceAs (Decidable True)
  | s, e :: es =>
    have := instDecidableAdmits (s.step e) es
    inferInstanceAs (Decidable ((es.any AuthStep.begins = true ∨ s.LogoutsFirst e) ∧
      (s.step e).Admits es))

/-- The call will leave no user behind, or has left none. -/
def Harmless (user : Option AuthUser) : AuthPhase → Prop
  | .session | .logout | .loggedOut true => True
  | .answered next => next.getD none = none
  | .cancelling next => next = none
  | .done | .loggedOut false => user = none

/-- Only the newest call, `c`, may still set the user. When it is the `last`, it is harmless
while a logout is unanswered and after one has succeeded. -/
structure Inv (s : AuthProvider) (older : List AuthCall) (c : AuthCall) (last : Prop) : Prop where
  calls : s.calls = older ++ [c]
  current : c.current = s.revision
  older : ∀ d ∈ older, d.current < s.revision
  session : s.signedOut = true → s.session = none
  harmless : last → s.signedOut = true ∨ (∃ d ∈ s.calls, d.phase = .logout) →
    Harmless s.user c.phase

section Inv
variable {s : AuthProvider} {older : List AuthCall} {c : AuthCall} {i : ℕ} {last : Prop}

theorem modify_older {f : AuthCall → AuthCall} (hi : i < older.length) :
    (older ++ [c]).modify i f = older.modify i f ++ [c] := by
  induction older generalizing i with
  | nil => simp at hi
  | cons d older ih =>
    cases i with
    | zero => rfl
    | succ i =>
      simp only [List.cons_append, List.modify_succ_cons]
      rw [ih (by simpa using hi)]

theorem modify_newest {f : AuthCall → AuthCall} :
    (older ++ [c]).modify older.length f = older ++ [f c] := by
  induction older with
  | nil => rfl
  | cons d older ih =>
    simp only [List.cons_append, List.length_cons, List.modify_succ_cons, ih]

theorem mem_modify_phase {l : List AuthCall} {phase : AuthPhase} {d : AuthCall}
    (h : d ∈ l.modify i fun c => { c with phase := phase }) :
    ∃ d' ∈ l, d.current = d'.current ∧ (d.phase = phase ∨ d = d') := by
  obtain ⟨j, hj⟩ := List.mem_iff_getElem?.mp h
  rw [List.getElem?_modify] at hj
  obtain ⟨d', hd', rfl⟩ := Option.map_eq_some_iff.mp hj
  refine ⟨d', List.mem_of_getElem? hd', ?_⟩
  split_ifs
  · exact ⟨rfl, .inl rfl⟩
  · exact ⟨rfl, .inr rfl⟩

theorem Inv.setOlder (h : s.Inv older c last) (hi : i < older.length) {phase : AuthPhase}
    (hphase : phase ≠ .logout) :
    ∃ older', (s.setPhase i phase).Inv older' c last := by
  refine ⟨older.modify i fun c => { c with phase := phase }, ?_, h.current, ?_, h.session, ?_⟩
  · rw [setPhase, h.calls, modify_older hi]
  · intro d hd
    obtain ⟨d', hd', hcurrent, -⟩ := mem_modify_phase hd
    exact hcurrent ▸ h.older d' hd'
  · rintro hlast (hout | ⟨d, hd, hlogout⟩)
    · exact h.harmless hlast (.inl hout)
    · obtain ⟨d', hd', -, hnew | rfl⟩ := mem_modify_phase hd
      · exact absurd (hnew.symm.trans hlogout) hphase
      · exact h.harmless hlast (.inr ⟨d, hd', hlogout⟩)

theorem Inv.setNewest (h : s.Inv older c last) (phase : AuthPhase) {t : AuthProvider}
    (hcalls : t.calls = (s.setPhase older.length phase).calls) (hrevision : t.revision = s.revision)
    (hsession : t.signedOut = true → t.session = none)
    (hharmless : last → t.signedOut = true ∨ (∃ d ∈ older, d.phase = .logout) →
      Harmless t.user phase) (hphase : phase ≠ .logout) :
    t.Inv older { c with phase := phase } last := by
  have heq : t.calls = older ++ [{ c with phase := phase }] := by
    rw [hcalls, setPhase, h.calls, modify_newest]
  refine ⟨heq, h.current.trans hrevision.symm, fun d hd => hrevision ▸ h.older d hd, hsession, ?_⟩
  rintro hlast (hout | ⟨d, hd, hlogout⟩)
  · exact hharmless hlast (.inl hout)
  · rw [heq, List.mem_append, List.mem_singleton] at hd
    rcases hd with hd | rfl
    · exact hharmless hlast (.inr ⟨d, hd, hlogout⟩)
    · exact absurd hlogout hphase

theorem Inv.older_or_newest (h : s.Inv older c last) {d : AuthCall} (hd : s.calls[i]? = some d) :
    (i < older.length ∧ d ∈ older) ∨ (i = older.length ∧ d = c) := by
  rw [h.calls] at hd
  by_cases hi : i < older.length
  · rw [List.getElem?_append_left hi] at hd
    exact .inl ⟨hi, List.mem_of_getElem? hd⟩
  · rw [List.getElem?_append_right (Nat.le_of_not_lt hi), List.getElem?_singleton] at hd
    split_ifs at hd with hzero
    cases hd
    exact .inr ⟨by omega, rfl⟩

theorem Inv.begin (h : s.Inv older c last) (refresh : Bool) (last' : Prop) :
    ∃ c', (s.begin refresh).Inv s.calls c' last' := by
  refine ⟨_, rfl, rfl, ?_, h.session, fun _ _ => ?_⟩
  · intro d hd
    rw [h.calls, List.mem_append, List.mem_singleton] at hd
    rcases hd with hd | rfl
    · exact Nat.lt_succ_of_lt (h.older d hd)
    · exact Nat.lt_succ_of_le (Nat.le_of_eq h.current)
  · cases refresh <;> trivial

theorem resume_older {d : AuthCall} (hd : d.current ≠ s.revision) :
    s.resume i d = s ∨ ∃ phase, phase ≠ .logout ∧ s.resume i d = s.setPhase i phase := by
  unfold resume applyIdentity setUser
  cases hphase : d.phase with
  | answered next => exact .inr ⟨.done, by simp, if_pos hd⟩
  | loggedOut ok =>
    cases ok with
    | false => exact .inr ⟨.done, by simp, rfl⟩
    | true =>
      dsimp only
      by_cases hid : s.identity ≠ identityOf none
      · exact .inr ⟨.cancelling none, by simp, if_pos hid⟩
      · exact .inr ⟨.done, by simp, by rw [if_neg hid, if_pos hd]⟩
  | cancelling next => exact .inr ⟨.done, by simp, if_pos hd⟩
  | session => exact .inl rfl
  | logout => exact .inl rfl
  | done => exact .inl rfl

theorem Inv.setUser (h : s.Inv older c last) {next : Option AuthUser}
    (hnext : last → s.signedOut = true ∨ (∃ d ∈ older, d.phase = .logout) → next = none) :
    ∃ c', (s.setUser older.length c next).Inv older c' last := by
  unfold AuthProvider.setUser
  rw [if_neg (not_not.mpr h.current)]
  exact ⟨_, h.setNewest .done rfl rfl h.session hnext (by simp)⟩

theorem Inv.applyIdentity (h : s.Inv older c last) {next : Option AuthUser}
    (hnext : last → s.signedOut = true ∨ (∃ d ∈ older, d.phase = .logout) → next = none) :
    ∃ c', (s.applyIdentity older.length c next).Inv older c' last := by
  unfold AuthProvider.applyIdentity
  split_ifs with hid
  · exact ⟨_, h.setNewest (.cancelling next) rfl rfl h.session hnext (by simp)⟩
  · exact h.setUser hnext

theorem Inv.resume (h : s.Inv older c last) {d : AuthCall} (hd : s.calls[i]? = some d) :
    ∃ older' c', (s.resume i d).Inv older' c' last := by
  rcases h.older_or_newest hd with ⟨hi, hd⟩ | ⟨rfl, rfl⟩
  · rcases resume_older (i := i) (Nat.ne_of_lt (h.older d hd)) with heq | ⟨phase, hphase, heq⟩
    · rw [heq]
      exact ⟨older, c, h⟩
    · obtain ⟨older', h'⟩ := h.setOlder hi hphase
      rw [heq]
      exact ⟨older', c, h'⟩
  · -- The newest call: what it sets is harmless while the invariant asks for it.
    refine ⟨older, ?_⟩
    have hharmless : last → s.signedOut = true ∨ (∃ d ∈ older, d.phase = .logout) →
        Harmless s.user d.phase := fun hlast hshield =>
      h.harmless hlast <| hshield.imp_right fun ⟨e, he, hlogout⟩ =>
        ⟨e, by simp [h.calls, he], hlogout⟩
    unfold AuthProvider.resume
    cases hphase : d.phase with
    | answered next =>
      rw [hphase] at hharmless
      dsimp only
      rw [if_neg (not_not.mpr h.current)]
      exact h.applyIdentity hharmless
    | loggedOut ok =>
      rw [hphase] at hharmless
      cases ok with
      | true => exact h.applyIdentity fun _ _ => rfl
      | false => exact ⟨_, h.setNewest .done rfl rfl h.session hharmless (by simp)⟩
    | cancelling next =>
      rw [hphase] at hharmless
      dsimp only
      rw [if_neg (not_not.mpr h.current)]
      exact Inv.setUser (s := { s with identity := identityOf next })
        ⟨h.calls, h.current, h.older, h.session, h.harmless⟩ hharmless
    | session => exact ⟨d, h⟩
    | logout => exact ⟨d, h⟩
    | done => exact ⟨d, h⟩

/-- An answer of the server to call number `i`. The server keeps no session of one who has
signed out. -/
theorem Inv.answer (h : s.Inv older c last) {waiting phase : AuthPhase} {session : Option AuthUser}
    {signedOut : Bool} (hd : (s.calls[i]?).map AuthCall.phase = some waiting)
    (hphase : phase ≠ .logout) (hsession : signedOut = true → session = none)
    (hout : signedOut = true → s.signedOut = true ∨ waiting = .logout)
    (hharmless : last → i = older.length →
      signedOut = true ∨ (∃ d ∈ older, d.phase = .logout) → Harmless s.user phase) :
    ∃ older' c', ({ s.setPhase i phase with session := session, signedOut := signedOut } :
      AuthProvider).Inv older' c' last := by
  obtain ⟨d, hd, hwaiting⟩ := Option.map_eq_some_iff.mp hd
  rcases h.older_or_newest hd with ⟨hi, hmem⟩ | ⟨rfl, rfl⟩
  · obtain ⟨older', h'⟩ := h.setOlder hi hphase
    refine ⟨older', c, h'.calls, h'.current, h'.older, hsession, ?_⟩
    rintro hlast (hsigned | hpending)
    · refine h.harmless hlast ((hout hsigned).imp_right fun hlogout => ?_)
      exact ⟨d, List.mem_of_getElem? hd, hwaiting.trans hlogout⟩
    · exact h'.harmless hlast (.inr hpending)
  · exact ⟨older, _, h.setNewest phase rfl rfl hsession (fun hlast => hharmless hlast rfl) hphase⟩

theorem Inv.pending (h : s.Inv older c last) (hfree : s.NoLogoutBefore older.length) :
    ¬∃ d ∈ older, d.phase = .logout := by
  rintro ⟨d, hmem, hlogout⟩
  obtain ⟨j, hj⟩ := List.mem_iff_getElem?.mp hmem
  have hlt : j < older.length := (List.getElem?_eq_some_iff.mp hj).1
  refine hfree j hlt ?_
  rw [h.calls, List.getElem?_append_left hlt, hj, Option.map_some, hlogout]

theorem Inv.length_calls (h : s.Inv older c last) : older.length + 1 = s.calls.length := by
  rw [h.calls, List.length_append, List.length_singleton]

theorem Inv.step_begins (h : s.Inv older c last) {e : AuthStep} (he : e.begins = true)
    (last' : Prop) : ∃ older' c', (s.step e).Inv older' c' last' := by
  cases e with
  | refreshSession => exact ⟨_, h.begin true last'⟩
  | signOut => exact ⟨_, h.begin false last'⟩
  | remount =>
    refine ⟨s.calls, _, rfl, rfl, ?_, h.session, fun _ _ => trivial⟩
    intro d hd
    rw [h.calls, List.mem_append, List.mem_singleton] at hd
    rcases hd with hd | rfl
    · exact Nat.lt_succ_of_lt (Nat.lt_succ_of_lt (h.older d hd))
    · exact Nat.lt_succ_of_lt (Nat.lt_succ_of_le (Nat.le_of_eq h.current))
  | _ => cases he

theorem Inv.step (h : s.Inv older c last) {e : AuthStep} (he : last → s.LogoutsFirst e) :
    ∃ older' c', (s.step e).Inv older' c' last := by
  cases e with
  | refreshSession | signOut | remount => exact h.step_begins rfl last
  | login user =>
    refine ⟨older, c, h.calls, h.current, h.older, nofun, ?_⟩
    rintro hlast (hout | hpending)
    · cases hout
    · exact h.harmless hlast (.inr hpending)
  | answerSession i =>
    simp only [AuthProvider.step]
    split_ifs with hd
    · refine h.answer hd (by simp) h.session .inl ?_
      rintro hlast rfl (hout | hpending)
      · exact h.session hout
      · exact (he hlast h.length_calls).resolve_right fun hfree => h.pending hfree hpending
    · exact ⟨older, c, h⟩
  | failSession i =>
    simp only [AuthProvider.step]
    split_ifs with hd
    · exact h.answer hd (by simp) h.session .inl fun _ _ _ => rfl
    · exact ⟨older, c, h⟩
  | answerLogout i =>
    simp only [AuthProvider.step]
    split_ifs with hd
    · exact h.answer hd (by simp) (fun _ => rfl) (fun _ => .inr rfl) fun _ _ _ => trivial
    · exact ⟨older, c, h⟩
  | refuseLogout i =>
    simp only [AuthProvider.step]
    split_ifs with hd
    · simp only [Bool.and_eq_true, decide_eq_true_eq] at hd
      exact h.answer hd.1 (by simp) h.session .inl fun _ _ _ => trivial
    · exact ⟨older, c, h⟩
  | failLogout i carriedOut =>
    simp only [AuthProvider.step]
    split_ifs with hd hcarried
    · refine h.answer hd (by simp) (fun _ => rfl) (fun _ => .inr rfl) fun hlast hi _ => ?_
      subst hi
      refine (he hlast h.length_calls).resolve_right fun hfree => ?_
      exact absurd (hcarried.symm.trans hfree.1) (by simp)
    · refine h.answer hd (by simp) h.session .inl fun hlast hi hshield => ?_
      subst hi
      refine (he hlast h.length_calls).resolve_right fun ⟨_, hout, hfree⟩ => ?_
      rcases hshield with hsigned | hpending
      · exact absurd (hsigned.symm.trans hout) (by simp)
      · exact h.pending hfree hpending
    · exact ⟨older, c, h⟩
  | resume i =>
    simp only [AuthProvider.step]
    split
    · exact ⟨older, c, h⟩
    · exact h.resume (by assumption)

end Inv

theorem inv_start (session : Option AuthUser) (last : Prop) :
    ∃ c, (start session).Inv [] c last :=
  ⟨_, rfl, rfl, by simp, nofun, fun _ _ => trivial⟩

theorem inv_run {s : AuthProvider} {older : List AuthCall} {c : AuthCall} {steps : List AuthStep}
    (h : s.Inv older c (steps.any AuthStep.begins = false)) (hsteps : s.Admits steps) :
    ∃ older' c', (s.run steps).Inv older' c' True := by
  induction steps generalizing s older c with
  | nil => exact ⟨older, c, h.calls, h.current, h.older, h.session, fun _ => h.harmless rfl⟩
  | cons e steps ih =>
    have hstep : ∃ older' c', (s.step e).Inv older' c' (steps.any AuthStep.begins = false) := by
      cases he : e.begins with
      | true => exact h.step_begins he _
      | false =>
        rw [List.any_cons, he, Bool.false_or] at h
        exact h.step fun hlast => hsteps.1.resolve_left (by simp [hlast])
    obtain ⟨older', c', h'⟩ := hstep
    exact ih h' hsteps.2

end AuthProvider

open AuthProvider in
/-- Signing out sticks in a run whose last call is answered after the logouts before it, whatever
became of the calls before. -/
theorem sign_out_sticks (session : Option AuthUser) (steps : List AuthStep)
    (h : (AuthProvider.start session).Admits steps) :
    ((AuthProvider.start session).run steps).SignOutSticks := by
  intro hout hdone
  obtain ⟨first, hfirst⟩ := inv_start session (steps.any AuthStep.begins = false)
  obtain ⟨older, c, hinv⟩ := inv_run hfirst h
  have hc : c.phase = .done := hdone c (by simp [hinv.calls])
  have hharmless := hinv.harmless trivial (.inl hout)
  rw [hc] at hharmless
  exact hharmless

def sampleUser : AuthUser := ⟨1, "team", "admin", "active"⟩

/-- A refresh starts during the logout and is answered after it. -/
def patientRefresh : List AuthStep :=
  [.answerSession 0, .resume 0, .resume 0, .signOut, .refreshSession, .answerLogout 1,
    .answerSession 2, .resume 1, .resume 1, .resume 2, .resume 2]

/-- The answer to the first logout is lost, and the second finds no session. -/
def retriedSignOut : List AuthStep :=
  [.answerSession 0, .resume 0, .resume 0, .signOut, .failLogout 1 true, .resume 1, .signOut,
    .refuseLogout 2, .resume 2, .resume 2]

theorem sign_out_sticks_sample : (AuthProvider.start (some sampleUser)).Admits patientRefresh ∧
    ((AuthProvider.start (some sampleUser)).run patientRefresh).SignOutSticks ∧
    (AuthProvider.start (some sampleUser)).Admits retriedSignOut ∧
    ((AuthProvider.start (some sampleUser)).run retriedSignOut).SignOutSticks :=
  ⟨by decide, sign_out_sticks (some sampleUser) patientRefresh (by decide), by decide,
    sign_out_sticks (some sampleUser) retriedSignOut (by decide)⟩

/-- The same as the first, answered before the logout: the late session answer wins. -/
def hastyRefresh : List AuthStep :=
  [.answerSession 0, .resume 0, .resume 0, .signOut, .refreshSession, .answerSession 2,
    .answerLogout 1, .resume 1, .resume 1, .resume 2, .resume 2]

theorem refresh_undoes_sign_out :
    ¬((AuthProvider.start (some sampleUser)).run hastyRefresh).SignOutSticks := by
  intro h
  have huser := h (by decide) (by decide)
  exact absurd huser (by decide)

end Gaoming
