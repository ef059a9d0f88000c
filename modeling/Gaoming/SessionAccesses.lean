import Gaoming.MasterCalls
import Gaoming.AccountStoreSpec
import Gaoming.AgentRegistration
import Gaoming.OperationsAuthority

/-!
# Accesses to user sessions

Of the calls of the master only a login, the mark of a last visit and a sign-out
write sessions; each of them holds the row that it writes to its end.
-/

namespace Gaoming
open Relational Transaction

def MasterAccess.SparesSessions : MasterAccess → Prop
  | .base (.putUserSession _) => False
  | .eraseUserSession _ => False
  | _ => True

def HoldsSession (acc : List MasterAccess) (id : Serial) : Prop :=
  ∃ a ∈ acc, a.key = .userSession id

section Accesses
variable {acc bs : List MasterAccess} {id : Serial} {a : MasterAccess}

theorem sessions_spared (h : ∀ a ∈ acc, a.SparesSessions) (db : MasterDatabase) :
    (Tx.view db acc).userSessions = db.userSessions := by
  refine Tx.view_induction (q := MasterAccess.SparesSessions)
    (I := fun x : MasterDatabase => x.userSessions = db.userSessions) ?_ h rfl
  intro x a ha hx
  cases a with
  | eraseUserSession id => exact ha.elim
  | base a =>
    cases a with
    | putUserSession r => exact ha.elim
    | _ => exact hx

theorem exclusive_of_key (h : a.key = .userSession id) : a.mode = .exclusive := by
  cases a with
  | eraseUserSession id => rfl
  | base a =>
    cases a with
    | putUserSession r => rfl
    | _ => cases h

theorem get?_apply_session (h : a.key ≠ .userSession id) (db : MasterDatabase) :
    (a.apply db).userSessions.get? id = db.userSessions.get? id := by
  cases a with
  | eraseUserSession id' =>
    exact Table.get?_erase_of_ne _ fun hid => h (congrArg Key.userSession hid)
  | base a =>
    cases a with
    | putUserSession r => exact Table.get?_put_of_ne _ fun hid => h (congrArg Key.userSession hid)
    | _ => rfl

/-- A session under the lock of a running call is written by no other call. -/
theorem session_kept (h : Compatible MasterDatabase acc bs) (hb : HoldsSession bs id)
    (db : MasterDatabase) :
    (Tx.view db acc).userSessions.get? id = db.userSessions.get? id := by
  obtain ⟨b, hmem, hkey⟩ := hb
  refine Tx.view_induction (q := fun a => a.key ≠ .userSession id)
    (I := fun x : MasterDatabase => x.userSessions.get? id = db.userSessions.get? id) ?_ ?_ rfl
  · exact fun x a ha hx => (get?_apply_session ha x).trans hx
  · intro a ha hakey
    have hno := h a ha b hmem
    have hkeys : Storage.key MasterDatabase a = Storage.key MasterDatabase b :=
      hakey.trans hkey.symm
    have hma : Storage.mode MasterDatabase a = .exclusive := exclusive_of_key hakey
    have hmb : Storage.mode MasterDatabase b = .exclusive := exclusive_of_key hkey
    rw [conflict, hkeys, hma, hmb] at hno
    simp [Mode.conflicts] at hno

end Accesses

abbrev Access.SparesSessions (a : Access) : Prop := (MasterAccess.base a).SparesSessions

section Spares

theorem spareSessions_createMaintenance (id : Serial) (clock : Time) (p : Principal)
    (req : CreateMaintenanceRequest) :
    (createMaintenance id clock p req).Uses Access.SparesSessions := by
  refine Tx.uses_bind (uses_operationTenant (fun _ => trivial) fun _ => trivial) fun tenant => ?_
  refine Tx.uses_query_bind fun db => Tx.uses_ite (Tx.uses_throw _) ?_
  refine Tx.uses_bind (uses_insertMaintenanceWindow fun _ _ => trivial) fun _ => ?_
  exact Tx.uses_bind (uses_writeOperationAudit fun _ => trivial) fun _ => Tx.uses_pure _

theorem spareSessions_ackAlert (p : Principal) (alertID : String) (now : Time) :
    (ackAlert p alertID now).Uses Access.SparesSessions := by
  unfold ackAlert
  cases parseInt alertID with
  | none => exact Tx.uses_throw _
  | some id =>
    refine Tx.uses_ite (Tx.uses_throw _) ?_
    refine Tx.uses_bind (uses_operationTenant (fun _ => trivial) fun _ => trivial) fun tenant => ?_
    refine Tx.uses_bind (uses_takeAlert fun _ => trivial) fun event =>
      Tx.uses_ite (Tx.uses_pure _) ?_
    exact Tx.uses_bind (uses_updateAlertAck fun _ => trivial) fun _ =>
      uses_writeOperationAudit fun _ => trivial

theorem spareSessions_createShare (d : ShareDraws) (p : Principal) (req : CreateShareRequest)
    (hash : String) (now : Time) : (createShare d p req hash now).Uses Access.SparesSessions := by
  unfold createShare
  refine Tx.uses_ite (Tx.uses_throw _) ?_
  cases validateShareRequest req with
  | error e => exact Tx.uses_throw _
  | ok _ =>
    refine Tx.uses_ite (Tx.uses_throw _) ?_
    refine Tx.uses_bind (uses_tenantForAdmin (fun _ => trivial) fun _ => trivial) fun tenant => ?_
    refine Tx.uses_query_bind fun db => Tx.uses_ite (Tx.uses_throw _) ?_
    refine Tx.uses_bind uses_countHosts fun _ => Tx.uses_ite (Tx.uses_throw _) ?_
    refine Tx.uses_bind (uses_insertShare (fun _ => trivial) fun _ _ => trivial) fun _ => ?_
    refine Tx.uses_bind (uses_insertShareHosts fun _ _ => trivial) fun _ => ?_
    exact Tx.uses_bind (uses_audit trivial) fun _ => Tx.uses_pure _

theorem spareSessions_revokeShare (p : Principal) (id : String) (now : Time) :
    (revokeShare p id now).Uses Access.SparesSessions := by
  refine Tx.uses_bind (uses_tenantForAdmin (fun _ => trivial) fun _ => trivial) fun tenant => ?_
  refine Tx.uses_query_bind fun db => Tx.uses_ite (Tx.uses_throw _) ?_
  refine Tx.uses_bind (uses_markRevoked fun _ _ => trivial) fun _ => ?_
  exact Tx.uses_bind (uses_deleteSessions fun _ => trivial) fun _ => uses_audit trivial

theorem spareSessions_setTenantStatus (tenantCode : String) (status : ℤ) (now : Time) :
    (setTenantStatus tenantCode status now).Uses Access.SparesSessions := by
  apply Tx.uses_exec_one
  intro db x as hx
  split at hx
  · cases hx
    exact .inl rfl
  · cases hx
    exact .inr ⟨_, rfl, trivial⟩

theorem spareSessions_updateUser (d : AccountDraws) (tenantCode : String) (userID : ℤ)
    (patch : UserUpdate) : (updateUser d tenantCode userID patch).Uses Access.SparesSessions := by
  refine Tx.uses_bind (Tx.uses_query_bind fun db => ?_) fun tenant => ?_
  · split
    · exact Tx.uses_throw _
    · exact Tx.uses_pure _
  · refine Tx.uses_bind (Tx.uses_exec_one fun db x as hx => ?_) fun user => ?_
    · split at hx
      · cases hx
      · cases hx
        exact .inr ⟨_, rfl, trivial⟩
    · refine Tx.uses_bind (uses_saveUser trivial fun _ _ => trivial) fun _ => ?_
      exact Tx.uses_bind (Tx.uses_query _) fun _ => Tx.uses_pure _

theorem spareSessions_createLocalAdmin (d : AccountDraws) (account : LocalAccount) (now : Time) :
    (createLocalAdmin d account now).Uses Access.SparesSessions := by
  have htenant : (insertTenantOnce d account.tenantCode).Uses Access.SparesSessions := by
    refine Tx.uses_exec fun db x as hx a ha => ?_
    split at hx
    · cases hx
    · split_ifs at hx
      · cases hx
        cases ha
      · cases hx
        simp only [List.mem_cons, List.not_mem_nil, or_false] at ha
        rcases ha with rfl | rfl <;> trivial
  have huser : ∀ row, (insertUser row).Uses Access.SparesSessions := by
    refine fun row => Tx.uses_exec fun db x as hx a ha => ?_
    split at hx
    · cases hx
    · split_ifs at hx
      cases hx
      simp only [List.mem_cons, List.not_mem_nil, or_false] at ha
      rcases ha with rfl | rfl <;> trivial
  have hpassword : ∀ row, (insertUserPassword row).Uses Access.SparesSessions := by
    refine fun row => Tx.uses_exec fun db x as hx a ha => ?_
    split at hx
    · cases hx
    · split_ifs at hx
      cases hx
      simp only [List.mem_cons, List.not_mem_nil, or_false] at ha
      rcases ha with rfl | rfl <;> trivial
  refine Tx.uses_bind htenant fun _ => Tx.uses_bind (Tx.uses_query_bind fun db => ?_) fun t => ?_
  · split
    · exact Tx.uses_throw _
    · exact Tx.uses_pure _
  · exact Tx.uses_bind (huser _) fun _ => Tx.uses_bind (hpassword _) fun _ => Tx.uses_pure _

theorem spareSessions_bootstrapAdmin (d : AccountDraws) (account : LocalAccount) (now : Time) :
    (bootstrapAdmin d account now).Uses Access.SparesSessions := by
  refine Tx.uses_bind (Tx.uses_exec_one fun db x as hx => ?_) fun _ => ?_
  · cases hx
    exact .inr ⟨_, rfl, trivial⟩
  · refine Tx.uses_bind (Tx.uses_query _) fun available => Tx.uses_ite (Tx.uses_throw _) ?_
    refine Tx.uses_bind (spareSessions_createLocalAdmin d account now) fun user => ?_
    refine Tx.uses_bind (Tx.uses_exec_one fun db x as hx => ?_) fun _ => Tx.uses_pure _
    split_ifs at hx
    cases hx
    exact .inr ⟨_, rfl, trivial⟩

section Shares
variable {q : Access → Prop}

theorem uses_validShare (p : Database → AccessShareRow → Bool) : (validShare p).Uses q := by
  refine Tx.uses_query_bind fun db => ?_
  split
  · exact Tx.uses_throw _
  · exact Tx.uses_pure _

theorem uses_sharePrincipal (row : AccessShareRow) (code : String) :
    (sharePrincipal row code).Uses q := Tx.uses_query_bind fun _ => Tx.uses_pure _

theorem uses_exchangeShare (sha256 : String → String) (d : ShareDraws) (raw : String) (now : Time)
    (hlock : ∀ id, q (.lockShare id .exclusive)) (herase : ∀ h, q (.eraseShareSession h))
    (hput : ∀ r, q (.putShareSession r)) : (exchangeShare sha256 d raw now).Uses q := by
  refine Tx.uses_ite (Tx.uses_throw _) ?_
  refine Tx.uses_bind (Tx.uses_exec_one fun db x as hx => ?_) fun id =>
    Tx.uses_ite (Tx.uses_throw _) ?_
  · split at hx
    · cases hx
    · cases hx
      exact .inr ⟨_, rfl, hlock _⟩
  refine Tx.uses_bind (uses_validShare _) fun x => ?_
  refine Tx.uses_bind (uses_deleteSessions herase) fun _ => ?_
  refine Tx.uses_query_bind fun db => Tx.uses_ite (Tx.uses_throw _) ?_
  cases d.token with
  | none => exact Tx.uses_throw _
  | some token =>
    refine Tx.uses_bind (Tx.uses_exec_one fun db x as hx => ?_) fun _ => ?_
    · split_ifs at hx
      cases hx
      exact .inr ⟨_, rfl, hput _⟩
    · exact Tx.uses_bind (uses_sharePrincipal x.1 x.2) fun _ => Tx.uses_pure _

theorem uses_listShares (p : Principal) (hu : ∀ id, q (.lockUser id .share))
    (ht : ∀ id, q (.lockTenant id .exclusive)) : (listShares p).Uses q := by
  have hrecords : ∀ tenant rows, (listShareRecords p tenant rows).Uses q := by
    intro tenant rows
    induction rows with
    | nil => exact Tx.uses_pure _
    | cons row rows ih =>
      exact Tx.uses_query_bind fun db => Tx.uses_bind ih fun _ => Tx.uses_pure _
  refine Tx.uses_ite (Tx.uses_throw _) ?_
  refine Tx.uses_bind (uses_tenantForAdmin hu ht) fun tenant => ?_
  exact Tx.uses_bind (Tx.uses_query _) fun rows => hrecords tenant rows

theorem uses_validateDemo (p : Principal) : (validateDemo p).Uses q :=
  Tx.uses_ite (Tx.uses_throw _) (Tx.uses_query_bind fun _ =>
    Tx.uses_ite (Tx.uses_throw _) (Tx.uses_pure _))

end Shares

end Spares

theorem spareSessions_agent {a : Access} (h : a.OnHosts ∨ a.OnTenants) : a.SparesSessions := by
  cases a with
  | putUserSession => exact (h.elim id id).elim
  | _ => trivial

/-- Calls that write no session. -/
def MasterCall.aside : MasterCall → Bool
  | .control (.createSession ..) | .touchSession .. | .deleteSession _ => false
  | _ => true

section Aside
variable {α : Type} {f : α → MasterReply}

theorem spares_ofAccount {p : AccountTx α} (h : p.Uses Access.SparesSessions) :
    (ofAccount p >>= fun a => pure (f a)).Uses MasterAccess.SparesSessions :=
  Tx.uses_bind (Tx.uses_lift (Tx.uses_mapError h)) fun _ => Tx.uses_pure _

theorem spares_ofShare {p : ShareTx α} (h : p.Uses Access.SparesSessions) :
    (ofShare p >>= fun a => pure (f a)).Uses MasterAccess.SparesSessions :=
  Tx.uses_bind (Tx.uses_lift (Tx.uses_mapError h)) fun _ => Tx.uses_pure _

theorem spares_ofStore {p : StoreTx α} (h : p.Uses fun a => a.OnHosts ∨ a.OnTenants) :
    (ofStore p >>= fun a => pure (f a)).Uses MasterAccess.SparesSessions :=
  Tx.uses_bind (Tx.uses_lift (Tx.uses_mapError (h.mono fun _ => spareSessions_agent)))
    fun _ => Tx.uses_pure _

theorem spares_control {c : ControlCall} (h : (MasterCall.control c).aside = true) :
    (controlProgram c).Uses Access.SparesSessions := by
  cases c with
  | createMaintenance id clock p req =>
    exact Tx.uses_bind (Tx.uses_mapError (spareSessions_createMaintenance id clock p req))
      fun _ => Tx.uses_pure _
  | ackAlert p alertID now =>
    exact Tx.uses_bind (Tx.uses_mapError (spareSessions_ackAlert p alertID now))
      fun _ => Tx.uses_pure _
  | createShare d p req hash now =>
    exact Tx.uses_bind (Tx.uses_mapError (spareSessions_createShare d p req hash now))
      fun _ => Tx.uses_pure _
  | revokeShare p id now =>
    exact Tx.uses_bind (Tx.uses_mapError (spareSessions_revokeShare p id now))
      fun _ => Tx.uses_pure _
  | updateUser d tenantCode userID patch =>
    exact Tx.uses_bind (Tx.uses_mapError (spareSessions_updateUser d tenantCode userID patch))
      fun _ => Tx.uses_pure _
  | setTenantStatus tenantCode status now =>
    exact Tx.uses_bind (Tx.uses_mapError (spareSessions_setTenantStatus tenantCode status now))
      fun _ => Tx.uses_pure _
  | createSession => cases h

theorem spares_program (store : Store) (sha256 : String → String) {c : MasterCall}
    (h : c.aside = true) : (masterProgram store sha256 c).Uses MasterAccess.SparesSessions := by
  cases c with
  | control c =>
    exact Tx.uses_bind (Tx.uses_lift (Tx.uses_mapError (spares_control h))) fun _ => Tx.uses_pure _
  | findSession tokenHash => exact spares_ofAccount (Tx.uses_query _)
  | joinUser userID => exact spares_ofAccount (Tx.uses_query _)
  | localCredentials tenant username => exact spares_ofAccount (Tx.uses_query _)
  | setupAvailable => exact spares_ofAccount (Tx.uses_query _)
  | bootstrapAdmin d account now =>
    exact spares_ofAccount (spareSessions_bootstrapAdmin d account now)
  | listUsers tenantCode => exact spares_ofAccount (Tx.uses_query _)
  | listShares p => exact spares_ofShare (uses_listShares p (fun _ => trivial) fun _ => trivial)
  | exchangeShare d raw now =>
    exact spares_ofShare (uses_exchangeShare sha256 d raw now (fun _ => trivial) (fun _ => trivial)
      fun _ => trivial)
  | liveShare hash now =>
    exact spares_ofShare (f := fun x => .share x.1 x.2) (uses_validShare _)
  | sharePrincipal row code => exact spares_ofShare (uses_sharePrincipal row code)
  | validateDemo p =>
    exact spares_ofShare (f := fun _ => .done) (uses_validateDemo p)
  | allocateTenant d => exact spares_ofStore (Store.uses_allocateTenant d)
  | registerAgent d req now =>
    exact spares_ofStore (f := fun x => .registered x.1 x.2.1 x.2.2)
      (store.uses_registerAgent d req now)
  | touchSession => cases h
  | deleteSession => cases h

end Aside

end Gaoming
