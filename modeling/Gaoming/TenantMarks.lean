import Gaoming.SessionAccesses
import Gaoming.TransactionMarks

/-!
# The tenant of a row

Users, passwords, alerts, maintenance windows and shares carry the number of their
tenant, and a tenant carries its code. No statement of the master gives a row to
another tenant: it inserts a row whose key is free, or writes back a row that it has
found there. The one write for which this takes an argument is `UpdateUser`, which
saves a row it has read without a lock.
-/

namespace Gaoming
open Relational Transaction

inductive TenantRecord
  | tenant (r : TenantRow)
  | user (r : UserRow)
  | password (r : UserPasswordRow)
  | alert (r : AlertEventRow)
  | window (r : MaintenanceWindowRow)
  | share (r : AccessShareRow)
  | shareHost (r : AccessShareHostRow)
  deriving DecidableEq

inductive Mark
  | code (tenantCode : String)
  | tenant (id : Serial)
  deriving DecidableEq

def TenantRecord.mark : TenantRecord → Mark
  | .tenant r => .code r.tenantCode
  | .user r => .tenant r.tenantID
  | .password r => .tenant r.tenantID
  | .alert r => .tenant r.tenantID
  | .window r => .tenant r.tenantID
  | .share r => .tenant r.tenantID
  | .shareHost r => .tenant r.tenantID

def Database.record? (db : Database) : Key → Option TenantRecord
  | .tenant id => (db.tenants.get? id).map .tenant
  | .user id => (db.users.get? id).map .user
  | .userPassword id => (db.userPasswords.get? id).map .password
  | .alertEvent id => (db.alertEvents.get? id).map .alert
  | .maintenanceWindow id => (db.maintenanceWindows.get? id).map .window
  | .share id => (db.accessShares.get? id).map .share
  | .shareHost k => (db.accessShareHosts.get? k).map .shareHost
  | _ => none

def Access.record? : Access → Option TenantRecord
  | .putTenant r => some (.tenant r)
  | .putUser r => some (.user r)
  | .putUserPassword r => some (.password r)
  | .putAlertEvent r => some (.alert r)
  | .putMaintenanceWindow r => some (.window r)
  | .putShare r => some (.share r)
  | .putShareHost r => some (.shareHost r)
  | _ => none

theorem record?_apply_self (db : Database) (a : Access) (r : TenantRecord)
    (h : a.record? = some r) : (db.apply a).record? a.key = some r := by
  cases a with
  | putTenant | putUser | putUserPassword | putAlertEvent | putMaintenanceWindow | putShare
  | putShareHost =>
    cases h
    simp [Access.key, Database.record?]
  | _ => cases h

theorem record?_apply_other (db : Database) (a : Access) (k : Key)
    (h : a.record? = none ∨ a.key ≠ k) : (db.apply a).record? k = db.record? k := by
  have hput : ∀ {R L : Type} [DecidableEq L] {key : R → L} (t : Table key) (r : R) (l : L)
      (c : L → Key) (f : R → TenantRecord), a.key = c (key r) → a.record? ≠ none → k = c l →
      ((t.put r).get? l).map f = (t.get? l).map f := by
    intro R L _ key t r l c f hkey hsome hk
    rw [Table.get?_put_of_ne]
    intro hl
    rcases h with h | h
    · exact hsome h
    · exact h (by rw [hkey, hk, hl])
  cases a with
  | putTenant r =>
    cases k with
    | tenant id => exact hput _ r id .tenant _ rfl (by simp [Access.record?]) rfl
    | _ => rfl
  | putUser r =>
    cases k with
    | user id => exact hput _ r id .user _ rfl (by simp [Access.record?]) rfl
    | _ => rfl
  | putUserPassword r =>
    cases k with
    | userPassword id => exact hput _ r id .userPassword _ rfl (by simp [Access.record?]) rfl
    | _ => rfl
  | putAlertEvent r =>
    cases k with
    | alertEvent id => exact hput _ r id .alertEvent _ rfl (by simp [Access.record?]) rfl
    | _ => rfl
  | putMaintenanceWindow r =>
    cases k with
    | maintenanceWindow id =>
      exact hput _ r id .maintenanceWindow _ rfl (by simp [Access.record?]) rfl
    | _ => rfl
  | putShare r =>
    cases k with
    | share id => exact hput _ r id .share _ rfl (by simp [Access.record?]) rfl
    | _ => rfl
  | putShareHost r =>
    cases k with
    | shareHost l => exact hput _ r l .shareHost _ rfl (by simp [Access.record?]) rfl
    | _ => rfl
  | _ => cases k <;> rfl

theorem exclusive_of_record (a : Access) (h : a.record? ≠ none) : a.mode = .exclusive := by
  cases a with
  | putTenant | putUser | putUserPassword | putAlertEvent | putMaintenanceWindow | putShare
  | putShareHost => rfl
  | _ => exact absurd rfl h

def tenantMarks : Marking Database Access Key TenantRecord Mark where
  row? := Database.record?
  puts := Access.record?
  mark := TenantRecord.mark
  row?_self := record?_apply_self
  row?_other := record?_apply_other
  locked := exclusive_of_record

section Statements

/-- A row is put where there was none, or one with the same mark. -/
theorem keeps_put {R L : Type} [DecidableEq L] {key : R → L} {t : Table key} {r : R}
    {f : R → TenantRecord} {db : Database} {a : Access} (hputs : a.record? = some (f r))
    (hrow : db.record? a.key = (t.get? (key r)).map f)
    (h : ∀ x, t.get? (key r) = some x → (f x).mark = (f r).mark) : tenantMarks.Keeps db a := by
  intro x m hx hm
  change a.record? = some x at hx
  change (db.record? a.key).map TenantRecord.mark = some m at hm
  cases hputs.symm.trans hx
  rw [hrow] at hm
  cases hold : t.get? (key r) with
  | none => simp [hold] at hm
  | some y =>
    rw [hold] at hm
    cases hm
    exact h y hold

theorem keeps_insert {R L : Type} [DecidableEq L] {key : R → L} {t : Table key} {r : R}
    {f : R → TenantRecord} {db : Database} {a : Access} (hputs : a.record? = some (f r))
    (hrow : db.record? a.key = (t.get? (key r)).map f) (h : t.get? (key r) = none) :
    tenantMarks.Keeps db a :=
  keeps_put hputs hrow fun x hx => by simp [h] at hx

theorem keeps_insertMaintenanceWindow (row : MaintenanceWindowRow) :
    (insertMaintenanceWindow row).UsesAt tenantMarks.Keeps := by
  refine Tx.usesAt_exec fun db x as hx a ha => ?_
  split at hx
  · cases hx
  · rename_i r hr
    split_ifs at hx with hno
    cases hx
    rw [List.mem_singleton.mp ha]
    simp only [Bool.or_eq_true, Option.isSome_iff_ne_none, ne_eq, not_or, not_not] at hno
    exact keeps_insert (t := db.maintenanceWindows) (f := .window) rfl rfl hno.1

theorem keeps_updateAlertAck (id : Serial) (actor : String) (now : Time) :
    (updateAlertAck id actor now).UsesAt tenantMarks.Keeps := by
  refine Tx.usesAt_exec fun db x as hx a ha => ?_
  split at hx
  · cases hx
    cases ha
  · rename_i event hevent
    cases hx
    rw [List.mem_singleton.mp ha]
    refine keeps_put (t := db.alertEvents) (f := .alert) rfl rfl fun y hy => ?_
    cases Table.key_of_get? hevent
    cases hevent.symm.trans hy
    rfl

theorem keeps_insertShare (id : String) (tenant : Serial) (title hash : String)
    (fields : List String) (expires : Time) (userID : ℤ) (now : Time) :
    (insertShare id tenant title hash fields expires userID now).UsesAt tenantMarks.Keeps := by
  refine Tx.usesAt_exec fun db x as hx a ha => ?_
  split at hx
  · dsimp only at hx
    split_ifs at hx with hno
    cases hx
    simp only [List.mem_cons, List.not_mem_nil, or_false] at ha
    rcases ha with rfl | rfl
    · exact Marking.keeps_of_none rfl
    · refine keeps_insert (t := db.accessShares) (f := .share) rfl rfl ?_
      rw [Table.get?_eq_none_iff]
      intro y hy hkey
      simp only [shareRefused, Bool.or_eq_true, not_or, List.any_eq_true, not_exists,
        not_and] at hno
      exact (hno.1.1 y hy).1 (decide_eq_true hkey)
  · cases hx

theorem keeps_insertShareHosts (shareID : String) (tenant : Serial) (uids : List String) :
    (insertShareHosts shareID tenant uids).UsesAt tenantMarks.Keeps := by
  induction uids with
  | nil => exact Tx.usesAt_pure _
  | cons uid uids ih =>
    refine Tx.usesAt_bind (Tx.usesAt_exec fun db x as hx a ha => ?_) fun _ => ih
    split at hx
    · dsimp only at hx
      split_ifs at hx with hno
      cases hx
      rw [List.mem_singleton.mp ha]
      simp only [Bool.or_eq_true, Option.isSome_iff_ne_none, ne_eq, not_or, not_not] at hno
      exact keeps_insert (t := db.accessShareHosts) (f := .shareHost) rfl rfl hno.1.1
    · cases hx

theorem keeps_markRevoked (id : String) (tenant : Serial) (now : Time) :
    (markRevoked id tenant now).UsesAt tenantMarks.Keeps := by
  refine Tx.usesAt_exec fun db x as hx a ha => ?_
  split at hx
  · cases hx
    cases ha
  · rename_i share hshare
    split_ifs at hx
    · cases hx
      rw [List.mem_singleton.mp ha]
      refine keeps_put (t := db.accessShares) (f := .share) rfl rfl fun y hy => ?_
      cases Table.key_of_get? hshare
      cases hshare.symm.trans hy
      rfl
    · cases hx
      cases ha

theorem keeps_setTenantStatus (tenantCode : String) (status : ℤ) (now : Time) :
    (setTenantStatus tenantCode status now).UsesAt tenantMarks.Keeps := by
  refine Tx.usesAt_exec fun db x as hx a ha => ?_
  split at hx
  · cases hx
    cases ha
  · rename_i t ht
    cases hx
    rw [List.mem_singleton.mp ha]
    refine keeps_put (t := db.tenants) (f := .tenant) rfl rfl fun y hy => ?_
    cases (Table.get?_of_mem (List.mem_of_find?_eq_some ht)).symm.trans hy
    rfl

theorem keeps_assignTenant (id : Serial) (tenantCode tenantName : String) (clock : Time) :
    (assignTenant id tenantCode tenantName clock).UsesAt tenantMarks.Keeps := by
  refine Tx.usesAt_exec fun db x as hx a ha => ?_
  split at hx
  · cases hx
    cases ha
  · rename_i t ht
    split_ifs at hx
    · split at hx
      · cases hx
      · cases hx
        rw [List.mem_singleton.mp ha]
        refine keeps_put (t := db.tenants) (f := .tenant) rfl rfl fun y hy => ?_
        cases Table.key_of_get? ht
        cases ht.symm.trans hy
        rfl
    · cases hx
      cases ha

theorem keeps_insertTenant (row : TenantRow) :
    (insertTenant row).UsesAt tenantMarks.Keeps := by
  refine Tx.usesAt_exec fun db x as hx a ha => ?_
  split at hx
  · cases hx
  · rename_i r hr
    split_ifs at hx with hno
    cases hx
    simp only [List.mem_cons, List.not_mem_nil, or_false] at ha
    rcases ha with rfl | rfl
    · exact Marking.keeps_of_none rfl
    · refine keeps_insert (t := db.tenants) (f := .tenant) rfl rfl ?_
      rw [Table.get?_eq_none_iff]
      intro y hy hkey
      simp only [List.any_eq_true, not_exists, not_and, Bool.or_eq_true, not_or] at hno
      exact (hno y hy).1 (decide_eq_true hkey)

theorem keeps_ensureTenant (d : Draws) (tenantCode tenantName : String) :
    (ensureTenant d tenantCode tenantName).UsesAt tenantMarks.Keeps := by
  refine Tx.usesAt_bind (Tx.usesAt_exec fun db x as hx a ha => ?_) fun found => ?_
  · split_ifs at hx
    cases hx
    cases ha
  · cases found with
    | none => exact Tx.usesAt_bind (keeps_insertTenant _) fun _ => Tx.usesAt_pure _
    | some t => exact Tx.usesAt_bind (keeps_assignTenant _ _ _ _) fun _ => Tx.usesAt_pure _

theorem keeps_insertTenantOnce (d : AccountDraws) (tenantCode : String) :
    (insertTenantOnce d tenantCode).UsesAt tenantMarks.Keeps := by
  refine Tx.usesAt_exec fun db x as hx a ha => ?_
  split at hx
  · cases hx
  · rename_i r hr
    split_ifs at hx with hcode hno
    · cases hx
      cases ha
    · cases hx
      simp only [List.mem_cons, List.not_mem_nil, or_false] at ha
      rcases ha with rfl | rfl
      · exact Marking.keeps_of_none rfl
      · exact keeps_insert (t := db.tenants) (f := .tenant) rfl rfl (by simpa using hno)

theorem keeps_insertUser (user : UserRow) : (insertUser user).UsesAt tenantMarks.Keeps := by
  refine Tx.usesAt_exec fun db x as hx a ha => ?_
  split at hx
  · cases hx
  · rename_i r hr
    split_ifs at hx with hno
    cases hx
    simp only [List.mem_cons, List.not_mem_nil, or_false] at ha
    rcases ha with rfl | rfl
    · exact Marking.keeps_of_none rfl
    · simp only [Bool.or_eq_true, Option.isSome_iff_ne_none, ne_eq, not_or, not_not] at hno
      exact keeps_insert (t := db.users) (f := .user) rfl rfl hno.1

theorem keeps_insertUserPassword (row : UserPasswordRow) :
    (insertUserPassword row).UsesAt tenantMarks.Keeps := by
  refine Tx.usesAt_exec fun db x as hx a ha => ?_
  split at hx
  · cases hx
  · rename_i r hr
    split_ifs at hx with hno
    cases hx
    simp only [List.mem_cons, List.not_mem_nil, or_false] at ha
    rcases ha with rfl | rfl
    · exact Marking.keeps_of_none rfl
    · refine keeps_insert (t := db.userPasswords) (f := .password) rfl rfl ?_
      rw [Table.get?_eq_none_iff]
      intro y hy hkey
      simp only [Bool.or_eq_true, not_or, List.any_eq_true, not_exists, not_and] at hno
      exact (hno.1 y hy).1 (decide_eq_true hkey)

end Statements

end Gaoming
