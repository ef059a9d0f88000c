import Gaoming.AccountStoreProgram

/-!
# Rows of the account store

What a column keeps of a user, and which rows the lookups and `Save` touch.
-/

namespace Gaoming
open Relational Transaction

section Columns
variable {n : ℕ} {s s' : String}

theorem varchar_of_fits (hnul : hasNul s = false) (hlen : s.length ≤ n) : varchar n s = some s := by
  rw [varchar, hnul, if_neg (by decide), if_pos hlen]

theorem varchar_idem (h : varchar n s = some s') : varchar n s' = some s' := by
  unfold varchar at h
  split_ifs at h with hnul hfits hblank
  · rw [← Option.some.inj h]
    exact varchar_of_fits (by simpa using hnul) hfits
  · rw [← Option.some.inj h]
    apply varchar_of_fits
    · have hno : ∀ c ∈ s.toList, ¬ (c.toNat == 0) = true := by
        simpa [hasNul] using hnul
      rw [hasNul, String.toList_ofList, List.any_eq_false]
      exact fun c hc => hno c (List.mem_of_mem_take hc)
    · rw [String.length_ofList, List.length_take]
      exact min_le_left _ _

theorem timestamptz_idem (t : Time) : timestamptz (timestamptz t) = timestamptz t := by
  have hmod : ∀ x : ℤ, (x - x % 1000) - (x - x % 1000) % 1000 = x - x % 1000 := by
    intro x
    omega
  exact hmod t

end Columns

theorem UserRow.stored_spec {row r : UserRow} (h : row.stored = some r) :
    r.id = row.id ∧ r.tenantID = row.tenantID ∧ varchar 128 row.displayName = some r.displayName ∧
      varchar 32 row.role = some r.role ∧ varchar 32 row.status = some r.status ∧
      r.lastLoginAt = row.lastLoginAt.map timestamptz := by
  simp only [UserRow.stored, Option.bind_eq_bind, Option.bind_eq_some_iff] at h
  obtain ⟨_, hname, _, -, _, hrole, _, hstatus, h⟩ := h
  cases h
  exact ⟨rfl, rfl, hname, hrole, hstatus, rfl⟩

theorem find_user {db : Database} {id : ℤ} {u : UserRow}
    (h : (db.users.rows.find? fun u => (u.id : ℤ) = id) = some u) :
    db.users.get? u.id = some u ∧ (u.id : ℤ) = id :=
  ⟨Table.get?_of_mem (List.mem_of_find?_eq_some h), by simpa using List.find?_some h⟩

theorem find_user_of_tenant {db : Database} {id : ℤ} {tenant : Serial} {u : UserRow}
    (h : (db.users.rows.find? fun u => (u.id : ℤ) = id && u.tenantID = tenant) = some u) :
    db.users.get? u.id = some u ∧ (u.id : ℤ) = id ∧ u.tenantID = tenant := by
  have hp := List.find?_some h
  simp only [Bool.and_eq_true, decide_eq_true_eq] at hp
  exact ⟨Table.get?_of_mem (List.mem_of_find?_eq_some h), hp.1, hp.2⟩

theorem uses_saveUser {q : Access → Prop} {row : UserRow} (hl : q (.lockUsers .share))
    (h : ∀ r, row.stored = some r → q (.putUser r)) : (saveUser row).Uses q := by
  refine Tx.uses_exec_bind fun db x as hx => ⟨?_, Tx.uses_ite (Tx.uses_pure _) ?_⟩
  · intro a ha
    split at hx
    · cases hx
    · rename_i r hr
      split_ifs at hx
      · cases hx
        exact List.mem_singleton.mp ha ▸ hl
      · cases hx
        simp only [List.mem_cons, List.not_mem_nil, or_false] at ha
        rcases ha with rfl | rfl
        · exact hl
        · exact h r hr
  · refine Tx.uses_exec fun db x as hx a ha => ?_
    split at hx
    · cases hx
    · rename_i r hr
      split_ifs at hx
      cases hx
      simp only [List.mem_cons, List.not_mem_nil, or_false] at ha
      rcases ha with rfl | rfl
      · exact hl
      · exact h r hr

end Gaoming
