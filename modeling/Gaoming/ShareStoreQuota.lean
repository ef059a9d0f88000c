import Gaoming.ShareStoreSpec

/-!
# The quotas of the share store

At most a hundred shares per tenant and a hundred sessions per share. Both are
counted under the lock that every other writer of the counted rows needs, so the
count still bounds the committed rows when the insertion commits.
-/

namespace Gaoming
open Relational Transaction

structure WithinQuotas (db : Database) : Prop where
  shares : ∀ t, db.accessShares.count (fun x => x.tenantID = t) ≤ 100
  sessions : ∀ id, db.accessShareSessions.count (fun r => r.shareID = id) ≤ 100

section Effects
variable {db db' : Database}

theorem Creates.withinQuotas {r : AccessShareRow} (h : Creates r db db') (hq : WithinQuotas db) :
    WithinQuotas db' := by
  refine ⟨fun t => ?_, fun id => h.sessions ▸ hq.sessions id⟩
  rw [h.shares]
  have hput := db.accessShares.count_put_le r fun x => x.tenantID = t
  by_cases ht : r.tenantID = t
  · have hlt : db.accessShares.count (fun x => x.tenantID = t) < 100 := ht ▸ h.quota
    rw [if_pos (by simp [ht])] at hput
    omega
  · have hle := hq.shares t
    rw [if_neg (by simp [ht])] at hput
    omega

theorem Revokes.withinQuotas {id : String} {x : AccessShareRow} {t : Time}
    (h : Revokes id x t db db') (hq : WithinQuotas db) : WithinQuotas db' := by
  have hid : x.id = id := Table.key_of_get? h.row
  refine ⟨fun tenant => ?_, fun share => ?_⟩
  · have hrow : db.accessShares.get? x.id = some x := hid ▸ h.row
    have hcount : (db.accessShares.put { x with revokedAt := some t }).count
        (fun x => x.tenantID = tenant) = db.accessShares.count fun x => x.tenantID = tenant :=
      Table.count_put_replace hrow rfl
    rw [h.shares, hcount]
    exact hq.shares tenant
  · refine le_trans (Table.count_le_of_subset fun r hr _ => (h.sessions r hr).1) (hq.sessions share)

theorem Exchanges.withinQuotas {sha256 : String → String} {raw token : String} {now : Time}
    {x : AccessShareRow} (h : Exchanges sha256 raw token now x db db') (hq : WithinQuotas db) :
    WithinQuotas db' := by
  refine ⟨fun t => h.shares ▸ hq.shares t, fun id => ?_⟩
  by_cases hid : id = x.id
  · exact hid ▸ h.quota
  · refine le_trans (Table.count_le_of_subset fun r hr hp => ?_) (hq.sessions id)
    have hrid : r.shareID = id := by simpa using hp
    rcases h.sessions r hr with hr | ⟨-, hrx⟩
    · exact hr
    · exact absurd (hrid.symm.trans hrx) hid

end Effects

theorem SharePost.withinQuotas {sha256 : String → String} {J : ShareWorld → Prop} {c : ShareCall}
    {n : ℕ} {reply : ShareReply} {acc : List Access} {w : ShareWorld}
    (h : SharePost sha256 J c n reply acc w) (hq : WithinQuotas w.db) :
    WithinQuotas (Tx.view w.db acc) := by
  cases c with
  | createShare =>
    obtain ⟨-, -, r, hr⟩ := h
    exact hr.withinQuotas hq
  | revokeShare =>
    obtain ⟨-, -, x, t, hx⟩ := h
    exact hx.withinQuotas hq
  | exchangeShare =>
    obtain ⟨-, x, token, session, -, -, -, -, hx, -⟩ := h
    exact hx.withinQuotas hq
  | authenticate =>
    obtain ⟨rfl, -⟩ := h
    exact hq
  | authenticateShareSession =>
    obtain ⟨rfl, -⟩ := h
    exact hq

/-- Every state of every run keeps the quotas, whatever the calls take for the time. -/
theorem share_quotas_hold (sha256 : String → String) (db : Database) (t : ShareSys)
    (hq : WithinQuotas db)
    (h : Sys.Run (shareProgram sha256) LeavesShares ⟨⟨db, []⟩, []⟩ t) :
    WithinQuotas t.world.db := by
  have hdiscipline := @share_discipline sha256 (fun w => WithinQuotas w.db) LeavesShares
    (fun _ _ hok => hok) (fun s i c r _ _ _ hJ hpost => hpost.withinQuotas hJ)
    fun w db' hJ hshares hsessions => ⟨hshares ▸ hJ.shares, hsessions ▸ hJ.sessions⟩
  exact (h.sound hdiscipline (Sys.sound_of_idle hq)).inv

-- A tenant with one administrator and one host.

def sampleSha (raw : String) : String := raw ++ "000000000000000000000"

def sampleToken (c : Char) : String := String.ofList (List.replicate 43 c)

def sampleAdmin : Principal where
  kind := .user
  tenantID := 1
  tenantCode := "acme"
  userID := 1
  role := "admin"

def sampleShares : Database where
  tenants := .single ⟨1, "acme", "acme", 1, 0, 0⟩
  users := .single { id := 1, tenantID := 1, role := "admin", status := "active" }
  hosts := .single {
    id := 1, tenantID := 1, hostUID := "h1", hostname := "", primaryIP := "", osType := ""
    arch := "", region := "", az := none, env := none, role := none, status := .up
    registeredAt := 0, lastRegisterAt := 0, updatedAt := 0 }

def sampleCreate (suffix : String) (c : Char) : ShareCall :=
  .createShare { shareSuffix := suffix } sampleAdmin ⟨"title", ["h1"], ["status"], 60⟩
    (tokenHash sampleSha (sampleToken c)) 0

def sampleExchange (link token : Char) : ShareCall :=
  .exchangeShare { token := some (sampleToken token) } (sampleToken link) 0

def advances (i n : ℕ) : List (Event Database ShareCall) := List.replicate n (.advance i)

/-- Two creations for one tenant: the second waits for the first. -/
def twoCreations : List (Event Database ShareCall) :=
  .start (sampleCreate "1" 'A') :: .start (sampleCreate "2" 'E') :: (advances 0 7 ++ advances 1 7)

theorem share_quotas_two_creations : ∃ t,
    (⟨⟨sampleShares, []⟩, []⟩ : ShareSys).steps (shareProgram sampleSha) twoCreations = some t ∧
      WithinQuotas t.world.db := by
  have hadmits : (⟨⟨sampleShares, []⟩, []⟩ : ShareSys).admits (shareProgram sampleSha)
      LeavesShares twoCreations = true := by decide +kernel
  obtain ⟨t, ht, hrun⟩ := Sys.run_of_admits hadmits
  have hstart : WithinQuotas sampleShares := ⟨fun _ => Nat.zero_le _, fun _ => Nat.zero_le _⟩
  exact ⟨t, ht, share_quotas_hold sampleSha sampleShares t hstart hrun⟩

end Gaoming
