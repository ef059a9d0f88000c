import Gaoming.ShareStoreSpec
import Gaoming.HostStoreSpec

/-!
# What a share lets its holder see

`CreateShare` compares the number of hosts it finds with the number it was asked for.
Host UIDs are unique, and the request names each once, so the numbers agree only when
every host is there and in the tenant. The hosts and the fields of a share then last
until the share is looked up, apart from hosts that are deleted: those take their row
with them.
-/

namespace Gaoming
open Relational Transaction

theorem validateShareHosts_ok {uids seen : List String}
    (h : validateShareHosts seen uids = .ok ()) :
    uids.Nodup ∧ (∀ uid ∈ uids, uid ∉ seen) ∧ ∀ uid ∈ uids, trimSpace uid = uid := by
  induction uids generalizing seen with
  | nil => simp
  | cons uid rest ih =>
    rw [validateShareHosts] at h
    split_ifs at h with hbad
    simp only [Bool.or_eq_true, List.contains_iff_mem, decide_eq_true_eq, not_or, not_not,
      ne_eq] at hbad
    obtain ⟨⟨-, hseen⟩, htrim⟩ := hbad
    obtain ⟨hnodup, hnew, hrest⟩ := ih h
    refine ⟨List.nodup_cons.mpr ⟨fun hmem => hnew uid hmem List.mem_cons_self, hnodup⟩, ?_, ?_⟩
    · intro x hx
      obtain rfl | hx := List.mem_cons.mp hx
      · exact hseen
      · exact fun hmem => hnew x hx (List.mem_cons_of_mem uid hmem)
    · intro x hx
      obtain rfl | hx := List.mem_cons.mp hx
      · exact htrim
      · exact hrest x hx

theorem validateShareRequest_ok {req : CreateShareRequest} (h : validateShareRequest req = .ok ()) :
    req.hostUIDs ≠ [] ∧ req.hostUIDs.Nodup ∧ ∀ uid ∈ req.hostUIDs, trimSpace uid = uid := by
  rw [validateShareRequest] at h
  split_ifs at h with hbad
  simp only [Bool.or_eq_true, not_or, List.isEmpty_iff] at hbad
  cases hhosts : validateShareHosts [] req.hostUIDs with
  | error e =>
    rw [hhosts] at h
    cases h
  | ok _ =>
    obtain ⟨hnodup, -, htrim⟩ := validateShareHosts_ok hhosts
    exact ⟨by tauto, hnodup, htrim⟩

/-- As many rows as texts, when both are without repetition, means a row for each text. -/
theorem count_eq_length_iff {uids : List String} {hosts : Table HostRow.id} {tenant : Serial}
    (huids : uids.Nodup)
    (hunique : ∀ x ∈ hosts.rows, ∀ y ∈ hosts.rows, x.hostUID = y.hostUID → x = y) :
    hosts.count (fun h => h.tenantID = tenant && uids.contains h.hostUID) = uids.length ↔
      ∀ uid ∈ uids, ∃ h ∈ hosts.rows, h.hostUID = uid ∧ h.tenantID = tenant := by
  set found := (hosts.select fun h => h.tenantID = tenant && uids.contains h.hostUID) with hfound
  have hmem : ∀ h : HostRow,
      h ∈ found ↔ h ∈ hosts.rows ∧ h.tenantID = tenant ∧ h.hostUID ∈ uids := by
    intro h
    simp [hfound]
  have hnodup : (found.map HostRow.hostUID).Nodup := by
    refine List.Nodup.map_on ?_ ((List.Nodup.of_map _ hosts.nodup).filter _)
    intro x hx y hy hxy
    exact hunique x ((hmem x).mp hx).1 y ((hmem y).mp hy).1 hxy
  have hsub : found.map HostRow.hostUID ⊆ uids := by
    intro uid huid
    obtain ⟨h, hh, rfl⟩ := List.mem_map.mp huid
    exact ((hmem h).mp hh).2.2
  have hcount : hosts.count (fun h => h.tenantID = tenant && uids.contains h.hostUID) =
      (found.map HostRow.hostUID).length := by
    rw [List.length_map, Table.count, List.countP_eq_length_filter]
    rfl
  have hall : (∀ uid ∈ uids, ∃ h ∈ hosts.rows, h.hostUID = uid ∧ h.tenantID = tenant) ↔
      uids ⊆ found.map HostRow.hostUID := by
    refine forall₂_congr fun uid huid => ?_
    simp only [List.mem_map, hmem]
    refine exists_congr fun h => ?_
    constructor
    · rintro ⟨hh, rfl, ht⟩
      exact ⟨⟨hh, ht, huid⟩, rfl⟩
    · rintro ⟨⟨hh, ht, -⟩, rfl⟩
      exact ⟨hh, rfl, ht⟩
  rw [hcount, hall]
  constructor
  · intro hlen
    exact ((List.subperm_of_subset hnodup hsub).perm_of_length_le hlen.ge).symm.subset
  · intro hback
    exact le_antisymm (List.subperm_of_subset hnodup hsub).length_le
      (List.subperm_of_subset huids hback).length_le

/-- The principal is an active administrator of this active tenant. -/
def Database.AdminOf (db : Database) (p : Principal) (tenant : Serial) : Prop :=
  p.isAdmin = true ∧ ∃ u t, (db.users.rows.find? fun u => (u.id : ℤ) = p.userID) = some u ∧
    db.tenants.get? u.tenantID = some t ∧ t.id = tenant ∧ t.tenantCode = p.tenantCode ∧
    u.status = "active" ∧ u.role = "admin" ∧ t.status = 1

theorem run_tenantForAdmin {p : Principal} {db db' : Database} {tenant : Serial} :
    (tenantForAdmin p).run db = .ok (tenant, db') ↔ db' = db ∧ db.AdminOf p tenant := by
  rw [tenantForAdmin, Database.AdminOf]
  cases hadmin : p.isAdmin with
  | false => simp
  | true =>
    simp only [Bool.not_true, Bool.false_eq_true, if_false, Tx.run_exec]
    cases hu : db.users.rows.find? fun u => (u.id : ℤ) = p.userID with
    | none => simp [Except.map]
    | some u =>
      cases ht : db.tenants.get? u.tenantID with
      | none => simp [Except.map, ht]
      | some t =>
        by_cases hok : t.tenantCode = p.tenantCode && u.status = "active" && u.role = "admin" &&
          t.status = 1
        · simp only [ht, hok, if_true, Except.map, Except.ok.injEq, Prod.mk.injEq, Tx.view_cons,
            Tx.view_nil, storage_apply, Database.apply]
          simp only [Bool.and_eq_true, decide_eq_true_eq] at hok
          constructor
          · rintro ⟨rfl, rfl⟩
            exact ⟨rfl, trivial, u, t, rfl, ht, rfl, hok.1.1.1, hok.1.1.2, hok.1.2, hok.2⟩
          · rintro ⟨rfl, -, u', t', hu', ht', rfl, -⟩
            obtain rfl := Option.some.inj hu'
            obtain rfl := Option.some.inj (ht.symm.trans ht')
            exact ⟨rfl, rfl⟩
        · simp only [ht, hok, Bool.false_eq_true, if_false, Except.map, reduceCtorEq, false_iff]
          rintro ⟨-, -, u', t', hu', ht', -, hcode, hactive, hrole, hstatus⟩
          obtain rfl := Option.some.inj hu'
          obtain rfl := Option.some.inj (ht.symm.trans ht')
          simp [hcode, hactive, hrole, hstatus] at hok

theorem insertShare_ok {id title hash : String} {tenant : Serial} {fields : List String}
    {expires now : Time} {userID : ℤ} {db db' : Database}
    (h : (insertShare id tenant title hash fields expires userID now).run db = .ok ((), db')) :
    ∃ r : AccessShareRow, varchar 64 id = some r.id ∧ r.tenantID = tenant ∧ r.fields = fields ∧
      db.accessShares.get? r.id = none ∧
        db' = { db with accessShares := db.accessShares.put r } := by
  rw [insertShare, Tx.run_exec] at h
  split at h
  case h_2 => cases h
  case h_1 id' title' hash' fields' u hid htitle hhash hfields hu =>
    dsimp only at h
    split_ifs at h with hrefused
    · cases h
    simp only [Except.map, Except.ok.injEq, Prod.mk.injEq, true_and] at h
    subst h
    have hsame : fields' = fields := by
      rw [jsonb] at hfields
      split_ifs at hfields
      exact (Option.some.inj hfields).symm
    refine ⟨_, hid, rfl, hsame, ?_, rfl⟩
    simp only [shareRefused, Bool.not_eq_true, List.any_eq_false,
      Bool.or_eq_true, decide_eq_true_eq, not_or] at hrefused
    exact Table.get?_eq_none_iff.mpr fun x hx => (hrefused.1.1 x hx).1

theorem insertShareHost_ok {shareID id uid : String} {tenant : Serial} {db db' : Database}
    (hid : varchar 64 shareID = some id) (htrim : trimSpace uid = uid)
    (h : (insertShareHost shareID tenant uid).run db = .ok ((), db')) :
    db' = { db with accessShareHosts := db.accessShareHosts.put ⟨id, tenant, uid⟩ } := by
  rw [insertShareHost, Tx.run_exec, hid] at h
  cases hvar : varchar 64 uid with
  | none =>
    rw [hvar] at h
    cases h
  | some stored =>
    have hsame : stored = uid := by
      rw [← htrim] at hvar
      exact (varchar_trimSpace hvar).trans htrim
    rw [hvar, hsame] at h
    dsimp only at h
    split_ifs at h
    · cases h
    simp only [Except.map, Except.ok.injEq, Prod.mk.injEq, true_and] at h
    exact h.symm

theorem insertShareHosts_ok {shareID id : String} {tenant : Serial} {uids : List String}
    {db db' : Database} (hid : varchar 64 shareID = some id)
    (htrim : ∀ uid ∈ uids, trimSpace uid = uid)
    (h : (insertShareHosts shareID tenant uids).run db = .ok ((), db')) :
    db' = { db with
      accessShareHosts := db.accessShareHosts.putAll (uids.map fun uid => ⟨id, tenant, uid⟩) } := by
  induction uids generalizing db with
  | nil =>
    simp only [insertShareHosts, Tx.run_pure, Except.ok.injEq, Prod.mk.injEq, true_and] at h
    exact h.symm
  | cons uid uids ih =>
    obtain ⟨_, db₁, hfirst, hrest⟩ := Tx.run_bind_eq_ok.mp h
    obtain rfl := insertShareHost_ok hid (htrim uid List.mem_cons_self) hfirst
    exact ih (fun x hx => htrim x (List.mem_cons_of_mem uid hx)) hrest

theorem run_countHosts {tenant : Serial} {uids : List String} (hnul : uids.any hasNul = false)
    (db : Database) : (countHosts tenant uids).run db =
      .ok (db.hosts.count fun h => h.tenantID = tenant && uids.contains h.hostUID, db) := by
  rw [countHosts, Tx.run_exec]
  simp [hnul, Except.map]

theorem countHosts_ok {tenant : Serial} {uids : List String} {db db' : Database} {n : ℕ}
    (h : (countHosts tenant uids).run db = .ok (n, db')) :
    db' = db ∧ n = db.hosts.count fun h => h.tenantID = tenant && uids.contains h.hostUID := by
  cases hnul : uids.any hasNul with
  | true =>
    rw [countHosts, Tx.run_exec] at h
    simp [hnul, Except.map] at h
  | false =>
    rw [run_countHosts hnul, Except.ok.injEq, Prod.mk.injEq] at h
    exact ⟨h.2.symm, h.1.symm⟩

/-- What the creation of the share `r` leaves behind. -/
structure ShareCreated (p : Principal) (req : CreateShareRequest) (r : AccessShareRow)
    (db db' : Database) : Prop where
  valid : validateShareRequest req = .ok ()
  admin : db.AdminOf p r.tenantID
  counted : db.hosts.count (fun h => h.tenantID = r.tenantID && req.hostUIDs.contains h.hostUID) =
    req.hostUIDs.length
  fields : r.fields = req.fields
  fresh : db.accessShares.get? r.id = none
  shares : db'.accessShares = db.accessShares.put r
  shareHosts : db'.accessShareHosts =
    db.accessShareHosts.putAll (req.hostUIDs.map fun uid => ⟨r.id, r.tenantID, uid⟩)

theorem createShareTx_ok {d : ShareDraws} {p : Principal} {req : CreateShareRequest} {hash : String}
    {now : Time} {db db' : Database} {record : ShareRecord}
    (hvalid : validateShareRequest req = .ok ())
    (h : (createShareTx d p req hash now).run db = .ok (record, db')) :
    ∃ r, varchar 64 record.id = some r.id ∧ ShareCreated p req r db db' := by
  obtain ⟨-, -, htrim⟩ := validateShareRequest_ok hvalid
  obtain ⟨tenant, db₁, htenant, h₁⟩ := Tx.run_bind_eq_ok.mp h
  obtain ⟨hsame₁, hadmin⟩ := run_tenantForAdmin.mp htenant
  obtain ⟨n, db₂, hquota, h₂⟩ := Tx.run_bind_eq_ok.mp h₁
  obtain ⟨-, hsame₂⟩ := Prod.mk.inj (Except.ok.inj hquota)
  split_ifs at h₂
  · simp at h₂
  obtain ⟨m, db₃, hcount, h₃⟩ := Tx.run_bind_eq_ok.mp h₂
  obtain ⟨hsame₃, hm⟩ := countHosts_ok hcount
  have hdb₂ : db₂ = db := by rw [← hsame₂, hsame₁]; rfl
  obtain rfl : db₃ = db := hsame₃.trans hdb₂
  dsimp only at h₃
  split_ifs at h₃ with hlen
  · simp at h₃
  obtain ⟨_, db₄, hinsert, h₄⟩ := Tx.run_bind_eq_ok.mp h₃
  obtain ⟨r, hvar, rfl, hfields, hfresh, hdb₄⟩ := insertShare_ok hinsert
  obtain ⟨_, db₅, hhosts, h₅⟩ := Tx.run_bind_eq_ok.mp h₄
  have hdb₅ := insertShareHosts_ok hvar htrim hhosts
  obtain ⟨_, db₆, haudit, h₆⟩ := Tx.run_bind_eq_ok.mp h₅
  obtain ⟨hrecord, hdb'⟩ := Prod.mk.inj (Except.ok.inj h₆)
  rw [audit, Tx.run_exec] at haudit
  simp only [Except.map, Except.ok.injEq, Prod.mk.injEq, true_and] at haudit
  subst hrecord hdb' haudit hdb₅ hdb₄
  refine ⟨r, hvar, hvalid, hadmin, ?_, hfields, hfresh, rfl, rfl⟩
  rw [← hdb₂, ← hm]
  exact not_not.mp hlen

theorem createShare_ok {d : ShareDraws} {p : Principal} {req : CreateShareRequest} {hash : String}
    {now : Time} {db db' : Database} {record : ShareRecord}
    (h : (createShare d p req hash now).run db = .ok (record, db')) :
    ∃ r, varchar 64 record.id = some r.id ∧ ShareCreated p req r db db' := by
  rw [createShare] at h
  cases hvalid : validateShareRequest req with
  | error e =>
    rw [hvalid] at h
    split_ifs at h <;> simp at h
  | ok _ =>
    rw [hvalid] at h
    split_ifs at h
    · simp at h
    · simp at h
    · exact createShareTx_ok hvalid h

/-- The foreign key of `access_share_hosts` on the shares, and the unique `host_uid`. -/
structure Database.ShareKeys (db : Database) : Prop where
  owned : ∀ h ∈ db.accessShareHosts.rows, ∃ x ∈ db.accessShares.rows, x.id = h.shareID
  hostUIDs : ∀ x ∈ db.hosts.rows, ∀ y ∈ db.hosts.rows, x.hostUID = y.hostUID → x = y

inductive ShareStep
  | call (c : ShareCall)
  | deleteHost (tenant : Serial) (hostUID : String)
  | other (db : Database)

/-- The deletion of a host, which is passed on to `access_share_hosts`. -/
def Database.deleteHost (db : Database) (tenant : Serial) (hostUID : String) : Database :=
  { db with
    hosts := db.hosts.filter fun h => !(h.tenantID = tenant && h.hostUID = hostUID)
    accessShareHosts :=
      db.accessShareHosts.filter fun h => !(h.tenantID = tenant && h.hostUID = hostUID) }

/-- Others change neither the shares nor their hosts, and the key on the hosts stays. -/
def Database.keepsShares (db db' : Database) : Bool :=
  db'.accessShares = db.accessShares && db'.accessShareHosts = db.accessShareHosts &&
    db'.accessShareHosts.rows.all fun r =>
      db'.hosts.rows.any fun h => h.tenantID = r.tenantID && h.hostUID = r.hostUID

def Database.shareStep (sha256 : String → String) (db : Database) : ShareStep → Database
  | .call c => ((shareProgram sha256 c).transact db).2
  | .deleteHost tenant hostUID => db.deleteHost tenant hostUID
  | .other db' => if db.keepsShares db' then db' else db

def Database.shareSteps (sha256 : String → String) (db : Database) (steps : List ShareStep) :
    Database := steps.foldl (Database.shareStep sha256) db

/-- The hosts of a tenant that are deleted in some steps. -/
def deletedHosts (tenant : Serial) (steps : List ShareStep) : List String :=
  steps.filterMap fun
    | .deleteHost t uid => if t = tenant then some uid else none
    | _ => none

/-- The tenant and the fields of the share `r` as they were, and hosts for which `P` holds. -/
structure SharedHosts (r : AccessShareRow) (P : String → Prop) (db : Database) : Prop where
  share : ∃ x, db.accessShares.get? r.id = some x ∧ x.tenantID = r.tenantID ∧ x.fields = r.fields
  tenant : ∀ uid h, db.accessShareHosts.get? (r.id, uid) = some h → h.tenantID = r.tenantID
  hosts : ∀ uid, (db.accessShareHosts.get? (r.id, uid)).isSome = true ↔ P uid

section Steps
variable {r : AccessShareRow} {P : String → Prop} {db db' : Database} {p : Principal}
  {req : CreateShareRequest}

theorem ShareCreated.scope (h : ShareCreated p req r db db') (hkeys : db.ShareKeys) :
    SharedHosts r (· ∈ req.hostUIDs) db' := by
  obtain ⟨-, hnodup, -⟩ := validateShareRequest_ok h.valid
  have hrow : ∀ uid ∈ req.hostUIDs,
      db'.accessShareHosts.get? (r.id, uid) = some ⟨r.id, r.tenantID, uid⟩ := by
    intro uid huid
    rw [h.shareHosts]
    refine Table.get?_putAll_of_mem (r := (⟨r.id, r.tenantID, uid⟩ : AccessShareHostRow)) ?_ ?_
    · rw [List.map_map]
      exact hnodup.map fun x y hxy => (Prod.mk.inj hxy).2
    · exact List.mem_map_of_mem huid
  have hnone : ∀ uid ∉ req.hostUIDs, db'.accessShareHosts.get? (r.id, uid) = none := by
    intro uid huid
    rw [h.shareHosts, Table.get?_putAll_of_not_mem]
    · -- a row of this share would have had a share before it was created
      rw [Table.get?_eq_none_iff]
      intro x hx hkey
      obtain ⟨y, hy, hyid⟩ := hkeys.owned x hx
      refine Table.get?_eq_none_iff.mp h.fresh y hy (hyid.trans ?_)
      exact (Prod.mk.inj hkey).1
    · intro x hx hkey
      obtain ⟨uid', huid', rfl⟩ := List.mem_map.mp hx
      exact huid ((Prod.mk.inj hkey).2 ▸ huid')
  refine ⟨⟨r, ?_, rfl, rfl⟩, ?_, ?_⟩
  · rw [h.shares]
    exact Table.get?_put_self _ r
  · intro uid x hx
    by_cases huid : uid ∈ req.hostUIDs
    · rw [hrow uid huid] at hx
      rw [← Option.some.inj hx]
    · rw [hnone uid huid] at hx
      cases hx
  · intro uid
    by_cases huid : uid ∈ req.hostUIDs
    · simp [hrow uid huid, huid]
    · simp [hnone uid huid, huid]

/-- Another share is created beside it. -/
theorem SharedHosts.created {r' : AccessShareRow} (hs : SharedHosts r P db)
    (h : ShareCreated p req r' db db') : SharedHosts r P db' := by
  obtain ⟨x, hx, hten, hfields⟩ := hs.share
  have hne : r'.id ≠ r.id := by
    intro heq
    have hfresh := h.fresh
    rw [heq, hx] at hfresh
    cases hfresh
  have hhosts : ∀ uid, db'.accessShareHosts.get? (r.id, uid) =
      db.accessShareHosts.get? (r.id, uid) := by
    intro uid
    rw [h.shareHosts, Table.get?_putAll_of_not_mem]
    intro y hy hkey
    obtain ⟨uid', -, rfl⟩ := List.mem_map.mp hy
    exact hne (Prod.mk.inj hkey).1
  refine ⟨⟨x, ?_, hten, hfields⟩, ?_, ?_⟩
  · rw [h.shares, Table.get?_put_of_ne _ hne]
    exact hx
  · intro uid
    rw [hhosts]
    exact hs.tenant uid
  · intro uid
    rw [hhosts]
    exact hs.hosts uid

theorem SharedHosts.deleted (hs : SharedHosts r P db) (tenant : Serial) (hostUID : String) :
    SharedHosts r (fun uid => P uid ∧ ¬(tenant = r.tenantID ∧ hostUID = uid))
      (db.deleteHost tenant hostUID) := by
  refine ⟨hs.share, ?_, ?_⟩
  · intro uid x hx
    rw [Database.deleteHost, Table.get?_filter, Option.filter_eq_some_iff] at hx
    exact hs.tenant uid x hx.1
  · intro uid
    rw [Database.deleteHost, Table.get?_filter]
    cases hrow : db.accessShareHosts.get? (r.id, uid) with
    | none =>
      have hnot : ¬P uid := by
        rw [← hs.hosts uid, hrow]
        simp
      simp [hnot]
    | some x =>
      have hP : P uid := by
        rw [← hs.hosts uid, hrow]
        rfl
      have hten := hs.tenant uid x hrow
      have hkey : x.key = (r.id, uid) := Table.key_of_get? hrow
      have huid : x.hostUID = uid := (Prod.mk.inj hkey).2
      rw [Option.filter_some, hten, huid]
      by_cases heq : tenant = r.tenantID ∧ hostUID = uid
      · simp [heq]
      · have hfalse : ¬(r.tenantID = tenant ∧ uid = hostUID) :=
          fun h => heq ⟨h.1.symm, h.2.symm⟩
        simpa [hP, heq] using not_and_or.mp hfalse

/-- The hosts of the shares are the same, and every share has its tenant and fields. -/
structure Carried (db db' : Database) : Prop where
  shares : ∀ id x, db.accessShares.get? id = some x → ∃ y, db'.accessShares.get? id = some y ∧
    y.tenantID = x.tenantID ∧ y.fields = x.fields
  shareHosts : db'.accessShareHosts = db.accessShareHosts

theorem Carried.of_eq (hshares : db'.accessShares = db.accessShares)
    (hhosts : db'.accessShareHosts = db.accessShareHosts) : Carried db db' :=
  ⟨fun _ x hx => ⟨x, hshares ▸ hx, rfl, rfl⟩, hhosts⟩

theorem SharedHosts.carried (hs : SharedHosts r P db) (h : Carried db db') :
    SharedHosts r P db' := by
  obtain ⟨x, hx, hten, hfields⟩ := hs.share
  obtain ⟨y, hy, hyten, hyfields⟩ := h.shares r.id x hx
  refine ⟨⟨y, hy, hyten.trans hten, hyfields.trans hfields⟩, ?_, ?_⟩
  · rw [h.shareHosts]
    exact hs.tenant
  · rw [h.shareHosts]
    exact hs.hosts

/-- Accesses that leave shares and their hosts alone. -/
def Access.SparesShares : Access → Prop
  | .putShare _ | .putShareHost _ => False
  | _ => True

theorem carried_of_uses {α : Type} {t : ShareTx α} {a : α} (ht : t.Uses Access.SparesShares)
    (h : t.run db = .ok (a, db')) : Carried db db' := by
  have hsame : db'.accessShares = db.accessShares ∧
      db'.accessShareHosts = db.accessShareHosts := by
    refine Tx.Uses.run_induction (I := fun x : Database => x.accessShares = db.accessShares ∧
      x.accessShareHosts = db.accessShareHosts) ?_ ht h ⟨rfl, rfl⟩
    intro x a ha hx
    cases a <;> first | exact hx | exact ha.elim
  exact .of_eq hsame.1 hsame.2

theorem spares_validShare_bind {α : Type} {q : Database → AccessShareRow → Bool}
    {k : AccessShareRow × String → ShareTx α} (hk : ∀ x, (k x).Uses Access.SparesShares) :
    (validShare q >>= k).Uses Access.SparesShares := by
  refine Tx.uses_bind (Tx.uses_query_bind fun db => ?_) hk
  split
  · exact Tx.uses_throw _
  · exact Tx.uses_pure _

theorem spares_sharePrincipal (row : AccessShareRow) (code : String) :
    (sharePrincipal row code).Uses Access.SparesShares :=
  Tx.uses_query_bind fun _ => Tx.uses_pure _

end Steps

section Calls
variable {sha256 : String → String}

theorem spares_authenticate (raw : String) (kind : Kind) (now : Time) :
    (authenticate sha256 raw kind now).Uses Access.SparesShares :=
  Tx.uses_ite (Tx.uses_throw _) (spares_validShare_bind fun x => spares_sharePrincipal x.1 x.2)

theorem spares_authenticateShareSession (raw : String) (now : Time) :
    (authenticateShareSession sha256 raw now).Uses Access.SparesShares :=
  Tx.uses_ite (Tx.uses_throw _) (spares_validShare_bind fun x => spares_sharePrincipal x.1 x.2)

theorem spares_lockShareByToken (hash : String) :
    (lockShareByToken hash).Uses Access.SparesShares := by
  apply Tx.uses_exec
  intro db x as hx a ha
  split at hx
  · cases hx
  · cases hx
    rw [List.mem_singleton.mp ha]
    trivial

theorem spares_insertShareSession (r : AccessShareSessionRow) :
    (insertShareSession r).Uses Access.SparesShares := by
  apply Tx.uses_exec
  intro db x as hx a ha
  split_ifs at hx
  cases hx
  rw [List.mem_singleton.mp ha]
  trivial

theorem spares_exchangeShare (d : ShareDraws) (raw : String) (now : Time) :
    (exchangeShare sha256 d raw now).Uses Access.SparesShares := by
  refine Tx.uses_ite (Tx.uses_throw _) ?_
  refine Tx.uses_bind (spares_lockShareByToken _) fun id => Tx.uses_ite (Tx.uses_throw _) ?_
  refine spares_validShare_bind fun x => ?_
  refine Tx.uses_bind (uses_deleteSessions fun _ => trivial) fun _ => ?_
  refine Tx.uses_query_bind fun db => Tx.uses_ite (Tx.uses_throw _) ?_
  cases d.token with
  | none => exact Tx.uses_throw _
  | some token =>
    refine Tx.uses_bind (spares_insertShareSession _) fun _ => ?_
    exact Tx.uses_bind (spares_sharePrincipal x.1 x.2) fun _ => Tx.uses_pure _

theorem markRevoked_carried {id : String} {tenant : Serial} {now : Time} {db db' : Database}
    (h : (markRevoked id tenant now).run db = .ok ((), db')) : Carried db db' := by
  rw [markRevoked, Tx.run_exec] at h
  cases hrow : db.accessShares.get? id with
  | none =>
    simp only [hrow, Except.map, Except.ok.injEq, Prod.mk.injEq, true_and] at h
    exact h ▸ .of_eq rfl rfl
  | some x =>
    simp only [hrow] at h
    split_ifs at h
    · simp only [Except.map, Except.ok.injEq, Prod.mk.injEq, true_and] at h
      subst h
      refine ⟨?_, rfl⟩
      intro id' y hy
      change ∃ z, (db.accessShares.put _).get? id' = some z ∧ _
      rw [Table.get?_put]
      split_ifs with hid
      · have hxy : y = x := by
          have hxid : x.id = id := Table.key_of_get? hrow
          rw [← hid, hxid, hrow] at hy
          exact (Option.some.inj hy).symm
        exact ⟨_, rfl, by rw [hxy], by rw [hxy]⟩
      · exact ⟨y, hy, rfl, rfl⟩
    · simp only [Except.map, Except.ok.injEq, Prod.mk.injEq, true_and] at h
      exact h ▸ .of_eq rfl rfl

theorem Carried.trans {db₁ db₂ db₃ : Database} (h : Carried db₁ db₂) (h' : Carried db₂ db₃) :
    Carried db₁ db₃ := by
  refine ⟨?_, h'.shareHosts.trans h.shareHosts⟩
  intro id x hx
  obtain ⟨y, hy, hten, hfields⟩ := h.shares id x hx
  obtain ⟨z, hz, hten', hfields'⟩ := h'.shares id y hy
  exact ⟨z, hz, hten'.trans hten, hfields'.trans hfields⟩

theorem revokeShare_carried {p : Principal} {id : String} {now : Time} {db db' : Database}
    (h : (revokeShare p id now).run db = .ok ((), db')) : Carried db db' := by
  obtain ⟨tenant, db₁, htenant, h₁⟩ := Tx.run_bind_eq_ok.mp h
  obtain ⟨rfl, -⟩ := run_tenantForAdmin.mp htenant
  obtain ⟨found, db₂, hfound, h₂⟩ := Tx.run_bind_eq_ok.mp h₁
  obtain rfl : db₁ = db₂ := (Prod.mk.inj (Except.ok.inj hfound)).2
  split_ifs at h₂
  · simp at h₂
  obtain ⟨_, db₃, hmark, h₃⟩ := Tx.run_bind_eq_ok.mp h₂
  have hrest : (deleteSessions id (fun _ => true) >>= fun _ =>
      audit p tenant "share.revoke" id now).Uses Access.SparesShares :=
    Tx.uses_bind (uses_deleteSessions fun _ => trivial) fun _ => uses_audit trivial
  exact (markRevoked_carried hmark).trans (carried_of_uses hrest h₃)

theorem SharedHosts.call {r : AccessShareRow} {P : String → Prop} {db : Database}
    (hs : SharedHosts r P db)
    (c : ShareCall) : SharedHosts r P ((shareProgram sha256 c).transact db).2 := by
  rw [Tx.transact]
  cases hrun : (shareProgram sha256 c).run db with
  | error e => exact hs
  | ok out =>
    obtain ⟨reply, db'⟩ := out
    change SharedHosts r P db'
    cases c with
    | createShare d p req hash now =>
      obtain ⟨record, db₁, hcreate, h₁⟩ := Tx.run_bind_eq_ok.mp hrun
      obtain ⟨-, rfl⟩ := Prod.mk.inj (Except.ok.inj h₁)
      obtain ⟨r', -, hcreated⟩ := createShare_ok hcreate
      exact hs.created hcreated
    | revokeShare p id now =>
      obtain ⟨_, db₁, hrevoke, h₁⟩ := Tx.run_bind_eq_ok.mp hrun
      obtain ⟨-, rfl⟩ := Prod.mk.inj (Except.ok.inj h₁)
      exact hs.carried (revokeShare_carried hrevoke)
    | authenticate raw kind now =>
      exact hs.carried (carried_of_uses
        (Tx.uses_bind (spares_authenticate raw kind now) fun _ => Tx.uses_pure _) hrun)
    | exchangeShare d raw now =>
      exact hs.carried (carried_of_uses
        (Tx.uses_bind (spares_exchangeShare d raw now) fun _ => Tx.uses_pure _) hrun)
    | authenticateShareSession raw now =>
      exact hs.carried (carried_of_uses
        (Tx.uses_bind (spares_authenticateShareSession raw now) fun _ => Tx.uses_pure _) hrun)

theorem SharedHosts.congr {r : AccessShareRow} {P Q : String → Prop} {db : Database}
    (hs : SharedHosts r P db)
    (h : ∀ uid, P uid ↔ Q uid) : SharedHosts r Q db :=
  ⟨hs.share, hs.tenant, fun uid => (hs.hosts uid).trans (h uid)⟩

theorem SharedHosts.steps {r : AccessShareRow} {P : String → Prop} {db : Database}
    (hs : SharedHosts r P db)
    (steps : List ShareStep) :
    SharedHosts r (fun uid => P uid ∧ uid ∉ deletedHosts r.tenantID steps)
      (db.shareSteps sha256 steps) := by
  induction steps generalizing P db with
  | nil => exact hs.congr fun uid => by simp [deletedHosts]
  | cons e steps ih =>
    cases e with
    | call c => exact ih (hs.call c)
    | deleteHost tenant hostUID =>
      refine (ih (hs.deleted tenant hostUID)).congr fun uid => ?_
      by_cases ht : tenant = r.tenantID
      · simp [deletedHosts, ht, and_assoc, eq_comm]
      · simp [deletedHosts, ht]
    | other db' =>
      refine ih ?_
      change SharedHosts r P (if db.keepsShares db' then db' else db)
      split_ifs with hkeeps
      · simp only [Database.keepsShares, Bool.and_eq_true, decide_eq_true_eq] at hkeeps
        exact hs.carried (.of_eq hkeeps.1.1 hkeeps.1.2)
      · exact hs

theorem validShare_ok {q : Database → AccessShareRow → Bool} {db db' : Database}
    {x : AccessShareRow} {code : String} (h : (validShare q).run db = .ok ((x, code), db')) :
    db' = db ∧ x ∈ db.accessShares.rows := by
  obtain ⟨found, db₁, hfound, h₁⟩ := Tx.run_bind_eq_ok.mp h
  obtain ⟨hrow, rfl⟩ := Prod.mk.inj (Except.ok.inj hfound)
  cases found with
  | none => simp at h₁
  | some out =>
    obtain ⟨rfl, rfl⟩ := Prod.mk.inj (Except.ok.inj h₁)
    obtain ⟨y, hy, hout⟩ := Option.map_eq_some_iff.mp hrow
    obtain ⟨rfl, -⟩ := Prod.mk.inj hout
    exact ⟨rfl, (Table.mem_of_first hy).1⟩

theorem sharePrincipal_ok {row : AccessShareRow} {code : String} {db db' : Database}
    {q : Principal} (h : (sharePrincipal row code).run db = .ok (q, db')) :
    q.shareID = row.id ∧ q.fields = row.fields ∧ ∀ uid, uid ∈ q.allowedHosts ↔
      ∃ h ∈ db.accessShareHosts.rows, h.shareID = row.id ∧ h.tenantID = row.tenantID ∧
        h.hostUID = uid := by
  obtain ⟨hosts, db₁, hhosts, h₁⟩ := Tx.run_bind_eq_ok.mp h
  obtain ⟨rfl, rfl⟩ := Prod.mk.inj (Except.ok.inj hhosts)
  obtain ⟨rfl, -⟩ := Prod.mk.inj (Except.ok.inj h₁)
  refine ⟨rfl, rfl, fun uid => ?_⟩
  change uid ∈ List.insertionSort (· ≤ ·) _ ↔ _
  rw [(List.perm_insertionSort _ _).mem_iff]
  simp [and_assoc]

/-- A principal that is returned for a share has what is left of its scope. -/
theorem SharedHosts.principal {r : AccessShareRow} {P : String → Prop} {db db' : Database}
    {found : Database → AccessShareRow → Bool} {q : Principal} (hs : SharedHosts r P db)
    (h : (validShare found >>= fun row => sharePrincipal row.1 row.2).run db = .ok (q, db'))
    (hid : q.shareID = r.id) : (∀ uid, uid ∈ q.allowedHosts ↔ P uid) ∧ q.fields = r.fields := by
  obtain ⟨⟨x, code⟩, db₁, hvalid, h₁⟩ := Tx.run_bind_eq_ok.mp h
  obtain ⟨rfl, hx⟩ := validShare_ok hvalid
  obtain ⟨hqid, hqfields, hqhosts⟩ := sharePrincipal_ok h₁
  obtain ⟨y, hy, hten, hfields⟩ := hs.share
  have hxid : x.id = r.id := hqid.symm.trans hid
  have hxy : x = y := by
    have hget := Table.get?_of_mem hx
    rw [hxid, hy] at hget
    exact (Option.some.inj hget).symm
  subst hxy
  refine ⟨fun uid => ?_, hqfields.trans hfields⟩
  rw [hqhosts, ← hs.hosts uid, Option.isSome_iff_exists]
  constructor
  · rintro ⟨z, hz, hzid, -, rfl⟩
    refine ⟨z, Table.get?_eq_some_iff.mpr ⟨hz, ?_⟩⟩
    exact Prod.ext (hzid.trans hxid) rfl
  · rintro ⟨z, hz⟩
    have hkey : z.key = (r.id, uid) := Table.key_of_get? hz
    obtain ⟨hzid, hzuid⟩ := Prod.mk.inj hkey
    exact ⟨z, Table.mem_of_get? hz, hzid.trans hxid.symm, (hs.tenant uid z hz).trans hten.symm,
      hzuid⟩

theorem run_of_transact_fst {α : Type} {t : ShareTx α} {db : Database} {a : α}
    (h : (t.transact db).1 = .ok a) : ∃ db', t.run db = .ok (a, db') := by
  rw [Tx.transact_fst] at h
  cases hrun : t.run db with
  | error e =>
    rw [hrun] at h
    cases h
  | ok out =>
    rw [hrun] at h
    exact ⟨out.2, by rw [← Except.ok.inj h]⟩

theorem SharedHosts.authenticated {r : AccessShareRow} {P : String → Prop} {db : Database}
    {raw : String} {kind : Kind} {now : Time} {q : Principal} (hs : SharedHosts r P db)
    (h : ((authenticate sha256 raw kind now).transact db).1 = .ok q ∨
      ((authenticateShareSession sha256 raw now).transact db).1 = .ok q)
    (hid : q.shareID = r.id) : (∀ uid, uid ∈ q.allowedHosts ↔ P uid) ∧ q.fields = r.fields := by
  obtain h | h := h
  · obtain ⟨db', hrun⟩ := run_of_transact_fst h
    rw [authenticate] at hrun
    split_ifs at hrun
    · simp at hrun
    · exact hs.principal hrun hid
  · obtain ⟨db', hrun⟩ := run_of_transact_fst h
    rw [authenticateShareSession] at hrun
    split_ifs at hrun
    · simp at hrun
    · exact hs.principal hrun hid

end Calls

theorem createShare_notFound {d : ShareDraws} {p : Principal} {req : CreateShareRequest}
    {hash : String} {now : Time} {db : Database} {tenant : Serial} (hkeys : db.ShareKeys)
    (hadmin : db.AdminOf p tenant) (hvalid : validateShareRequest req = .ok ())
    (hhash : hash.utf8ByteSize = 64)
    (hquota : db.accessShares.count (fun x => x.tenantID = tenant) < 100)
    (hnul : ∀ uid ∈ req.hostUIDs, hasNul uid = false)
    (hmissing : ∃ uid ∈ req.hostUIDs, ∀ h ∈ db.hosts.rows, h.hostUID = uid → h.tenantID ≠ tenant) :
    (createShare d p req hash now).transact db = (.error .notFound, db) := by
  obtain ⟨-, hnodup, -⟩ := validateShareRequest_ok hvalid
  have hcount : db.hosts.count
      (fun h => h.tenantID = tenant && req.hostUIDs.contains h.hostUID) ≠ req.hostUIDs.length := by
    intro heq
    obtain ⟨uid, huid, hnone⟩ := hmissing
    obtain ⟨h, hh, hhuid, hten⟩ := (count_eq_length_iff hnodup hkeys.hostUIDs).mp heq uid huid
    exact hnone h hh hhuid hten
  have htenant : (tenantForAdmin p).run db = .ok (tenant, db) :=
    run_tenantForAdmin.mpr ⟨rfl, hadmin⟩
  have hany : req.hostUIDs.any hasNul = false := by simpa using hnul
  apply Tx.transact_of_error
  rw [createShare, hadmin.1, hvalid]
  simp only [Bool.not_true, Bool.false_eq_true, if_false, hhash, ne_eq, not_true_eq_false]
  rw [createShareTx, Tx.run_bind_of_ok htenant, Tx.run_bind_of_ok (Tx.run_query _ _),
    if_neg (not_le.mpr hquota), Tx.run_bind_of_ok (run_countHosts hany db), if_pos hcount]
  rfl

/-- The scope of a share. A share is created only when every host of the request is one of
the administrator's tenant; its hosts and fields, and those of every principal that is
returned for it later, are the requested ones without the hosts deleted since. When a host
is missing nothing is written. -/
theorem share_scope_as_requested (sha256 : String → String) (db : Database) (hkeys : db.ShareKeys)
    (d : ShareDraws) (p : Principal) (req : CreateShareRequest) (hash : String) (now : Time) :
    (∀ record db', (createShare d p req hash now).transact db = (.ok record, db') →
      ∃ r : AccessShareRow, varchar 64 record.id = some r.id ∧ db.AdminOf p r.tenantID ∧
        (∀ uid ∈ req.hostUIDs, ∃ h ∈ db.hosts.rows, h.hostUID = uid ∧ h.tenantID = r.tenantID) ∧
        db.accessShares.get? r.id = none ∧ db'.accessShares.get? r.id = some r ∧
        r.fields = req.fields ∧
        (∀ uid, (∃ h ∈ db'.accessShareHosts.rows, h.shareID = r.id ∧ h.hostUID = uid) ↔
          uid ∈ req.hostUIDs) ∧
        ∀ (steps : List ShareStep) (raw : String) (kind : Kind) (at' : Time) (q : Principal),
          (((authenticate sha256 raw kind at').transact (db'.shareSteps sha256 steps)).1 = .ok q ∨
            ((authenticateShareSession sha256 raw at').transact
              (db'.shareSteps sha256 steps)).1 = .ok q) →
          q.shareID = r.id →
          (∀ uid, uid ∈ q.allowedHosts ↔
            uid ∈ req.hostUIDs ∧ uid ∉ deletedHosts r.tenantID steps) ∧
          q.fields = req.fields) ∧
    ∀ tenant, db.AdminOf p tenant → validateShareRequest req = .ok () → hash.utf8ByteSize = 64 →
      db.accessShares.count (fun x => x.tenantID = tenant) < 100 →
      (∀ uid ∈ req.hostUIDs, hasNul uid = false) →
      (∃ uid ∈ req.hostUIDs, ∀ h ∈ db.hosts.rows, h.hostUID = uid → h.tenantID ≠ tenant) →
      (createShare d p req hash now).transact db = (.error .notFound, db) := by
  refine ⟨?_, ?_⟩
  · intro record db' h
    obtain ⟨r, hid, hcreated⟩ := createShare_ok (Tx.run_of_transact h)
    obtain ⟨-, hnodup, -⟩ := validateShareRequest_ok hcreated.valid
    have hscope := hcreated.scope hkeys
    refine ⟨r, hid, hcreated.admin, ?_, hcreated.fresh, ?_, hcreated.fields, ?_, ?_⟩
    · exact (count_eq_length_iff hnodup hkeys.hostUIDs).mp hcreated.counted
    · rw [hcreated.shares]
      exact Table.get?_put_self _ r
    · intro uid
      rw [← hscope.hosts uid, Option.isSome_iff_exists]
      simp only [Table.get?_eq_some_iff, AccessShareHostRow.key, Prod.mk.injEq]
    · intro steps raw kind at' q hq hqid
      have hlater := (hscope.steps steps).authenticated hq hqid
      exact ⟨hlater.1, hlater.2.trans hcreated.fields⟩
  · intro tenant hadmin hvalid hhash hquota hnul hmissing
    exact createShare_notFound hkeys hadmin hvalid hhash hquota hnul hmissing

/-- A tenant with an administrator and two hosts, and a tenant with another host. -/
def twoTenants : Database where
  tenants := ⟨[⟨1, "acme", "acme", 1, 0, 0⟩, ⟨2, "other", "other", 1, 0, 0⟩], by decide⟩
  users := ⟨[{ id := 1, tenantID := 1, role := "admin", status := "active" }], by decide⟩
  hosts := ⟨[⟨1, 1, "h1", "", "", "", "", "", none, none, none, .up, 0, 0, 0⟩,
    ⟨2, 2, "h2", "", "", "", "", "", none, none, none, .up, 0, 0, 0⟩,
    ⟨3, 1, "h3", "", "", "", "", "", none, none, none, .up, 0, 0, 0⟩], by decide⟩

def twoTenantsAdmin : Principal :=
  { kind := .user, tenantID := 1, tenantCode := "acme", userID := 1, role := "admin" }

def shareHash : String := String.ofList (List.replicate 64 'a')

theorem twoTenants_shareKeys : twoTenants.ShareKeys := by
  refine ⟨?_, ?_⟩
  · decide
  · decide

theorem twoTenants_adminOf : twoTenants.AdminOf twoTenantsAdmin 1 :=
  ⟨by decide, _, _, rfl, rfl, by decide⟩

def shareOf (hostUIDs : List String) : CreateShareRequest := ⟨"t", hostUIDs, ["status"], 60⟩

def sharedPair : Except AccessError ShareRecord × Database :=
  (createShare {} twoTenantsAdmin (shareOf ["h1", "h3"]) shareHash 0).transact twoTenants

def shareToken : String := String.ofList (List.replicate 43 'A')

/-- Who comes with the token once one of the two hosts is deleted. -/
def sharedLater : Except AccessError Principal :=
  ((authenticate (fun _ => shareHash) shareToken .share 0).transact
    (sharedPair.2.shareSteps (fun _ => shareHash) [.deleteHost 1 "h3"])).1

theorem share_scope_foreign_host : twoTenants.ShareKeys ∧
    (createShare {} twoTenantsAdmin (shareOf ["h1", "h2"]) shareHash 0).transact twoTenants =
      (.error .notFound, twoTenants) ∧
    ∃ r q, sharedPair.2.accessShares.get? r.id = some r ∧ sharedLater = .ok q ∧
      q.shareID = r.id ∧ q.fields = ["status"] ∧
      (∀ uid, uid ∈ q.allowedHosts ↔
        uid ∈ ["h1", "h3"] ∧ uid ∉ deletedHosts r.tenantID [.deleteHost 1 "h3"]) ∧
      q.allowedHosts = ["h1"] := by
  have hforeign := (share_scope_as_requested id twoTenants twoTenants_shareKeys {} twoTenantsAdmin
    (shareOf ["h1", "h2"]) shareHash 0).2 1 twoTenants_adminOf (by decide +kernel)
    (by decide +kernel) (by decide +kernel) (by decide +kernel) (by decide +kernel)
  refine ⟨twoTenants_shareKeys, hforeign, ?_⟩
  have hboth : (sharedPair.1.toOption.bind fun x => varchar 64 x.id).isSome = true ∧
      sharedLater.toOption.map (fun q => (some q.shareID, q.allowedHosts)) =
        some (sharedPair.1.toOption.bind fun x => varchar 64 x.id, ["h1"]) := by decide +kernel
  cases hpair : sharedPair.1 with
  | error e =>
    rw [hpair] at hboth
    cases hboth.1
  | ok record =>
    cases hlater : sharedLater with
    | error e =>
      rw [hlater] at hboth
      cases hboth.2
    | ok q =>
      obtain ⟨r, hid, -, -, -, hrow, -, -, hread⟩ := (share_scope_as_requested (fun _ => shareHash)
        twoTenants twoTenants_shareKeys {} twoTenantsAdmin (shareOf ["h1", "h3"]) shareHash 0).1
        record sharedPair.2 (Prod.ext hpair rfl)
      rw [hpair, hlater] at hboth
      obtain ⟨hshare, hhosts⟩ := Prod.mk.inj (Option.some.inj hboth.2)
      have hqid : q.shareID = r.id := Option.some.inj (hshare.trans hid)
      obtain ⟨hallowed, hfields⟩ := hread _ shareToken .share 0 q (.inl hlater) hqid
      exact ⟨r, q, hrow, rfl, hqid, hfields, hallowed, hhosts⟩

/-- A host UID with a NUL passes the check of the request and is refused by the database. -/
theorem share_nul_not_notFound :
    ¬∀ (db : Database), db.ShareKeys → ∀ (d : ShareDraws) (p : Principal)
      (req : CreateShareRequest) (hash : String) (now : Time) (tenant : Serial),
      db.AdminOf p tenant → validateShareRequest req = .ok () → hash.utf8ByteSize = 64 →
      db.accessShares.count (fun x => x.tenantID = tenant) < 100 →
      (∃ uid ∈ req.hostUIDs, ∀ h ∈ db.hosts.rows, h.hostUID = uid → h.tenantID ≠ tenant) →
      (createShare d p req hash now).transact db = (.error .notFound, db) := by
  intro h
  have hnul := h twoTenants twoTenants_shareKeys {} twoTenantsAdmin
    ⟨"t", ["a\x00b"], ["status"], 60⟩ shareHash 0 1 twoTenants_adminOf (by decide +kernel)
    (by decide +kernel) (by decide +kernel) (by decide +kernel)
  have hdatabase : ((createShare {} twoTenantsAdmin ⟨"t", ["a\x00b"], ["status"], 60⟩ shareHash
      0).transact twoTenants).1 = .error .database := by
    decide +kernel
  rw [hnul] at hdatabase
  cases hdatabase

end Gaoming
