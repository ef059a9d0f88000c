import Gaoming.TransactionInterleaving
import Gaoming.ShareStoreProgram

/-!
# What the calls of the share store do, and what their locks keep out

A transaction that writes a share holds its tenant, and one that writes a session
holds its share. `Covered` says so of the accesses of a transaction, `Shielded`
says what the others can then not have changed. The effect of each call on the
shares and sessions is stated once, in the world in which it commits.
-/

namespace Gaoming
open Relational Transaction

abbrev ShareSys := Sys Database Access AccessError ShareReply ShareCall
abbrev ShareWorld := World Database ShareCall ShareReply

section Uses
variable {q : Access → Prop} {tenant : Serial}

theorem uses_tenantForAdmin {p : Principal} (hu : ∀ id, q (.lockUser id .share))
    (ht : ∀ id, q (.lockTenant id .exclusive)) : (tenantForAdmin p).Uses q := by
  refine Tx.uses_ite (Tx.uses_throw _) (Tx.uses_exec fun db x as h a ha => ?_)
  split at h
  · cases h
  · split at h
    · cases h
    · split_ifs at h
      cases h
      simp only [List.mem_cons, List.not_mem_nil, or_false] at ha
      rcases ha with rfl | rfl
      · exact hu _
      · exact ht _

theorem uses_audit {p : Principal} {action id : String} {now : Time}
    (h : q (.insertAuditLog ⟨tenant, p.actor, action, "share", id, true, timestamptz now⟩)) :
    (audit p tenant action id now).Uses q := by
  apply Tx.uses_exec_one
  intro db x as hx
  cases hx
  exact .inr ⟨_, rfl, h⟩

theorem uses_insertShare {id title hash : String} {fields : List String} {expires now : Time}
    {userID : ℤ} (hk : ∀ x, q (.lockShareToken x))
    (h : ∀ r : AccessShareRow, r.tenantID = tenant → q (.putShare r)) :
    (insertShare id tenant title hash fields expires userID now).Uses q := by
  apply Tx.uses_exec
  intro db x as hx a ha
  split at hx
  · dsimp only at hx
    split_ifs at hx
    cases hx
    simp only [List.mem_cons, List.not_mem_nil, or_false] at ha
    rcases ha with rfl | rfl
    · exact hk _
    · exact h _ rfl
  · cases hx

/-- The count of the hosts is a plain read. -/
theorem countHosts_reads {uids : List String} {db : Database} {n : ℕ} {as : List Access}
    (h : (if uids.any hasNul then Except.error AccessError.database
      else Except.ok (db.hosts.count fun h => h.tenantID = tenant && uids.contains h.hostUID, [])) =
        .ok (n, as)) : as = [] := by
  split_ifs at h
  exact (Prod.mk.inj (Except.ok.inj h)).2.symm

theorem uses_countHosts {uids : List String} : (countHosts tenant uids).Uses q := by
  apply Tx.uses_exec
  intro db x as hx a ha
  rw [countHosts_reads hx] at ha
  cases ha

theorem uses_insertShareHosts {id : String} {uids : List String}
    (h : ∀ r : AccessShareHostRow, r.tenantID = tenant → q (.putShareHost r)) :
    (insertShareHosts id tenant uids).Uses q := by
  induction uids with
  | nil => exact Tx.uses_pure _
  | cons uid uids ih =>
    refine Tx.uses_bind (Tx.uses_exec_one fun db x as hx => ?_) fun _ => ih
    split at hx
    · dsimp only at hx
      split_ifs at hx
      cases hx
      exact .inr ⟨_, rfl, h _ rfl⟩
    · cases hx

theorem uses_markRevoked {id : String} {now : Time}
    (h : ∀ r : AccessShareRow, r.tenantID = tenant → q (.putShare r)) :
    (markRevoked id tenant now).Uses q := by
  apply Tx.uses_exec_one
  intro db x as hx
  split at hx
  · cases hx
    exact .inl rfl
  · split_ifs at hx with hten
    · cases hx
      exact .inr ⟨_, rfl, h _ hten⟩
    · cases hx
      exact .inl rfl

theorem uses_deleteSessions {id : String} {p : AccessShareSessionRow → Bool}
    (h : ∀ k, q (.eraseShareSession k)) : (deleteSessions id p).Uses q := by
  apply Tx.uses_exec
  intro db x as hx a ha
  cases hx
  obtain ⟨r, -, rfl⟩ := List.mem_map.mp ha
  exact h _

end Uses

/-- Accesses that leave shares and sessions alone. -/
def Access.Aside : Access → Prop
  | .putShare _ | .putShareSession _ | .eraseShareSession _ => False
  | _ => True

section View
variable {db : Database} {acc : List Access}

theorem view_aside (h : ∀ a ∈ acc, a.Aside) :
    (Tx.view db acc).accessShares = db.accessShares ∧
      (Tx.view db acc).accessShareSessions = db.accessShareSessions := by
  refine Tx.view_induction (q := Access.Aside) (I := fun x : Database =>
    x.accessShares = db.accessShares ∧ x.accessShareSessions = db.accessShareSessions) ?_ h
    ⟨rfl, rfl⟩
  intro x a ha hx
  cases a <;> first | exact hx | exact ha.elim

theorem mem_shares_view {x : AccessShareRow} (h : x ∈ (Tx.view db acc).accessShares.rows) :
    x ∈ db.accessShares.rows ∨ .putShare x ∈ acc := by
  induction acc generalizing db with
  | nil => exact .inl h
  | cons a acc ih =>
    rw [Tx.view_cons] at h
    rcases ih h with hx | hx
    · by_cases ha : a = .putShare x
      · exact .inr (by simp [ha])
      · refine .inl ?_
        cases a with
        | putShare r =>
          rcases Table.mem_put.mp hx with rfl | ⟨hx, -⟩
          · exact absurd rfl ha
          · exact hx
        | _ => exact hx
    · exact .inr (List.mem_cons_of_mem a hx)

theorem share_view_of_not_put {id : String} (h : ∀ r, .putShare r ∈ acc → r.id ≠ id) :
    (Tx.view db acc).accessShares.get? id = db.accessShares.get? id := by
  induction acc generalizing db with
  | nil => rfl
  | cons a acc ih =>
    rw [Tx.view_cons, ih fun r hr => h r (List.mem_cons_of_mem a hr)]
    cases a with
    | putShare r => exact Table.get?_put_of_ne _ (h r (by simp))
    | _ => rfl

theorem mem_sessions_view {r : AccessShareSessionRow}
    (h : r ∈ (Tx.view db acc).accessShareSessions.rows) :
    r ∈ db.accessShareSessions.rows ∨ .putShareSession r ∈ acc := by
  induction acc generalizing db with
  | nil => exact .inl h
  | cons a acc ih =>
    rw [Tx.view_cons] at h
    rcases ih h with hr | hr
    · by_cases ha : a = .putShareSession r
      · exact .inr (by simp [ha])
      · refine .inl ?_
        cases a with
        | putShareSession x =>
          rcases Table.mem_put.mp hr with rfl | ⟨hr, -⟩
          · exact absurd rfl ha
          · exact hr
        | eraseShareSession k => exact (Table.mem_erase.mp hr).1
        | _ => exact hr
    · exact .inr (List.mem_cons_of_mem a hr)

theorem view_eraseSessions (hashes : List String) :
    (Tx.view db (hashes.map .eraseShareSession)).accessShares = db.accessShares ∧
    ∀ r, r ∈ (Tx.view db (hashes.map .eraseShareSession)).accessShareSessions.rows ↔
      r ∈ db.accessShareSessions.rows ∧ r.tokenHash ∉ hashes := by
  induction hashes generalizing db with
  | nil => simp
  | cons k hashes ih =>
    obtain ⟨hshares, hsessions⟩ := @ih (db.apply (.eraseShareSession k))
    refine ⟨hshares, fun r => ?_⟩
    rw [List.map_cons, Tx.view_cons]
    refine (hsessions r).trans ?_
    simp only [Database.apply, Table.mem_erase, List.mem_cons, not_or, and_assoc]

end View

/-- The transaction holds the row of this share to its end. -/
def Holds (acc : List Access) (id : String) : Prop :=
  .lockShare id .exclusive ∈ acc ∨ ∃ r, .putShare r ∈ acc ∧ r.id = id

structure Shielded (acc : List Access) (db db' : Database) : Prop where
  tenant : ∀ t, .lockTenant t .exclusive ∈ acc → ∀ x ∈ db'.accessShares.rows, x.tenantID = t →
    x ∈ db.accessShares.rows
  share : ∀ id, Holds acc id → db'.accessShares.get? id = db.accessShares.get? id
  sessions : ∀ id, Holds acc id → ∀ r ∈ db'.accessShareSessions.rows, r.shareID = id →
    r ∈ db.accessShareSessions.rows
  token : ∀ h, .lockShareToken h ∈ acc → (∀ x ∈ db.accessShares.rows, x.tokenHash ≠ h) →
    ∀ x ∈ db'.accessShares.rows, x.tokenHash ≠ h

structure Covered (acc : List Access) (db : Database) : Prop where
  shares : ∀ r, .putShare r ∈ acc → .lockTenant r.tenantID .exclusive ∈ acc
  tokens : ∀ r, .putShare r ∈ acc → .lockShareToken r.tokenHash ∈ acc ∨
    ∃ x ∈ db.accessShares.rows, x.tokenHash = r.tokenHash
  sessions : ∀ r, .putShareSession r ∈ acc → Holds acc r.shareID

theorem Shielded.of_eq {acc : List Access} {db db' : Database}
    (hshares : db'.accessShares = db.accessShares)
    (hsessions : db'.accessShareSessions = db.accessShareSessions) : Shielded acc db db' where
  tenant := fun _ _ _ hx _ => hshares ▸ hx
  share := fun _ _ => by rw [hshares]
  sessions := fun _ _ _ hr _ => hsessions ▸ hr
  token := fun _ _ h _ hx => h _ (hshares ▸ hx)

theorem Shielded.trans {acc : List Access} {db₁ db₂ db₃ : Database} (h : Shielded acc db₁ db₂)
    (h' : Shielded acc db₂ db₃) : Shielded acc db₁ db₃ where
  tenant := fun t ht x hx hxt => h.tenant t ht x (h'.tenant t ht x hx hxt) hxt
  share := fun id hid => (h'.share id hid).trans (h.share id hid)
  sessions := fun id hid r hr hrid => h.sessions id hid r (h'.sessions id hid r hr hrid) hrid
  token := fun k hk hno => h'.token k hk (h.token k hk hno)

theorem not_both_exclusive {as bs : List Access} {a b : Access} (h : Compatible Database as bs)
    (ha : a ∈ as) (hb : b ∈ bs) (hkey : a.key = b.key) (hma : a.mode = .exclusive)
    (hmb : b.mode = .exclusive) : False := by
  have hno := h a ha b hb
  simp [conflict, Storage.key, Storage.mode, hkey, hma, hmb, Mode.conflicts] at hno

/-- Two compatible transactions do not hold one share. -/
theorem Holds.exclusive {as bs : List Access} {id : String} (h : Compatible Database as bs)
    (ha : Holds as id) (hb : Holds bs id) : False := by
  rcases ha with ha | ⟨x, ha, rfl⟩ <;> rcases hb with hb | ⟨y, hb, hid⟩
  · exact not_both_exclusive h ha hb rfl rfl rfl
  · exact not_both_exclusive h ha hb (by simp [Access.key, hid]) rfl rfl
  · exact not_both_exclusive h ha hb rfl rfl rfl
  · exact not_both_exclusive h ha hb (by simp [Access.key, hid]) rfl rfl

/-- The commit of a covered transaction leaves alone what a compatible one has locked. -/
theorem Covered.shielded {as bs : List Access} {db : Database} (hc : Covered as db)
    (h : Compatible Database as bs) : Shielded bs db (Tx.view db as) where
  tenant := by
    intro t ht x hx hxt
    rcases mem_shares_view hx with hx | hx
    · exact hx
    · exact (not_both_exclusive h (hc.shares x hx) ht (by simp [Access.key, hxt]) rfl rfl).elim
  share := by
    intro id hid
    exact share_view_of_not_put fun r hr hrid => Holds.exclusive h (.inr ⟨r, hr, hrid⟩) hid
  sessions := by
    intro id hid r hr hrid
    rcases mem_sessions_view hr with hr | hr
    · exact hr
    · exact (Holds.exclusive h (hc.sessions r hr) (hrid ▸ hid)).elim
  token := by
    intro k hk hno x hx
    rcases mem_shares_view hx with hx | hx
    · exact hno x hx
    · rintro rfl
      rcases hc.tokens x hx with hlock | ⟨y, hy, hyx⟩
      · exact not_both_exclusive h hlock hk rfl rfl rfl
      · exact hno y hy hyx

/-- Shares are never deleted, and keep their tenant, token and expiry. -/
def Persist (db db' : Database) : Prop :=
  ∀ x ∈ db.accessShares.rows, ∃ y ∈ db'.accessShares.rows, y.id = x.id ∧
    y.tenantID = x.tenantID ∧ y.tokenHash = x.tokenHash ∧ y.expiresAt = x.expiresAt

theorem Persist.of_eq {db db' : Database} (h : db'.accessShares = db.accessShares) :
    Persist db db' :=
  fun x hx => ⟨x, h ▸ hx, rfl, rfl, rfl, rfl⟩

theorem Persist.trans {db₁ db₂ db₃ : Database} (h : Persist db₁ db₂) (h' : Persist db₂ db₃) :
    Persist db₁ db₃ := by
  intro x hx
  obtain ⟨y, hy, hid, hten, htok, hexp⟩ := h x hx
  obtain ⟨z, hz, hid', hten', htok', hexp'⟩ := h' y hy
  exact ⟨z, hz, hid'.trans hid, hten'.trans hten, htok'.trans htok, hexp'.trans hexp⟩

structure Creates (r : AccessShareRow) (db db' : Database) : Prop where
  shares : db'.accessShares = db.accessShares.put r
  sessions : db'.accessShareSessions = db.accessShareSessions
  fresh : db.accessShares.get? r.id = none
  token : ∀ x ∈ db.accessShares.rows, x.tokenHash ≠ r.tokenHash
  expires : ∃ e, r.expiresAt = timestamptz e
  quota : db.accessShares.count (fun x => x.tenantID = r.tenantID) < 100

structure Revokes (id : String) (x : AccessShareRow) (t : Time) (db db' : Database) : Prop where
  row : db.accessShares.get? id = some x
  shares : db'.accessShares = db.accessShares.put { x with revokedAt := some t }
  sessions : ∀ r ∈ db'.accessShareSessions.rows, r ∈ db.accessShareSessions.rows ∧ r.shareID ≠ id

structure Exchanges (sha256 : String → String) (raw token : String) (now : Time)
    (x : AccessShareRow) (db db' : Database) : Prop where
  row : db.accessShares.get? x.id = some x
  live : x.revokedAt = none
  link : x.tokenHash = tokenHash sha256 raw
  unexpired : timestamptz now < x.expiresAt
  shares : db'.accessShares = db.accessShares
  sessions : ∀ r ∈ db'.accessShareSessions.rows, r ∈ db.accessShareSessions.rows ∨
    r.tokenHash = tokenHash sha256 token ∧ r.shareID = x.id
  quota : db'.accessShareSessions.count (fun r => r.shareID = x.id) ≤ 100

theorem Creates.persist {r : AccessShareRow} {db db' : Database} (h : Creates r db db') :
    Persist db db' := by
  intro x hx
  refine ⟨x, ?_, rfl, rfl, rfl, rfl⟩
  rw [h.shares]
  exact Table.mem_put.mpr (.inr ⟨hx, Table.get?_eq_none_iff.mp h.fresh x hx⟩)

theorem Revokes.persist {id : String} {x : AccessShareRow} {t : Time} {db db' : Database}
    (h : Revokes id x t db db') : Persist db db' := by
  intro y hy
  rw [h.shares]
  by_cases hyx : y.id = x.id
  · have heq : y = x := db.accessShares.eq_of_key_eq hy (Table.mem_of_get? h.row) hyx
    exact ⟨_, Table.mem_put.mpr (.inl rfl), hyx.symm, by rw [heq], by rw [heq], by rw [heq]⟩
  · exact ⟨y, Table.mem_put.mpr (.inr ⟨hy, hyx⟩), rfl, rfl, rfl, rfl⟩

-- What a running call relies on, and what holds when it commits. `J` is any fact about
-- worlds that the surrounding argument keeps true.

structure ShareRely (J : ShareWorld → Prop) (acc : List Access) (w w' : ShareWorld) : Prop where
  holds : J w'
  commits : w.commits <+: w'.commits
  persist : Persist w.db w'.db
  shielded : Shielded acc w.db w'.db

/-- The share row of a successful lookup, in a world between the start and the commit. -/
def Looked (J : ShareWorld → Prop) (p : Database → AccessShareRow → Bool) (began : ℕ)
    (x : AccessShareRow) (w : ShareWorld) : Prop :=
  ∃ v : ShareWorld, J v ∧ began ≤ v.commits.length ∧ v.commits <+: w.commits ∧
    Persist v.db w.db ∧ x ∈ v.db.accessShares.rows ∧ x.revokedAt = none ∧ p v.db x = true

def linkMatches (sha256 : String → String) (raw : String) (now : Time) (_ : Database)
    (x : AccessShareRow) : Bool :=
  x.tokenHash = tokenHash sha256 raw && timestamptz now < x.expiresAt

def sessionMatches (sha256 : String → String) (raw : String) (now : Time) (db : Database)
    (x : AccessShareRow) : Bool :=
  timestamptz now < x.expiresAt && db.accessShareSessions.rows.any fun r => r.shareID = x.id &&
    r.tokenHash = tokenHash sha256 raw && timestamptz now < r.expiresAt

def SharePost (sha256 : String → String) (J : ShareWorld → Prop) :
    ShareCall → ℕ → ShareReply → List Access → ShareWorld → Prop
  | .createShare .., _, reply, acc, w => Covered acc w.db ∧
    (∃ record, reply = .created record) ∧ ∃ r, Creates r w.db (Tx.view w.db acc)
  | .revokeShare _ id _, _, reply, acc, w => Covered acc w.db ∧ reply = .revoked ∧
    ∃ x t, Revokes id x t w.db (Tx.view w.db acc)
  | .exchangeShare d raw now, began, reply, acc, w => Covered acc w.db ∧
    ∃ x token session, d.token = some token ∧ reply = .session session ∧
      session.token = token ∧ session.principal.shareID = x.id ∧
      Exchanges sha256 raw token now x w.db (Tx.view w.db acc) ∧
      Looked J (linkMatches sha256 raw now) began x w
  | .authenticate raw _ now, began, reply, acc, w => acc = [] ∧
    ∃ p x, reply = .principal p ∧ p.shareID = x.id ∧
      Looked J (linkMatches sha256 raw now) began x w
  | .authenticateShareSession raw now, began, reply, acc, w => acc = [] ∧
    ∃ p x, reply = .principal p ∧ p.shareID = x.id ∧
      Looked J (sessionMatches sha256 raw now) began x w

section Conditions
variable {sha256 : String → String} {J : ShareWorld → Prop} {acc : List Access} {u v w : ShareWorld}

theorem Shielded.mono {as bs : List Access} {db db' : Database} (h : Shielded bs db db')
    (hsub : as ⊆ bs) : Shielded as db db' where
  tenant := fun t ht => h.tenant t (hsub ht)
  share := fun id hid => h.share id
    (hid.imp (fun h => hsub h) fun ⟨r, hr, hrid⟩ => ⟨r, hsub hr, hrid⟩)
  sessions := fun id hid =>
    h.sessions id (hid.imp (fun h => hsub h) fun ⟨r, hr, hrid⟩ => ⟨r, hsub hr, hrid⟩)
  token := fun k hk => h.token k (hsub hk)

theorem ShareRely.refl (h : J w) : ShareRely J acc w w :=
  ⟨h, List.prefix_refl _, .of_eq rfl, .of_eq rfl rfl⟩

theorem ShareRely.trans (h : ShareRely J acc u v) (h' : ShareRely J acc v w) :
    ShareRely J acc u w :=
  ⟨h'.holds, h.commits.trans h'.commits, h.persist.trans h'.persist, h.shielded.trans h'.shielded⟩

theorem ShareRely.mono {as : List Access} (h : ShareRely J (acc ++ as) v w) :
    ShareRely J acc v w :=
  ⟨h.holds, h.commits, h.persist, h.shielded.mono (List.subset_append_left _ _)⟩

theorem wp_validShare_bind {α : Type} {p : Database → AccessShareRow → Bool}
    {k : AccessShareRow × String → ShareTx α} {post : α → List Access → ShareWorld → Prop}
    (h : ∀ v, ShareRely J acc w v → ∀ x code, x ∈ (Tx.view v.db acc).accessShares.rows →
      x.revokedAt = none → p (Tx.view v.db acc) x = true →
      (k (x, code)).wp (ShareRely J) post acc v) :
    (validShare p >>= k).wp (ShareRely J) post acc w := by
  intro v hv found as hexec
  simp only [Except.ok.injEq, Prod.mk.injEq] at hexec
  obtain ⟨hfound, rfl⟩ := hexec
  rw [List.append_nil]
  cases found with
  | none => trivial
  | some out =>
    obtain ⟨x, code⟩ := out
    simp only [Option.map_eq_some_iff, Prod.mk.injEq] at hfound
    obtain ⟨y, hy, rfl, -⟩ := hfound
    obtain ⟨hmem, hp⟩ := Table.mem_of_first hy
    simp only [Bool.and_eq_true, Option.isNone_iff_eq_none] at hp
    exact h v hv y code hmem hp.1.2 hp.2

theorem wp_sharePrincipal {row : AccessShareRow} {code : String}
    {post : Principal → List Access → ShareWorld → Prop}
    (h : ∀ v, ShareRely J acc w v → ∀ q : Principal, q.shareID = row.id → post q acc v) :
    (sharePrincipal row code).wp (ShareRely J) post acc w := by
  refine Tx.wp_query fun v hv => Tx.wp_pure fun v' hv' => ?_
  exact h v' (hv.trans hv') _ rfl

theorem looked_of_rely {p : Database → AccessShareRow → Bool} {x : AccessShareRow}
    (hv : ShareRely J acc u v) (hw : ShareRely J acc v w) (hx : x ∈ v.db.accessShares.rows)
    (hlive : x.revokedAt = none) (hp : p v.db x = true) :
    Looked J p u.commits.length x w :=
  ⟨v, hv.holds, hv.commits.length_le, hw.commits, hw.persist, hx, hlive, hp⟩

theorem authenticate_wp (raw : String) (kind : Kind) (now : Time) :
    (shareProgram sha256 (.authenticate raw kind now)).wp (ShareRely J)
      (SharePost sha256 J (.authenticate raw kind now) w.commits.length) [] w := by
  refine Tx.wp_bind_pure ?_
  unfold authenticate
  split_ifs
  · trivial
  · refine wp_validShare_bind fun v hv x code hx hlive hp => ?_
    refine wp_sharePrincipal fun u hu q hq => ⟨rfl, q, x, rfl, hq, ?_⟩
    exact looked_of_rely hv hu hx hlive hp

theorem authenticateShareSession_wp (raw : String) (now : Time) :
    (shareProgram sha256 (.authenticateShareSession raw now)).wp (ShareRely J)
      (SharePost sha256 J (.authenticateShareSession raw now) w.commits.length) [] w := by
  refine Tx.wp_bind_pure ?_
  unfold authenticateShareSession
  split_ifs
  · trivial
  · refine wp_validShare_bind fun v hv x code hx hlive hp => ?_
    refine wp_sharePrincipal fun u hu q hq => ⟨rfl, q, x, rfl, hq, ?_⟩
    exact looked_of_rely hv hu hx hlive hp

/-- An administrator's transaction starts with the lock on the tenant. -/
theorem wp_tenantForAdmin_bind {α : Type} {p : Principal} {k : Serial → ShareTx α}
    {post : α → List Access → ShareWorld → Prop}
    (h : ∀ v, ShareRely J [] w v → ∀ user tenant, (k tenant).wp (ShareRely J) post
      [.lockUser user .share, .lockTenant tenant .exclusive] v) :
    (tenantForAdmin p >>= k).wp (ShareRely J) post [] w := by
  unfold tenantForAdmin
  split_ifs
  · trivial
  · refine Tx.wp_exec fun v hv tenant as hexec => ?_
    split at hexec
    · cases hexec
    · split at hexec
      · cases hexec
      · split_ifs at hexec
        simp only [Except.ok.injEq, Prod.mk.injEq] at hexec
        obtain ⟨rfl, rfl⟩ := hexec
        exact h v hv _ _

theorem aside_insertShareHosts (id : String) (tenant : Serial) (uids : List String) :
    (insertShareHosts id tenant uids).Uses Access.Aside :=
  uses_insertShareHosts fun _ _ => trivial

theorem aside_audit (p : Principal) (tenant : Serial) (action id : String) (now : Time) :
    (audit p tenant action id now).Uses Access.Aside :=
  uses_audit trivial

/-- What holds from the insertion of a share to the commit. -/
structure Insertable (r : AccessShareRow) (db : Database) : Prop where
  fresh : db.accessShares.get? r.id = none
  token : ∀ x ∈ db.accessShares.rows, x.tokenHash ≠ r.tokenHash
  quota : db.accessShares.count (fun x => x.tenantID = r.tenantID) < 100

theorem Insertable.shielded {r : AccessShareRow} {db db' : Database} {acc : List Access}
    (h : Insertable r db) (hs : Shielded acc db db')
    (ht : .lockTenant r.tenantID .exclusive ∈ acc) (hk : .lockShareToken r.tokenHash ∈ acc)
    (hr : .putShare r ∈ acc) : Insertable r db' where
  fresh := (hs.share r.id (.inr ⟨r, hr, rfl⟩)).trans h.fresh
  token := hs.token _ hk h.token
  quota := by
    refine lt_of_le_of_lt (Table.count_le_of_subset fun x hx hp => ?_) h.quota
    exact hs.tenant _ ht x hx (by simpa using hp)

theorem createShareTx_wp (d : ShareDraws) (p : Principal) (req : CreateShareRequest)
    (hash : String) (now : Time) :
    (createShareTx d p req hash now).wp (ShareRely J) (fun _ acc w => Covered acc w.db ∧
      ∃ r, Creates r w.db (Tx.view w.db acc)) [] w := by
  refine wp_tenantForAdmin_bind fun v₀ _ user tenant => ?_
  refine Tx.wp_query fun v₁ _ => ?_
  split_ifs with hfull
  · trivial
  refine Tx.wp_exec fun v₂ h₂ _ as hcount => ?_
  obtain rfl := countHosts_reads hcount
  rw [List.append_nil]
  split_ifs with hhosts
  · trivial
  refine Tx.wp_exec fun v₃ h₃ _ as hexec => ?_
  split at hexec
  case h_2 => cases hexec
  case h_1 id title hash' fields u hid htitle hhash hfields hu =>
    dsimp only at hexec
    split_ifs at hexec with hrefused
    simp only [Except.ok.injEq, Prod.mk.injEq, true_and] at hexec
    subst hexec
    set r : AccessShareRow := ⟨id, tenant, title, hash', fields,
      timestamptz (now + req.ttlSeconds * second), u.id, timestamptz now, none⟩ with hr
    set acc : List Access := [.lockUser user .share, .lockTenant tenant .exclusive] ++
      [.lockShareToken r.tokenHash, .putShare r] with hacc
    -- the count was taken under the tenant lock, so it still bounds the committed shares
    have hquota : v₃.db.accessShares.count (fun x => x.tenantID = tenant) < 100 := by
      refine lt_of_le_of_lt (Table.count_le_of_subset fun x hx hp => ?_) (not_le.mp hfull)
      exact (h₂.trans h₃).shielded.tenant tenant (by simp) x hx (by simpa using hp)
    have hins : Insertable r v₃.db := by
      simp only [shareRefused, Bool.not_eq_true, List.any_eq_false, Bool.or_eq_true,
        decide_eq_true_eq, not_or] at hrefused
      obtain ⟨⟨hrows, -⟩, -⟩ := hrefused
      refine ⟨?_, fun x hx => (hrows x hx).2, hquota⟩
      exact Table.get?_eq_none_iff.mpr fun x hx => (hrows x hx).1
    have hrest : (insertShareHosts ("share-" ++ d.shareSuffix) tenant req.hostUIDs >>= fun _ =>
        audit p tenant "share.create" ("share-" ++ d.shareSuffix) now >>= fun _ =>
        (pure ⟨"share-" ++ d.shareSuffix, p.tenantCode, req.title, req.hostUIDs, req.fields,
          now + req.ttlSeconds * second, now, none⟩ : ShareTx ShareRecord)).Uses Access.Aside :=
      Tx.uses_bind (aside_insertShareHosts _ _ _) fun _ =>
        Tx.uses_bind (aside_audit _ _ _ _ _) fun _ => Tx.uses_pure _
    refine Tx.wp_of_uses hrest (P := fun u => Insertable r u.db) ?_ hins ?_
    · intro as _ x x' hx hP
      exact hP.shielded hx.mono.shielded (by simp [hacc, hr]) (by simp [hacc]) (by simp [hacc])
    · intro _ as x has hP
      obtain ⟨hshares, hsessions⟩ := @view_aside (Tx.view x.db acc) as has
      have hput : ∀ y, .putShare y ∈ acc ++ as → y = r := by
        intro y hy
        rcases List.mem_append.mp hy with hy | hy
        · simpa [hacc] using hy
        · exact (has _ hy).elim
      refine ⟨⟨?_, ?_, ?_⟩, r, ?_, ?_, hP.fresh, hP.token, ⟨_, rfl⟩, hP.quota⟩
      · intro y hy
        rw [hput y hy]
        simp [hacc, hr]
      · intro y hy
        rw [hput y hy]
        exact .inl (by simp [hacc])
      · intro y hy
        rcases List.mem_append.mp hy with hy | hy
        · simp [hacc] at hy
        · exact (has _ hy).elim
      · rw [Tx.view_append, hshares]
        rfl
      · rw [Tx.view_append, hsessions]
        rfl

theorem createShare_wp (d : ShareDraws) (p : Principal) (req : CreateShareRequest) (hash : String)
    (now : Time) (n : ℕ) :
    (shareProgram sha256 (.createShare d p req hash now)).wp (ShareRely J)
      (SharePost sha256 J (.createShare d p req hash now) n) [] w := by
  refine Tx.wp_bind_pure ?_
  unfold createShare
  refine Tx.wp_ite (fun _ => Tx.wp_throw) fun _ => ?_
  cases validateShareRequest req with
  | error e => exact Tx.wp_throw
  | ok _ =>
    refine Tx.wp_ite (fun _ => Tx.wp_throw) fun _ => ?_
    refine Tx.wp_mono (fun record acc w h => ?_) (createShareTx_wp d p req hash now)
    exact ⟨h.1, ⟨record, rfl⟩, h.2⟩

theorem deleteSessions_eq_ok {id : String} {p : AccessShareSessionRow → Bool} {db : Database}
    {as : List Access} {x : Unit}
    (h : (Except.ok ((), (db.accessShareSessions.select fun r => r.shareID = id && p r).map
      fun r => Access.eraseShareSession r.tokenHash) : Except AccessError (Unit × List Access)) =
        .ok (x, as)) :
    as = ((db.accessShareSessions.select fun r => r.shareID = id && p r).map
      AccessShareSessionRow.tokenHash).map .eraseShareSession := by
  simp only [Except.ok.injEq, Prod.mk.injEq] at h
  rw [← h.2, List.map_map]
  rfl

/-- The accesses of a revocation, up to the deletion of the sessions. -/
def revokeAccesses (user : Serial) (y : AccessShareRow) (t : Time) : List Access :=
  [.lockUser user .share, .lockTenant y.tenantID .exclusive,
    .putShare { y with revokedAt := some t }]

theorem holds_revokeAccesses (user : Serial) (y : AccessShareRow) (t : Time) :
    Holds (revokeAccesses user y t) y.id :=
  .inr ⟨{ y with revokedAt := some t }, by simp [revokeAccesses], rfl⟩

/-- Their effect, when every session of the share is among the deleted ones. -/
theorem revokes_of_accesses {user : Serial} {y : AccessShareRow} {t : Time} {hashes : List String}
    {as : List Access} {db : Database} (has : ∀ a ∈ as, a.Aside)
    (hrow : db.accessShares.get? y.id = some y)
    (hdel : ∀ r ∈ db.accessShareSessions.rows, r.shareID = y.id → r.tokenHash ∈ hashes) :
    Covered (revokeAccesses user y t ++ hashes.map .eraseShareSession ++ as) db ∧
      Revokes y.id y t db
        (Tx.view db (revokeAccesses user y t ++ hashes.map .eraseShareSession ++ as)) := by
  have hput : ∀ r, .putShare r ∈ revokeAccesses user y t ++ hashes.map .eraseShareSession ++ as →
      r = { y with revokedAt := some t } := by
    intro r hr
    rcases List.mem_append.mp hr with hr | hr
    · simpa [revokeAccesses] using hr
    · exact (has _ hr).elim
  obtain ⟨hshares, hsessions⟩ := @view_aside
    (Tx.view db (revokeAccesses user y t ++ hashes.map .eraseShareSession)) as has
  obtain ⟨hshares', hsessions'⟩ :=
    @view_eraseSessions (Tx.view db (revokeAccesses user y t)) hashes
  refine ⟨⟨?_, ?_, ?_⟩, hrow, ?_, ?_⟩
  · intro r hr
    rw [hput r hr]
    simp [revokeAccesses]
  · intro r hr
    rw [hput r hr]
    exact .inr ⟨y, Table.mem_of_get? hrow, rfl⟩
  · intro r hr
    rcases List.mem_append.mp hr with hr | hr
    · simp [revokeAccesses] at hr
    · exact (has _ hr).elim
  · rw [Tx.view_append, hshares, Tx.view_append, hshares']
    rfl
  · intro r hr
    rw [Tx.view_append, hsessions, Tx.view_append, hsessions'] at hr
    exact ⟨hr.1, fun hid => hr.2 (hdel r hr.1 hid)⟩

theorem revokeShare_wp (p : Principal) (id : String) (now : Time) (n : ℕ) :
    (shareProgram sha256 (.revokeShare p id now)).wp (ShareRely J)
      (SharePost sha256 J (.revokeShare p id now) n) [] w := by
  refine Tx.wp_bind_pure (f := fun _ => ShareReply.revoked) ?_
  refine wp_tenantForAdmin_bind fun v₀ _ user tenant => ?_
  refine Tx.wp_query fun v₁ _ => ?_
  split_ifs with hfound
  · trivial
  refine Tx.wp_exec fun v₂ h₂ _ as hexec => ?_
  -- the share that was found is still there
  obtain ⟨y, hy, rfl, rfl⟩ : ∃ y, v₂.db.accessShares.get? id = some y ∧ y.id = id ∧
      y.tenantID = tenant := by
    simp only [Bool.not_eq_true', Bool.not_eq_false, List.any_eq_true, Bool.and_eq_true,
      decide_eq_true_eq] at hfound
    obtain ⟨x, hx, rfl, hxten⟩ := hfound
    obtain ⟨y, hy, hyid, hyten, -, -⟩ := h₂.persist x hx
    exact ⟨y, hyid ▸ Table.get?_of_mem hy, hyid, hyten.trans hxten⟩
  have hview : (Tx.view v₂.db [.lockUser user .share,
      .lockTenant y.tenantID .exclusive]).accessShares.get? y.id = some y := hy
  simp only [hview, if_true, Except.ok.injEq, Prod.mk.injEq, true_and] at hexec
  subst hexec
  change Tx.wp _ _ _ (revokeAccesses user y (y.revokedAt.getD (timestamptz now))) v₂
  refine Tx.wp_exec fun v₃ h₃ _ as hexec => ?_
  obtain rfl := deleteSessions_eq_ok hexec
  refine Tx.wp_of_uses (aside_audit _ _ _ _ _) (P := fun u => ShareRely J
    (revokeAccesses user y (y.revokedAt.getD (timestamptz now))) v₃ u) ?_ (.refl h₃.holds) ?_
  · exact fun as _ x x' hx hP => hP.trans hx.mono.mono
  · intro _ as u has hu
    have hholds := holds_revokeAccesses user y (y.revokedAt.getD (timestamptz now))
    have hrow : u.db.accessShares.get? y.id = some y :=
      ((h₃.trans hu).shielded.share y.id hholds).trans hy
    -- a session of this share was there when all of them were deleted
    have hdel : ∀ r ∈ u.db.accessShareSessions.rows, r.shareID = y.id → r.tokenHash ∈
        (v₃.db.accessShareSessions.select fun r => r.shareID = y.id && true).map
          AccessShareSessionRow.tokenHash := by
      intro r hr hid
      have hmem := hu.shielded.sessions y.id hholds r hr hid
      exact List.mem_map.mpr ⟨r, Table.mem_select.mpr ⟨hmem, by simp [hid]⟩, rfl⟩
    obtain ⟨hcovered, hrevokes⟩ := @revokes_of_accesses user y
      (y.revokedAt.getD (timestamptz now)) _ as u.db has hrow hdel
    exact ⟨hcovered, rfl, y, _, hrevokes⟩

/-- The effect of an exchange that deletes some sessions and adds one. -/
theorem exchanges_of_accesses {x : AccessShareRow} {raw token : String} {now e c : Time}
    {hashes : List String} {db : Database} (hrow : db.accessShares.get? x.id = some x)
    (hlive : x.revokedAt = none) (hlink : x.tokenHash = tokenHash sha256 raw)
    (hexp : timestamptz now < x.expiresAt)
    (hquota : (Tx.view db ([.lockShare x.id .exclusive] ++
      hashes.map .eraseShareSession)).accessShareSessions.count (fun r => r.shareID = x.id) < 100) :
    Covered ([.lockShare x.id .exclusive] ++ hashes.map .eraseShareSession ++
        [.putShareSession ⟨tokenHash sha256 token, x.id, e, c⟩]) db ∧
      Exchanges sha256 raw token now x db
        (Tx.view db ([.lockShare x.id .exclusive] ++ hashes.map .eraseShareSession ++
          [.putShareSession ⟨tokenHash sha256 token, x.id, e, c⟩])) := by
  obtain ⟨hshares, hsessions⟩ := @view_eraseSessions db hashes
  refine ⟨⟨?_, ?_, ?_⟩, hrow, hlive, hlink, hexp, ?_, ?_, ?_⟩
  · intro r hr
    simp at hr
  · intro r hr
    simp at hr
  · intro r hr
    have heq : r = ⟨tokenHash sha256 token, x.id, e, c⟩ := by simpa using hr
    exact .inl (by simp [heq])
  · rw [Tx.view_append]
    exact hshares
  · intro r hr
    rw [Tx.view_append] at hr
    rcases Table.mem_put.mp hr with rfl | ⟨hr, -⟩
    · exact .inr ⟨rfl, rfl⟩
    · exact .inl ((hsessions r).mp hr).1
  · rw [Tx.view_append]
    refine le_trans (Table.count_put_le _ _ _) ?_
    rw [if_pos (by simp)]
    exact hquota

theorem exchangeShareTx_wp (d : ShareDraws) (raw : String) (now : Time) :
    (exchangeShareTx sha256 d raw now).wp (ShareRely J) (fun session =>
      SharePost sha256 J (.exchangeShare d raw now) w.commits.length (.session session)) [] w := by
  refine Tx.wp_exec fun v₁ h₁ id as hexec => ?_
  split at hexec
  · cases hexec
  rename_i x₀ hx₀
  simp only [Except.ok.injEq, Prod.mk.injEq] at hexec
  obtain ⟨rfl, rfl⟩ := hexec
  have hmem₀ : x₀ ∈ v₁.db.accessShares.rows := List.mem_of_find?_eq_some hx₀
  have hlink : x₀.tokenHash = tokenHash sha256 raw := by simpa using List.find?_some hx₀
  have hholds : Holds [.lockShare x₀.id .exclusive] x₀.id := .inl (by simp)
  split_ifs
  · trivial
  refine wp_validShare_bind fun v₂ h₂ x code hx hlive hp => ?_
  rw [List.nil_append] at h₂ hx ⊢
  simp only [Bool.and_eq_true, decide_eq_true_eq] at hp
  -- the row that is checked is the one that was locked
  have hrow₂ : v₂.db.accessShares.get? x₀.id = some x₀ :=
    (h₂.shielded.share x₀.id hholds).trans (Table.get?_of_mem hmem₀)
  have hxx : x = x₀ := v₂.db.accessShares.eq_of_key_eq hx (Table.mem_of_get? hrow₂) hp.1
  subst hxx
  refine Tx.wp_exec fun v₃ h₃ _ as hexec => ?_
  obtain rfl := deleteSessions_eq_ok hexec
  set hashes := ((Tx.view v₃.db [.lockShare x.id .exclusive]).accessShareSessions.select
    fun r => r.shareID = x.id && decide (r.expiresAt ≤ timestamptz now)).map
      AccessShareSessionRow.tokenHash with hhashes
  refine Tx.wp_query fun v₄ h₄ => ?_
  split_ifs with hfull
  · trivial
  cases htoken : d.token with
  | none => trivial
  | some token =>
    refine Tx.wp_exec fun v₅ h₅ _ as hexec => ?_
    split_ifs at hexec
    simp only [Except.ok.injEq, Prod.mk.injEq, true_and] at hexec
    subst hexec
    refine Tx.wp_bind_pure (wp_sharePrincipal fun u hu q hq => ?_)
    have hlater : ShareRely J [.lockShare x.id .exclusive] v₄ u := h₅.mono.trans hu.mono.mono
    have hall : ShareRely J [.lockShare x.id .exclusive] v₂ u :=
      (h₃.trans h₄.mono).trans hlater
    -- nobody has added sessions to the locked share since they were counted
    have hquota : (Tx.view u.db ([.lockShare x.id .exclusive] ++
        hashes.map .eraseShareSession)).accessShareSessions.count (fun r => r.shareID = x.id) <
        100 := by
      refine lt_of_le_of_lt (Table.count_le_of_subset fun r hr hrid => ?_) (not_le.mp hfull)
      obtain ⟨hru, hne⟩ := ((@view_eraseSessions u.db hashes).2 r).mp hr
      refine ((@view_eraseSessions v₄.db hashes).2 r).mpr ⟨?_, hne⟩
      exact hlater.shielded.sessions x.id hholds r hru (by simpa using hrid)
    have hrow : u.db.accessShares.get? x.id = some x :=
      (hall.shielded.share x.id hholds).trans hrow₂
    obtain ⟨hcovered, hexchanges⟩ := @exchanges_of_accesses sha256 x raw token now x.expiresAt
      (timestamptz now) hashes u.db hrow hlive hlink hp.2 hquota
    refine ⟨hcovered, x, token, _, htoken, rfl, rfl, hq, hexchanges, v₂, h₂.holds, ?_, hall.commits,
      hall.persist, hx, hlive, ?_⟩
    · exact (h₁.commits.trans h₂.commits).length_le
    · simp [linkMatches, hlink, hp.2]

theorem exchangeShare_wp (d : ShareDraws) (raw : String) (now : Time) :
    (shareProgram sha256 (.exchangeShare d raw now)).wp (ShareRely J)
      (SharePost sha256 J (.exchangeShare d raw now) w.commits.length) [] w := by
  refine Tx.wp_bind_pure ?_
  unfold exchangeShare
  split_ifs
  · trivial
  · exact exchangeShareTx_wp d raw now

theorem shareProgram_wp (c : ShareCall) :
    (shareProgram sha256 c).wp (ShareRely J) (SharePost sha256 J c w.commits.length) [] w := by
  cases c with
  | createShare d p req hash now => exact createShare_wp d p req hash now _
  | revokeShare p id now => exact revokeShare_wp p id now _
  | authenticate raw kind now => exact authenticate_wp raw kind now
  | exchangeShare d raw now => exact exchangeShare_wp d raw now
  | authenticateShareSession raw now => exact authenticateShareSession_wp raw now

/-- The accesses of every call cover its writes, and no call takes a share away. -/
theorem SharePost.covered {c : ShareCall} {n : ℕ} {reply : ShareReply}
    (h : SharePost sha256 J c n reply acc w) :
    Covered acc w.db ∧ Persist w.db (Tx.view w.db acc) := by
  have hnil : Covered [] w.db := ⟨by simp, by simp, by simp⟩
  cases c with
  | createShare =>
    obtain ⟨hc, -, r, hr⟩ := h
    exact ⟨hc, hr.persist⟩
  | revokeShare =>
    obtain ⟨hc, -, x, t, hx⟩ := h
    exact ⟨hc, hx.persist⟩
  | exchangeShare =>
    obtain ⟨hc, x, token, session, -, -, -, -, hx, -⟩ := h
    exact ⟨hc, .of_eq hx.shares⟩
  | authenticate =>
    obtain ⟨rfl, -⟩ := h
    exact ⟨hnil, .of_eq rfl⟩
  | authenticateShareSession =>
    obtain ⟨rfl, -⟩ := h
    exact ⟨hnil, .of_eq rfl⟩

end Conditions

/-- Users, tenants and hosts may change in any way; shares and sessions only by calls. -/
def LeavesShares (s : ShareSys) : Event Database ShareCall → Prop
  | .env db => db.accessShares = s.world.db.accessShares ∧
    db.accessShareSessions = s.world.db.accessShareSessions
  | _ => True

instance (s : ShareSys) : (e : Event Database ShareCall) → Decidable (LeavesShares s e)
  | .env _ => inferInstanceAs (Decidable (_ ∧ _))
  | .start _ | .advance _ | .cancel _ => instDecidableTrue

/-- An invariant of the share store has to be kept by commits and by outside changes only. -/
theorem share_discipline {sha256 : String → String} {J : ShareWorld → Prop}
    {ok : ShareSys → Event Database ShareCall → Prop} (hok : ∀ s e, ok s e → LeavesShares s e)
    (hcommit : ∀ (s : ShareSys) i c r, ok s (.advance i) → s.Live i c → c.prog = .done r →
      J s.world → SharePost sha256 J c.call c.began r c.acc s.world → J (s.afterCommit c r))
    (henv : ∀ (w : ShareWorld) db, J w → db.accessShares = w.db.accessShares →
      db.accessShareSessions = w.db.accessShareSessions → J { w with db := db }) :
    Sys.Discipline (shareProgram sha256) ok J (fun _ => ShareRely J) (SharePost sha256 J) where
  rely_refl := fun _ _ _ h => .refl h
  rely_trans := fun _ _ _ _ _ h h' => h.trans h'
  start := fun _ c _ _ => shareProgram_wp c
  commit := by
    intro s i c r hs hc hp hJ hpost
    have hJ' := hcommit s i c r hs hc hp hJ hpost
    obtain ⟨hcovered, hpersist⟩ := hpost.covered
    exact ⟨hJ', fun j d _ _ hcompat =>
      ⟨hJ', List.prefix_append _ _, hpersist, hcovered.shielded hcompat⟩⟩
  env := by
    intro s db hs hJ
    obtain ⟨hshares, hsessions⟩ := hok s (.env db) hs
    have hJ' := henv s.world db hJ hshares hsessions
    exact ⟨hJ', fun j d _ =>
      ⟨hJ', List.prefix_refl _, .of_eq hshares, .of_eq hshares hsessions⟩⟩

end Gaoming
