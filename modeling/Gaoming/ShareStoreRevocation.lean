import Gaoming.ShareStoreQuota

/-!
# Revocation and expiry of shares

The history of commits says which shares have been revoked and which sessions
have been issued. The invariant relates it to the tables; what an answered call
owes to the world in which it looked up its share is kept with its commit.
-/

namespace Gaoming
open Relational Transaction

abbrev ShareCommit := Commit ShareCall ShareReply

def RevokedIn (commits : List ShareCommit) (id : String) : Prop :=
  ∃ k ∈ commits, ∃ p now, k.call = .revokeShare p id now

/-- The share is there, revoked, and has no session. -/
def Closed (db : Database) (id : String) : Prop :=
  (∃ x, db.accessShares.get? id = some x ∧ x.revokedAt ≠ none) ∧
    ∀ r ∈ db.accessShareSessions.rows, r.shareID ≠ id

section History
variable (sha256 : String → String) (db₀ : Database)

/-- A session with this hash was there at the start, or was exchanged, for this share. -/
def Issued (commits : List ShareCommit) (hash id : String) : Prop :=
  (∃ r ∈ db₀.accessShareSessions.rows, r.tokenHash = hash ∧ r.shareID = id) ∨
    ∃ k ∈ commits, ∃ session, k.result = .session session ∧
      tokenHash sha256 session.token = hash ∧ session.principal.shareID = id

/-- The share that a call was answered for had not been revoked when the call began. -/
structure Answered (w : ShareWorld) (k : ShareCommit) (id : String) (q : AccessShareRow → Prop) :
    Prop where
  began : k.began ≤ w.commits.length
  unrevoked : ¬ RevokedIn (w.commits.take k.began) id
  share : ∃ x ∈ w.db.accessShares.rows, x.id = id ∧ q x

def Accounted (w : ShareWorld) (k : ShareCommit) : Prop :=
  match k.call with
  | .createShare .. => ∃ record, k.result = .created record
  | .revokeShare .. => k.result = .revoked
  | .authenticate raw _ now => ∃ p, k.result = .principal p ∧ Answered w k p.shareID fun x =>
    x.tokenHash = tokenHash sha256 raw ∧ timestamptz now < x.expiresAt
  | .exchangeShare _ raw now => ∃ session, k.result = .session session ∧
    Answered w k session.principal.shareID fun x =>
      x.tokenHash = tokenHash sha256 raw ∧ timestamptz now < x.expiresAt
  | .authenticateShareSession raw now => ∃ p, k.result = .principal p ∧
    Answered w k p.shareID (fun x => timestamptz now < x.expiresAt) ∧
    Issued sha256 db₀ w.commits (tokenHash sha256 raw) p.shareID

structure ShareInv (w : ShareWorld) : Prop where
  revoked : ∀ id, RevokedIn w.commits id → Closed w.db id
  sessions : ∀ r ∈ w.db.accessShareSessions.rows,
    Issued sha256 db₀ w.commits r.tokenHash r.shareID
  links : ∀ x ∈ w.db.accessShares.rows, ∀ y ∈ w.db.accessShares.rows,
    x.tokenHash = y.tokenHash → x = y
  columns : ∀ x ∈ w.db.accessShares.rows, ∃ e, x.expiresAt = timestamptz e
  unique : ∀ k ∈ w.commits, ∀ k' ∈ w.commits, ∀ session session',
    k.result = .session session → k'.result = .session session' →
    tokenHash sha256 session.token = tokenHash sha256 session'.token → session = session'
  fresh : ∀ k ∈ w.commits, ∀ session, k.result = .session session →
    ∀ r ∈ db₀.accessShareSessions.rows, r.tokenHash ≠ tokenHash sha256 session.token
  history : ∀ k ∈ w.commits, Accounted sha256 db₀ w k

/-- What revocation and expiry promise of every state. -/
structure RevocationFinal (w : ShareWorld) : Prop where
  noSession : ∀ id, RevokedIn w.commits id → ∀ r ∈ w.db.accessShareSessions.rows, r.shareID ≠ id
  noLink : ∀ k ∈ w.commits, ∀ raw,
    (∃ kind now, k.call = .authenticate raw kind now) ∨
    (∃ d now, k.call = .exchangeShare d raw now) →
    ∀ x ∈ w.db.accessShares.rows, x.tokenHash = tokenHash sha256 raw →
    ¬ RevokedIn (w.commits.take k.began) x.id
  noToken : ∀ k ∈ w.commits, ∀ raw now, k.call = .authenticateShareSession raw now →
    ∀ id, Issued sha256 db₀ w.commits (tokenHash sha256 raw) id →
    ¬ RevokedIn (w.commits.take k.began) id
  ownShare : ∀ k ∈ w.commits, ∀ raw now, k.call = .authenticateShareSession raw now →
    ∀ id, Issued sha256 db₀ w.commits (tokenHash sha256 raw) id →
    ∃ p, k.result = .principal p ∧ p.shareID = id
  unexpired : ∀ k ∈ w.commits, ∀ raw now p, k.call = .authenticateShareSession raw now →
    k.result = .principal p → ∀ x ∈ w.db.accessShares.rows, x.id = p.shareID → now < x.expiresAt

end History

def ShareReply.session? : ShareReply → Option ShareSession
  | .session s => some s
  | _ => none

def ShareCall.drawn : ShareCall → Option String
  | .exchangeShare d _ _ => d.token
  | _ => none

/-- The hash of the token was no session's at the start and no issued one's since. -/
def NewToken (sha256 : String → String) (db₀ : Database) (commits : List ShareCommit)
    (token : String) : Prop :=
  (∀ r ∈ db₀.accessShareSessions.rows, r.tokenHash ≠ tokenHash sha256 token) ∧
    ∀ k ∈ commits, ∀ session ∈ k.result.session?.toList,
      tokenHash sha256 session.token ≠ tokenHash sha256 token

def FreshTokens (sha256 : String → String) (db₀ : Database) (s : ShareSys) :
    Event Database ShareCall → Prop
  | .advance i => ∀ c ∈ (s.committing i).toList, ∀ token ∈ c.call.drawn.toList,
    NewToken sha256 db₀ s.world.commits token
  | e => LeavesShares s e

instance (sha256 : String → String) (db₀ : Database) (s : ShareSys) :
    (e : Event Database ShareCall) → Decidable (FreshTokens sha256 db₀ s e)
  | .advance i => inferInstanceAs (Decidable (∀ c ∈ (s.committing i).toList,
      ∀ token ∈ c.call.drawn.toList,
        _ ∧ ∀ k ∈ s.world.commits, ∀ session ∈ k.result.session?.toList, _ ≠ _))
  | .start c => inferInstanceAs (Decidable (LeavesShares s (.start c)))
  | .cancel i => inferInstanceAs (Decidable (LeavesShares s (.cancel i)))
  | .env db => inferInstanceAs (Decidable (LeavesShares s (.env db)))

theorem lt_of_timestamptz_lt {t e : ℤ} (h : timestamptz t < timestamptz e) : t < timestamptz e := by
  have h' : t - t % 1000 < e - e % 1000 := h
  change t < e - e % 1000
  omega

section Facts
variable {sha256 : String → String} {db₀ : Database} {w w' : ShareWorld}

theorem RevokedIn.mono {l l' : List ShareCommit} {id : String} (h : RevokedIn l id) (hl : l ⊆ l') :
    RevokedIn l' id := by
  obtain ⟨k, hk, hcall⟩ := h
  exact ⟨k, hl hk, hcall⟩

theorem Issued.mono {l l' : List ShareCommit} {hash id : String} (h : Issued sha256 db₀ l hash id)
    (hl : l ⊆ l') : Issued sha256 db₀ l' hash id := by
  rcases h with h | ⟨k, hk, hsession⟩
  · exact .inl h
  · exact .inr ⟨k, hl hk, hsession⟩

theorem ShareInv.issued_unique (h : ShareInv sha256 db₀ w) {hash id id' : String}
    (hi : Issued sha256 db₀ w.commits hash id) (hi' : Issued sha256 db₀ w.commits hash id') :
    id = id' := by
  rcases hi with ⟨r, hr, rfl, rfl⟩ | ⟨k, hk, session, hres, rfl, rfl⟩
  · rcases hi' with ⟨r', hr', hhash, rfl⟩ | ⟨k', hk', session', hres', hhash, rfl⟩
    · rw [db₀.accessShareSessions.eq_of_key_eq hr hr' hhash.symm]
    · exact absurd hhash.symm (h.fresh k' hk' session' hres' r hr)
  · rcases hi' with ⟨r', hr', hhash, rfl⟩ | ⟨k', hk', session', hres', hhash, rfl⟩
    · exact absurd hhash (h.fresh k hk session hres r' hr')
    · rw [h.unique k hk k' hk' session session' hres hres' hhash.symm]

theorem Answered.mono {k : ShareCommit} {id : String} {q : AccessShareRow → Prop}
    (h : Answered w k id q) (hc : w.commits <+: w'.commits) (hp : Persist w.db w'.db)
    (hq : ∀ x y : AccessShareRow, y.tokenHash = x.tokenHash → y.expiresAt = x.expiresAt →
      q x → q y) : Answered w' k id q := by
  obtain ⟨l, hl⟩ := hc
  refine ⟨?_, ?_, ?_⟩
  · rw [← hl, List.length_append]
    exact h.began.trans (Nat.le_add_right _ _)
  · rw [← hl, List.take_append_of_le_length h.began]
    exact h.unrevoked
  · obtain ⟨x, hx, hid, hqx⟩ := h.share
    obtain ⟨y, hy, hyid, -, htok, hexp⟩ := hp x hx
    exact ⟨y, hy, hyid.trans hid, hq x y htok hexp hqx⟩

theorem Accounted.mono {k : ShareCommit} (h : Accounted sha256 db₀ w k)
    (hc : w.commits <+: w'.commits) (hp : Persist w.db w'.db) : Accounted sha256 db₀ w' k := by
  unfold Accounted at h ⊢
  split
  · simpa only [*] using h
  · simpa only [*] using h
  · rename_i raw kind now hcall
    simp only [hcall] at h
    obtain ⟨p, hres, ha⟩ := h
    exact ⟨p, hres, ha.mono hc hp fun x y htok hexp hx => ⟨htok.trans hx.1, hexp ▸ hx.2⟩⟩
  · rename_i d raw now hcall
    simp only [hcall] at h
    obtain ⟨session, hres, ha⟩ := h
    exact ⟨session, hres, ha.mono hc hp fun x y htok hexp hx => ⟨htok.trans hx.1, hexp ▸ hx.2⟩⟩
  · rename_i raw now hcall
    simp only [hcall] at h
    obtain ⟨p, hres, ha, hi⟩ := h
    exact ⟨p, hres, ha.mono hc hp fun x y _ hexp hx => hexp ▸ hx, hi.mono hc.subset⟩

theorem Looked.answered {p : Database → AccessShareRow → Bool} {k : ShareCommit}
    {x : AccessShareRow} {q : AccessShareRow → Prop}
    (h : Looked (ShareInv sha256 db₀) p k.began x w)
    (hc : w.commits <+: w'.commits) (hp : Persist w.db w'.db)
    (hq : ∀ y : AccessShareRow, y.tokenHash = x.tokenHash → y.expiresAt = x.expiresAt → q y) :
    Answered w' k x.id q := by
  obtain ⟨v, hinv, hbegan, hvw, hpersist, hx, hlive, -⟩ := h
  obtain ⟨l, hl⟩ := hvw.trans hc
  refine ⟨?_, ?_, ?_⟩
  · rw [← hl, List.length_append]
    exact hbegan.trans (Nat.le_add_right _ _)
  · rw [← hl, List.take_append_of_le_length hbegan]
    intro hrev
    obtain ⟨⟨y, hy, hyrev⟩, -⟩ := hinv.revoked x.id (hrev.mono (List.take_subset _ _))
    rw [Table.get?_of_mem hx, Option.some.injEq] at hy
    exact hyrev (hy ▸ hlive)
  · obtain ⟨y, hy, hyid, -, htok, hexp⟩ := (hpersist.trans hp) x hx
    exact ⟨y, hy, hyid, hq y htok hexp⟩

theorem revokedIn_append {l : List ShareCommit} {k : ShareCommit} {id : String} :
    RevokedIn (l ++ [k]) id ↔ RevokedIn l id ∨ ∃ p now, k.call = .revokeShare p id now := by
  simp only [RevokedIn, List.mem_append, List.mem_singleton, or_and_right, exists_or,
    exists_eq_left]

theorem ShareInv.commit {k : ShareCommit} {db : Database} (h : ShareInv sha256 db₀ w)
    (hpersist : Persist w.db db)
    (hrevoked : ∀ id, RevokedIn (w.commits ++ [k]) id → Closed db id)
    (hsessions : ∀ r ∈ db.accessShareSessions.rows, r ∈ w.db.accessShareSessions.rows ∨
      ∃ session, k.result = .session session ∧ tokenHash sha256 session.token = r.tokenHash ∧
        session.principal.shareID = r.shareID)
    (hlinks : ∀ x ∈ db.accessShares.rows, ∀ y ∈ db.accessShares.rows,
      x.tokenHash = y.tokenHash → x = y)
    (hcolumns : ∀ x ∈ db.accessShares.rows, ∃ e, x.expiresAt = timestamptz e)
    (hnew : ∀ session, k.result = .session session →
      NewToken sha256 db₀ w.commits session.token)
    (hk : Accounted sha256 db₀ ⟨db, w.commits ++ [k]⟩ k) :
    ShareInv sha256 db₀ ⟨db, w.commits ++ [k]⟩ := by
  have hmem : ∀ k', k' ∈ w.commits ++ [k] → k' ∈ w.commits ∨ k' = k := by simp
  refine ⟨hrevoked, ?_, hlinks, hcolumns, ?_, ?_, ?_⟩
  · intro r hr
    rcases hsessions r hr with hr | hsession
    · exact (h.sessions r hr).mono (List.subset_append_left _ _)
    · exact .inr ⟨k, by simp, hsession⟩
  · intro k₁ hk₁ k₂ hk₂ session₁ session₂ hres₁ hres₂ hhash
    rcases hmem k₁ hk₁ with hold₁ | rfl <;> rcases hmem k₂ hk₂ with hold₂ | heq
    · exact h.unique k₁ hold₁ k₂ hold₂ session₁ session₂ hres₁ hres₂ hhash
    · subst heq
      exact absurd hhash
        ((hnew session₂ hres₂).2 k₁ hold₁ session₁ (by simp [hres₁, ShareReply.session?]))
    · exact absurd hhash.symm
        ((hnew session₁ hres₁).2 k₂ hold₂ session₂ (by simp [hres₂, ShareReply.session?]))
    · subst heq
      exact ShareReply.session.inj (hres₁.symm.trans hres₂)
  · intro k' hk' session hres
    rcases hmem k' hk' with hold | rfl
    · exact h.fresh k' hold session hres
    · exact (hnew session hres).1
  · intro k' hk'
    rcases hmem k' hk' with hold | rfl
    · exact (h.history k' hold).mono (List.prefix_append _ _) hpersist
    · exact hk

end Facts

section Effects
variable {db db' : Database} {id : String}

theorem Creates.closed {r : AccessShareRow} (h : Creates r db db') (hc : Closed db id) :
    Closed db' id := by
  obtain ⟨⟨x, hx, hrev⟩, hsessions⟩ := hc
  have hne : r.id ≠ id := by
    rintro rfl
    rw [h.fresh] at hx
    cases hx
  refine ⟨⟨x, ?_, hrev⟩, h.sessions ▸ hsessions⟩
  rw [h.shares, Table.get?_put_of_ne _ hne]
  exact hx

theorem Revokes.closed_self {x : AccessShareRow} {t : Time} (h : Revokes id x t db db') :
    Closed db' id := by
  have hid : x.id = id := Table.key_of_get? h.row
  refine ⟨⟨{ x with revokedAt := some t }, ?_, by simp⟩, fun r hr => (h.sessions r hr).2⟩
  rw [h.shares, ← hid]
  exact Table.get?_put_self _ _

theorem Revokes.closed {id' : String} {x : AccessShareRow} {t : Time}
    (h : Revokes id' x t db db') (hc : Closed db id) : Closed db' id := by
  by_cases hid : id' = id
  · exact hid ▸ h.closed_self
  · obtain ⟨⟨y, hy, hrev⟩, hsessions⟩ := hc
    have hne : ({ x with revokedAt := some t } : AccessShareRow).id ≠ id :=
      fun hx => hid ((Table.key_of_get? h.row).symm.trans hx)
    refine ⟨⟨y, ?_, hrev⟩, fun r hr => hsessions r (h.sessions r hr).1⟩
    rw [h.shares, Table.get?_put_of_ne _ hne]
    exact hy

theorem Exchanges.closed {sha256 : String → String} {raw token : String} {now : Time}
    {x : AccessShareRow} (h : Exchanges sha256 raw token now x db db') (hc : Closed db id) :
    Closed db' id := by
  obtain ⟨⟨y, hy, hrev⟩, hsessions⟩ := hc
  refine ⟨⟨y, h.shares ▸ hy, hrev⟩, fun r hr hrid => ?_⟩
  rcases h.sessions r hr with hr | ⟨-, hrx⟩
  · exact hsessions r hr hrid
  · have hrow := h.row
    rw [← hrx, hrid, hy, Option.some.injEq] at hrow
    exact hrev (hrow ▸ h.live)

theorem Revokes.links {x : AccessShareRow} {t : Time} (h : Revokes id x t db db')
    (hl : ∀ x ∈ db.accessShares.rows, ∀ y ∈ db.accessShares.rows, x.tokenHash = y.tokenHash →
      x = y) :
    ∀ x ∈ db'.accessShares.rows, ∀ y ∈ db'.accessShares.rows, x.tokenHash = y.tokenHash →
      x = y := by
  rw [h.shares]
  refine Table.unique_put hl fun y hy hne htok => hne ?_
  have hyx : y = x := hl y hy x (Table.mem_of_get? h.row) htok
  rw [hyx]

end Effects

section Run
variable {sha256 : String → String} {db₀ : Database} {w : ShareWorld}

theorem linkMatches_iff {raw : String} {now : Time} {db : Database} {x : AccessShareRow} :
    linkMatches sha256 raw now db x = true ↔
      x.tokenHash = tokenHash sha256 raw ∧ timestamptz now < x.expiresAt := by
  simp only [linkMatches, Bool.and_eq_true, decide_eq_true_eq]

theorem Looked.answered_link {raw : String} {now : Time} {k : ShareCommit} {x : AccessShareRow}
    {w' : ShareWorld} (h : Looked (ShareInv sha256 db₀) (linkMatches sha256 raw now) k.began x w)
    (hc : w.commits <+: w'.commits) (hp : Persist w.db w'.db) :
    Answered w' k x.id fun y => y.tokenHash = tokenHash sha256 raw ∧
      timestamptz now < y.expiresAt := by
  obtain ⟨v, -, -, -, -, -, -, hmatch⟩ := id h
  obtain ⟨htok, hexp⟩ := linkMatches_iff.mp hmatch
  exact h.answered hc hp fun y hytok hyexp => ⟨hytok.trans htok, hyexp ▸ hexp⟩

theorem Looked.answered_session {raw : String} {now : Time} {k : ShareCommit} {x : AccessShareRow}
    {w' : ShareWorld}
    (h : Looked (ShareInv sha256 db₀) (sessionMatches sha256 raw now) k.began x w)
    (hc : w.commits <+: w'.commits) (hp : Persist w.db w'.db) :
    Answered w' k x.id (fun y => timestamptz now < y.expiresAt) ∧
      Issued sha256 db₀ w'.commits (tokenHash sha256 raw) x.id := by
  obtain ⟨v, hinv, -, hvw, -, -, -, hmatch⟩ := id h
  simp only [sessionMatches, Bool.and_eq_true, List.any_eq_true, decide_eq_true_eq] at hmatch
  obtain ⟨hexp, r, hr, ⟨hrid, hrtok⟩, -⟩ := hmatch
  refine ⟨h.answered hc hp fun y _ hyexp => hyexp ▸ hexp, ?_⟩
  rw [← hrid, ← hrtok]
  exact (hinv.sessions r hr).mono (hvw.trans hc).subset

theorem ShareInv.commit_read {k : ShareCommit} (h : ShareInv sha256 db₀ w)
    (hcall : ∀ p id now, k.call ≠ .revokeShare p id now)
    (hres : ∀ session, k.result ≠ .session session)
    (hk : Accounted sha256 db₀ ⟨w.db, w.commits ++ [k]⟩ k) :
    ShareInv sha256 db₀ ⟨w.db, w.commits ++ [k]⟩ := by
  refine h.commit (.of_eq rfl) ?_ (fun r hr => .inl hr) h.links h.columns
    (fun session hs => absurd hs (hres session)) hk
  intro id hid
  rcases revokedIn_append.mp hid with hid | ⟨p, now, hp⟩
  · exact h.revoked id hid
  · exact absurd hp (hcall p id now)

theorem SharePost.shareInv {c : ShareCall} {n : ℕ} {reply : ShareReply} {acc : List Access}
    (h : SharePost sha256 (ShareInv sha256 db₀) c n reply acc w) (hinv : ShareInv sha256 db₀ w)
    (hnew : ∀ token ∈ c.drawn, NewToken sha256 db₀ w.commits token) :
    ShareInv sha256 db₀ ⟨Tx.view w.db acc, w.commits ++ [⟨n, c, reply⟩]⟩ := by
  have hprefix : w.commits <+: w.commits ++ [⟨n, c, reply⟩] := List.prefix_append _ _
  cases c with
  | createShare d p req hash now =>
    obtain ⟨-, ⟨record, rfl⟩, r, hr⟩ := h
    refine hinv.commit hr.persist ?_ ?_ ?_ ?_ (by simp) ⟨record, rfl⟩
    · intro id hid
      rcases revokedIn_append.mp hid with hid | ⟨p, now, hp⟩
      · exact hr.closed (hinv.revoked id hid)
      · cases hp
    · exact fun s hs => .inl (hr.sessions ▸ hs)
    · rw [hr.shares]
      exact Table.unique_put hinv.links fun x hx _ => hr.token x hx
    · rw [hr.shares]
      intro x hx
      rcases Table.mem_put.mp hx with rfl | ⟨hx, -⟩
      · exact hr.expires
      · exact hinv.columns x hx
  | revokeShare p id now =>
    obtain ⟨-, rfl, x, t, hx⟩ := h
    refine hinv.commit hx.persist ?_ (fun r hr => .inl (hx.sessions r hr).1)
      (hx.links hinv.links) ?_ (by simp) rfl
    · intro id' hid
      rcases revokedIn_append.mp hid with hid | ⟨p, now, hp⟩
      · exact hx.closed (hinv.revoked id' hid)
      · cases hp
        exact hx.closed_self
    · rw [hx.shares]
      intro y hy
      rcases Table.mem_put.mp hy with rfl | ⟨hy, -⟩
      · exact hinv.columns x (Table.mem_of_get? hx.row)
      · exact hinv.columns y hy
  | exchangeShare d raw now =>
    obtain ⟨-, x, token, session, hdraw, rfl, rfl, hid, hx, hlooked⟩ := h
    refine hinv.commit (.of_eq hx.shares) ?_ ?_ (hx.shares ▸ hinv.links) (hx.shares ▸ hinv.columns)
      ?_ ⟨session, rfl, ?_⟩
    · intro id' hid'
      rcases revokedIn_append.mp hid' with hid' | ⟨p, now, hp⟩
      · exact hx.closed (hinv.revoked id' hid')
      · cases hp
    · intro r hr
      rcases hx.sessions r hr with hr | ⟨htok, hrid⟩
      · exact .inl hr
      · exact .inr ⟨session, rfl, htok.symm, hid.trans hrid.symm⟩
    · intro session' hs
      cases hs
      exact hnew session.token hdraw
    · rw [hid]
      exact Looked.answered_link (k := ⟨n, _, _⟩) hlooked hprefix (.of_eq hx.shares)
  | authenticate raw kind now =>
    obtain ⟨rfl, p, x, rfl, hid, hlooked⟩ := h
    refine hinv.commit_read (by simp) (by simp) ⟨p, rfl, ?_⟩
    rw [hid]
    exact Looked.answered_link (k := ⟨n, _, _⟩) hlooked hprefix (.of_eq rfl)
  | authenticateShareSession raw now =>
    obtain ⟨rfl, p, x, rfl, hid, hlooked⟩ := h
    refine hinv.commit_read (by simp) (by simp) ⟨p, rfl, ?_⟩
    rw [hid]
    exact Looked.answered_session (k := ⟨n, _, _⟩) hlooked hprefix (.of_eq rfl)

theorem ShareInv.env {db : Database} (h : ShareInv sha256 db₀ w)
    (hshares : db.accessShares = w.db.accessShares)
    (hsessions : db.accessShareSessions = w.db.accessShareSessions) :
    ShareInv sha256 db₀ { w with db := db } where
  revoked := by
    intro id hid
    unfold Closed
    rw [hshares, hsessions]
    exact h.revoked id hid
  sessions := hsessions ▸ h.sessions
  links := hshares ▸ h.links
  columns := hshares ▸ h.columns
  unique := h.unique
  fresh := h.fresh
  history := fun k hk => (h.history k hk).mono (List.prefix_refl _) (.of_eq hshares)

theorem ShareInv.start
    (hlinks : ∀ x ∈ db₀.accessShares.rows, ∀ y ∈ db₀.accessShares.rows,
      x.tokenHash = y.tokenHash → x = y)
    (hcolumns : ∀ x ∈ db₀.accessShares.rows, ∃ e, x.expiresAt = timestamptz e) :
    ShareInv sha256 db₀ ⟨db₀, []⟩ where
  revoked := by
    rintro id ⟨k, hk, -⟩
    cases hk
  sessions := fun r hr => .inl ⟨r, hr, rfl, rfl⟩
  links := hlinks
  columns := hcolumns
  unique := by simp
  fresh := by simp
  history := by simp

theorem fresh_discipline (sha256 : String → String) (db₀ : Database) :
    Sys.Discipline (shareProgram sha256) (FreshTokens sha256 db₀) (ShareInv sha256 db₀)
      (fun _ => ShareRely (ShareInv sha256 db₀)) (SharePost sha256 (ShareInv sha256 db₀)) := by
  refine share_discipline ?_ ?_ fun w db h => h.env
  · intro s e he
    cases e with
    | advance i => trivial
    | _ => exact he
  · intro s i c r hok hc hp hinv hpost
    refine hpost.shareInv hinv fun token htoken => ?_
    exact hok c (by simp [Sys.committing_eq_some.mpr ⟨hc, r, hp⟩]) token (by simpa using htoken)

theorem ShareInv.link_unrevoked (h : ShareInv sha256 db₀ w) {k : ShareCommit} {raw id : String}
    {now : Time}
    (ha : Answered w k id fun x => x.tokenHash = tokenHash sha256 raw ∧
      timestamptz now < x.expiresAt)
    {x : AccessShareRow} (hx : x ∈ w.db.accessShares.rows)
    (htok : x.tokenHash = tokenHash sha256 raw) :
    ¬ RevokedIn (w.commits.take k.began) x.id := by
  obtain ⟨y, hy, hyid, hytok, -⟩ := ha.share
  rw [h.links x hx y hy (htok.trans hytok.symm), hyid]
  exact ha.unrevoked

theorem ShareInv.revocationFinal (h : ShareInv sha256 db₀ w) : RevocationFinal sha256 db₀ w where
  noSession := fun id hid => (h.revoked id hid).2
  noLink := by
    intro k hk raw hcall x hx htok
    have hacc := h.history k hk
    rcases hcall with ⟨kind, now, hcall⟩ | ⟨d, now, hcall⟩
    · simp only [Accounted, hcall] at hacc
      obtain ⟨p, -, ha⟩ := hacc
      exact h.link_unrevoked ha hx htok
    · simp only [Accounted, hcall] at hacc
      obtain ⟨session, -, ha⟩ := hacc
      exact h.link_unrevoked ha hx htok
  noToken := by
    intro k hk raw now hcall id hissued
    have hacc := h.history k hk
    simp only [Accounted, hcall] at hacc
    obtain ⟨p, -, ha, hi⟩ := hacc
    rw [← h.issued_unique hi hissued]
    exact ha.unrevoked
  ownShare := by
    intro k hk raw now hcall id hissued
    have hacc := h.history k hk
    simp only [Accounted, hcall] at hacc
    obtain ⟨p, hres, -, hi⟩ := hacc
    exact ⟨p, hres, h.issued_unique hi hissued⟩
  unexpired := by
    intro k hk raw now p hcall hres x hx hid
    have hacc := h.history k hk
    simp only [Accounted, hcall] at hacc
    obtain ⟨q, hq, ha, -⟩ := hacc
    obtain ⟨y, hy, hyid, hexp⟩ := ha.share
    have hqp : q = p := ShareReply.principal.inj (hq.symm.trans hres)
    have hyx : y = x := w.db.accessShares.eq_of_key_eq hy hx (by rw [hyid, hqp]; exact hid.symm)
    obtain ⟨e, he⟩ := h.columns x hx
    rw [hyx, he] at hexp
    rw [he]
    exact lt_of_timestamptz_lt hexp

end Run

/-- Revocation and expiry are final in every state of every run, from any tables whose link
hashes are unique and whose expiries fit their column. -/
theorem revocation_and_expiry_final (sha256 : String → String) (db₀ : Database) (t : ShareSys)
    (hlinks : ∀ x ∈ db₀.accessShares.rows, ∀ y ∈ db₀.accessShares.rows,
      x.tokenHash = y.tokenHash → x = y)
    (hcolumns : ∀ x ∈ db₀.accessShares.rows, ∃ e, x.expiresAt = timestamptz e)
    (h : Sys.Run (shareProgram sha256) (FreshTokens sha256 db₀) ⟨⟨db₀, []⟩, []⟩ t) :
    RevocationFinal sha256 db₀ t.world := by
  have hsound := h.sound (fresh_discipline sha256 db₀) (Sys.sound_of_idle (.start hlinks hcolumns))
  exact hsound.inv.revocationFinal

/-- A share is created, opened, visited and revoked. A redemption that began before the revocation
waits for it and is refused, and so is a visit with the old session. -/
def revokedShare : List (Event Database ShareCall) :=
  let opened := .start (sampleCreate "1" 'A') :: advances 0 7 ++
    .start (sampleExchange 'A' 'E') :: advances 1 7
  let visited := .start (.authenticateShareSession (sampleToken 'E') 0) :: advances 2 3
  let revoked := .start (sampleExchange 'A' 'I') :: .start (.revokeShare sampleAdmin "share-1" 0) ::
    (advances 4 6 ++ advances 3 3)
  opened ++ visited ++ revoked ++
    [.start (.authenticateShareSession (sampleToken 'E') 0), .advance 5]

theorem revocation_final_revoked_share : ∃ t,
    (⟨⟨sampleShares, []⟩, []⟩ : ShareSys).steps (shareProgram sampleSha) revokedShare = some t ∧
      t.world.commits.length = 4 ∧ RevocationFinal sampleSha sampleShares t.world := by
  have hadmits : (⟨⟨sampleShares, []⟩, []⟩ : ShareSys).admits (shareProgram sampleSha)
      (FreshTokens sampleSha sampleShares) revokedShare = true := by decide +kernel
  obtain ⟨t, ht, hrun⟩ := Sys.run_of_admits hadmits
  have hlength : ((⟨⟨sampleShares, []⟩, []⟩ : ShareSys).steps (shareProgram sampleSha)
      revokedShare).map (fun t => t.world.commits.length) = some 4 := by decide +kernel
  rw [ht, Option.map_some, Option.some.injEq] at hlength
  have hlinks : ∀ x ∈ sampleShares.accessShares.rows, ∀ y ∈ sampleShares.accessShares.rows,
      x.tokenHash = y.tokenHash → x = y := by simp [sampleShares]
  have hcolumns : ∀ x ∈ sampleShares.accessShares.rows, ∃ e, x.expiresAt = timestamptz e := by
    simp [sampleShares]
  exact ⟨t, ht, hlength, revocation_and_expiry_final sampleSha sampleShares t hlinks hcolumns hrun⟩

end Gaoming
