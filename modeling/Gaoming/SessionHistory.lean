import Gaoming.SessionAccesses

/-!
# User sessions and the history of the commits

A session stands from the commit that opened it, or from the start, until a commit
that deletes its token. A sign-out that runs beside the login it would undo may miss
it; one that begins after the login has committed does not. What a lookup answers is
what stood at some moment between its begin and its commit.
-/

namespace Gaoming
open Relational Transaction

/-- One session, whenever it was last seen. -/
structure SameSession (x y : UserSessionRow) : Prop where
  id : x.id = y.id
  userID : x.userID = y.userID
  tokenHash : x.tokenHash = y.tokenHash
  expiresAt : x.expiresAt = y.expiresAt

theorem SameSession.refl (x : UserSessionRow) : SameSession x x := ⟨rfl, rfl, rfl, rfl⟩

theorem SameSession.trans {x y z : UserSessionRow} (h : SameSession x y) (h' : SameSession y z) :
    SameSession x z :=
  ⟨h.id.trans h'.id, h.userID.trans h'.userID, h.tokenHash.trans h'.tokenHash,
    h.expiresAt.trans h'.expiresAt⟩

def Opens (r : UserSessionRow) : MasterCall → Prop
  | .control (.createSession d userID tokenHash expiresAt _ _ _) =>
    r.id = d.sessionID ∧ (r.userID : ℤ) = userID ∧ varchar 64 tokenHash = some r.tokenHash ∧
      r.expiresAt = timestamptz expiresAt
  | _ => False

/-- The number of the session that a call opens. -/
def MasterCall.opens : MasterCall → Option Serial
  | .control (.createSession d _ _ _ _ _ _) => some d.sessionID
  | _ => none

theorem Opens.same {x y : UserSessionRow} {c : MasterCall} (h : Opens x c) (hxy : SameSession x y) :
    Opens y c := by
  cases c with
  | control c =>
    cases c with
    | createSession d userID tokenHash expiresAt ip userAgent now =>
      obtain ⟨hid, huser, htoken, hexp⟩ := h
      exact ⟨hxy.id ▸ hid, hxy.userID ▸ huser, hxy.tokenHash ▸ htoken, hxy.expiresAt ▸ hexp⟩
    | _ => exact h.elim
  | _ => exact h.elim

section History
variable (db₀ : MasterDatabase)

/-- The session is one of the start, or was opened by the commit before number `p`. -/
def OpenedAt (commits : List MasterCommit) (r : UserSessionRow) : ℕ → Prop
  | 0 => ∃ x ∈ db₀.userSessions.rows, SameSession x r
  | n + 1 => ∃ k, commits[n]? = some k ∧ Opens r k.call

/-- A sign-out with the token has committed, after `p` commits. -/
def ClosedFrom (commits : List MasterCommit) (tokenHash : String) (p : ℕ) : Prop :=
  ∃ n k, p ≤ n ∧ commits[n]? = some k ∧ k.call = .deleteSession tokenHash

structure Standing (commits : List MasterCommit) (r : UserSessionRow) (p : ℕ) : Prop where
  opened : OpenedAt db₀ commits r p
  last : ∀ (n : ℕ) (k : MasterCommit), p ≤ n → commits[n]? = some k → k.call.opens ≠ some r.id
  undeleted : ∀ (n : ℕ) (k : MasterCommit), commits[n]? = some k →
    k.call = .deleteSession r.tokenHash → k.began < p

/-- What a lookup of the token may answer after these commits. -/
def Sees (commits : List MasterCommit) (tokenHash : String) : Option UserSessionRow → Prop
  | some r => r.tokenHash = tokenHash ∧ ∃ p, Standing db₀ commits r p
  | none => ∀ r p, OpenedAt db₀ commits r p → r.tokenHash = tokenHash →
    ClosedFrom commits tokenHash p

structure SessionInv (w : MasterWorld) : Prop where
  began : ∀ (n : ℕ) (k : MasterCommit), w.commits[n]? = some k → k.began ≤ n
  standing : ∀ r ∈ w.db.userSessions.rows, ∃ p, Standing db₀ w.commits r p
  kept : ∀ r p, OpenedAt db₀ w.commits r p →
    (∃ x ∈ w.db.userSessions.rows, SameSession r x) ∨ ClosedFrom w.commits r.tokenHash p
  found : ∀ (n : ℕ) (k : MasterCommit) tokenHash o, w.commits[n]? = some k →
    k.call = .findSession tokenHash →
    k.result = .session o →
    ∃ m, k.began ≤ m ∧ m ≤ n ∧ Sees db₀ (w.commits.take m) tokenHash o

end History

section Facts
variable {db₀ : MasterDatabase} {commits : List MasterCommit} {r : UserSessionRow} {p : ℕ}
  {k : MasterCommit}

theorem OpenedAt.le (h : OpenedAt db₀ commits r p) : p ≤ commits.length := by
  cases p with
  | zero => exact Nat.zero_le _
  | succ n =>
    obtain ⟨k, hk, -⟩ := h
    exact (List.getElem?_eq_some_iff.mp hk).1

theorem OpenedAt.append (h : OpenedAt db₀ commits r p) (more : List MasterCommit) :
    OpenedAt db₀ (commits ++ more) r p := by
  cases p with
  | zero => exact h
  | succ n =>
    obtain ⟨k, hk, hopens⟩ := h
    refine ⟨k, ?_, hopens⟩
    rw [List.getElem?_append_left (List.getElem?_eq_some_iff.mp hk).1]
    exact hk

theorem OpenedAt.of_take {m : ℕ} (h : OpenedAt db₀ (commits.take m) r p) :
    OpenedAt db₀ commits r p := by
  rw [← List.take_append_drop m commits]
  exact h.append _

theorem OpenedAt.same (h : OpenedAt db₀ commits r p) {x : UserSessionRow} (hx : SameSession r x) :
    OpenedAt db₀ commits x p := by
  cases p with
  | zero =>
    obtain ⟨y, hy, hyr⟩ := h
    exact ⟨y, hy, hyr.trans hx⟩
  | succ n =>
    obtain ⟨k, hk, hopens⟩ := h
    exact ⟨k, hk, hopens.same hx⟩

theorem getElem?_concat_cases {n : ℕ} {x : MasterCommit} (h : (commits ++ [k])[n]? = some x) :
    commits[n]? = some x ∨ n = commits.length ∧ x = k := by
  rw [List.getElem?_append] at h
  split_ifs at h with hn
  · exact .inl h
  · have hzero : n - commits.length = 0 := by
      by_contra hne
      simp [hne] at h
    simp only [hzero, List.getElem?_cons_zero, Option.some.injEq] at h
    exact .inr ⟨by omega, h.symm⟩

theorem openedAt_concat (h : OpenedAt db₀ (commits ++ [k]) r p) :
    OpenedAt db₀ commits r p ∨ p = commits.length + 1 ∧ Opens r k.call := by
  cases p with
  | zero => exact .inl h
  | succ n =>
    obtain ⟨x, hx, hopens⟩ := h
    rcases getElem?_concat_cases hx with hx | ⟨rfl, rfl⟩
    · exact .inl ⟨x, hx, hopens⟩
    · exact .inr ⟨rfl, hopens⟩

theorem ClosedFrom.append {h : String} (hc : ClosedFrom commits h p) (more : List MasterCommit) :
    ClosedFrom (commits ++ more) h p := by
  obtain ⟨n, k, hp, hk, hcall⟩ := hc
  refine ⟨n, k, hp, ?_, hcall⟩
  rw [List.getElem?_append_left (List.getElem?_eq_some_iff.mp hk).1]
  exact hk

theorem Standing.same (h : Standing db₀ commits r p) {x : UserSessionRow} (hx : SameSession r x) :
    Standing db₀ commits x p :=
  ⟨h.opened.same hx, hx.id ▸ h.last, hx.tokenHash ▸ h.undeleted⟩

theorem Standing.concat (h : Standing db₀ commits r p) (hopens : k.call.opens ≠ some r.id)
    (hdel : k.call = .deleteSession r.tokenHash → k.began < p) :
    Standing db₀ (commits ++ [k]) r p where
  opened := h.opened.append [k]
  last := by
    intro n x hp hx
    rcases getElem?_concat_cases hx with hx | ⟨-, rfl⟩
    · exact h.last n x hp hx
    · exact hopens
  undeleted := by
    intro n x hx hcall
    rcases getElem?_concat_cases hx with hx | ⟨-, rfl⟩
    · exact h.undeleted n x hx hcall
    · exact hdel hcall

end Facts

section Effects
variable (db₀ : MasterDatabase)

/-- The commits since then include one that opened the number. -/
def Reopened (commits : List MasterCommit) (since : ℕ) (id : Serial) : Prop :=
  ∃ n k, since ≤ n ∧ commits[n]? = some k ∧ k.call.opens = some id

structure SessionRely (acc : List MasterAccess) (w w' : MasterWorld) : Prop where
  inv : SessionInv db₀ w'
  grows : w.commits <+: w'.commits
  rows : ∀ r ∈ w'.db.userSessions.rows, (∃ x ∈ w.db.userSessions.rows, SameSession x r) ∨
    Reopened w'.commits w.commits.length r.id
  locked : ∀ id, HoldsSession acc id → w'.db.userSessions.get? id = w.db.userSessions.get? id

def SessionEffect (began : ℕ) (reply : MasterReply) (w : MasterWorld)
    (after : Table UserSessionRow.id) : MasterCall → Prop
  | .control (.createSession d userID tokenHash expiresAt ip userAgent now) =>
    ∃ r, Opens r (.control (.createSession d userID tokenHash expiresAt ip userAgent now)) ∧
      w.db.userSessions.get? r.id = none ∧ after = w.db.userSessions.put r
  | .touchSession _ _ => after = w.db.userSessions ∨
    ∃ x y, w.db.userSessions.get? x.id = some x ∧ SameSession x y ∧ after = w.db.userSessions.put y
  | .deleteSession tokenHash =>
    (∀ x ∈ after.rows, x ∈ w.db.userSessions.rows ∧
      (x.tokenHash = tokenHash → Reopened w.commits began x.id)) ∧
    ∀ x ∈ w.db.userSessions.rows, x.tokenHash ≠ tokenHash → x ∈ after.rows
  | .findSession tokenHash => after = w.db.userSessions ∧ ∀ o, reply = .session o →
    ∃ m, began ≤ m ∧ m ≤ w.commits.length ∧ Sees db₀ (w.commits.take m) tokenHash o
  | _ => after = w.db.userSessions

end Effects

section Waiting
variable {db₀ : MasterDatabase} {acc as : List MasterAccess} {u v w : MasterWorld}

theorem Reopened.append {commits : List MasterCommit} {n : ℕ} {id : Serial}
    (h : Reopened commits n id) (more : List MasterCommit) : Reopened (commits ++ more) n id := by
  obtain ⟨m, k, hm, hk, hopens⟩ := h
  refine ⟨m, k, hm, ?_, hopens⟩
  rw [List.getElem?_append_left (List.getElem?_eq_some_iff.mp hk).1]
  exact hk

theorem SessionRely.refl (h : SessionInv db₀ w) : SessionRely db₀ acc w w :=
  ⟨h, List.prefix_refl _, fun r hr => .inl ⟨r, hr, .refl r⟩, fun _ _ => rfl⟩

theorem SessionRely.trans (h : SessionRely db₀ acc u v) (h' : SessionRely db₀ acc v w) :
    SessionRely db₀ acc u w where
  inv := h'.inv
  grows := h.grows.trans h'.grows
  rows := by
    intro r hr
    rcases h'.rows r hr with ⟨x, hx, hxr⟩ | ⟨n, k, hn, hk, hopens⟩
    · rcases h.rows x hx with ⟨y, hy, hyx⟩ | hopened
      · exact .inl ⟨y, hy, hyx.trans hxr⟩
      · obtain ⟨more, hmore⟩ := h'.grows
        rw [hxr.id] at hopened
        exact .inr (hmore ▸ hopened.append more)
    · exact .inr ⟨n, k, h.grows.length_le.trans hn, hk, hopens⟩
  locked := fun id hid => (h'.locked id hid).trans (h.locked id hid)

theorem SessionRely.le {n : ℕ} (h : SessionRely db₀ acc u v) (hn : n ≤ u.commits.length) :
    n ≤ v.commits.length := hn.trans h.grows.length_le

theorem SessionRely.take (h : SessionRely db₀ acc u v) :
    v.commits.take u.commits.length = u.commits := by
  obtain ⟨more, hmore⟩ := h.grows
  rw [← hmore, List.take_left]

end Waiting

section Calls
variable {db₀ : MasterDatabase} {store : Store} {sha256 : String → String} {w : MasterWorld} {n : ℕ}

/-- What a call owes when it commits. -/
def SessionPost (db₀ : MasterDatabase) (c : MasterCall) (began : ℕ) (reply : MasterReply)
    (acc : List MasterAccess) (w : MasterWorld) : Prop :=
  began ≤ w.commits.length ∧ SessionEffect db₀ began reply w (Tx.view w.db acc).userSessions c

theorem aside_wp {α : Type} {p : MasterTx α} (hp : p.Uses MasterAccess.SparesSessions)
    (hn : n ≤ w.commits.length) :
    p.wp (SessionRely db₀) (fun _ acc v => n ≤ v.commits.length ∧
      (Tx.view v.db acc).userSessions = v.db.userSessions) [] w :=
  Tx.wp_of_uses hp (P := fun v => n ≤ v.commits.length) (fun _ _ _ _ hv hP => hv.le hP) hn
    fun _ _ v has hP => ⟨hP, sessions_spared has v.db⟩

theorem sees_of_inv {v : MasterWorld} (h : SessionInv db₀ v) (tokenHash : String) :
    Sees db₀ v.commits tokenHash
      (v.db.userSessions.rows.find? fun x => x.tokenHash = tokenHash) := by
  cases hf : v.db.userSessions.rows.find? fun x => x.tokenHash = tokenHash with
  | some r =>
    have htoken : r.tokenHash = tokenHash := by simpa using List.find?_some hf
    exact ⟨htoken, h.standing r (List.mem_of_find?_eq_some hf)⟩
  | none =>
    intro r p hopened htoken
    rcases h.kept r p hopened with ⟨x, hx, hrx⟩ | hclosed
    · have hno := List.find?_eq_none.mp hf x hx
      simp [← hrx.tokenHash, htoken] at hno
    · exact htoken ▸ hclosed

theorem wp_ofAccount_exec {α : Type} {post : MasterReply → List MasterAccess → MasterWorld → Prop}
    {rely : List MasterAccess → MasterWorld → MasterWorld → Prop}
    {exec : Database → Except AccountError (α × List Access)} {f : α → MasterReply}
    (h : ∀ v, rely [] w v → ∀ a as, exec v.db.toDatabase = .ok (a, as) →
      ∀ u, rely (as.map .base) v u → post (f a) (as.map .base) u) :
    (ofAccount (Tx.exec exec) >>= fun a => pure (f a)).wp rely post [] w := by
  rw [ofAccount, onTables, Tx.lift_mapError]
  refine Tx.wp_bind_pure (Tx.wp_mapError ?_)
  exact Tx.wp_lift_exec (k := pure) fun v hv a as he u hu => h v hv a as he u hu

theorem findSession_wp (tokenHash : String) (hn : n ≤ w.commits.length) :
    (masterProgram store sha256 (.findSession tokenHash)).wp (SessionRely db₀)
      (SessionPost db₀ (.findSession tokenHash) n) [] w := by
  refine wp_ofAccount_exec fun v hv o as he u hu => ?_
  cases he
  refine ⟨hu.le (hv.le hn), rfl, fun o ho => ?_⟩
  cases ho
  refine ⟨v.commits.length, hv.le hn, hu.grows.length_le, ?_⟩
  rw [hu.take]
  exact sees_of_inv hv.inv tokenHash

theorem touchSession_wp (id : Serial) (now : Time) (hn : n ≤ w.commits.length) :
    (masterProgram store sha256 (.touchSession id now)).wp (SessionRely db₀)
      (SessionPost db₀ (.touchSession id now) n) [] w := by
  refine wp_ofAccount_exec (f := fun _ => .done) fun v hv _ as he u hu => ?_
  refine ⟨hu.le (hv.le hn), ?_⟩
  cases hx : v.db.userSessions.get? id with
  | none =>
    rw [hx] at he
    cases he
    exact .inl rfl
  | some x =>
    rw [hx] at he
    cases he
    have hid : x.id = id := Table.key_of_get? hx
    -- the row is under this call's lock from its statement to its commit
    have hrow : u.db.userSessions.get? x.id = some x := by
      rw [hu.locked x.id ⟨_, List.mem_singleton_self _, rfl⟩, hid]
      exact hx
    exact .inr ⟨x, { x with lastSeenAt := some (timestamptz now), updatedAt := timestamptz now },
      hrow, ⟨rfl, rfl, rfl, rfl⟩, rfl⟩

theorem mem_view_erase {rows : List UserSessionRow} {db : MasterDatabase} {x : UserSessionRow} :
    x ∈ (Tx.view db (rows.map fun r => MasterAccess.eraseUserSession r.id)).userSessions.rows ↔
      x ∈ db.userSessions.rows ∧ ∀ r ∈ rows, x.id ≠ r.id := by
  induction rows generalizing db with
  | nil => simp
  | cons r rows ih =>
    rw [List.map_cons, Tx.view_cons]
    refine ih.trans ?_
    change x ∈ (db.userSessions.erase r.id).rows ∧ _ ↔ _
    simp only [Table.mem_erase, List.forall_mem_cons, and_assoc, ne_eq]

theorem deleteSession_wp (tokenHash : String) (hn : n ≤ w.commits.length) :
    (masterProgram store sha256 (.deleteSession tokenHash)).wp (SessionRely db₀)
      (SessionPost db₀ (.deleteSession tokenHash) n) [] w := by
  intro v hv _ as he
  cases he
  intro u hu
  refine ⟨hu.le (hv.le hn), ?_, ?_⟩
  · intro x hx
    obtain ⟨hmem, hne⟩ := mem_view_erase.mp hx
    refine ⟨hmem, fun htoken => ?_⟩
    rcases hu.rows x hmem with ⟨y, hy, hyx⟩ | ⟨m, k, hm, hk⟩
    · have hysel : y ∈ v.db.userSessions.select fun x => x.tokenHash = tokenHash :=
        Table.mem_select.mpr ⟨hy, by simp [hyx.tokenHash, htoken]⟩
      exact absurd hyx.id.symm (hne y hysel)
    · exact ⟨m, k, (hv.le hn).trans hm, hk⟩
  · intro x hx htoken
    refine mem_view_erase.mpr ⟨hx, fun r hr hid => htoken ?_⟩
    obtain ⟨hmem, hsel⟩ := Table.mem_select.mp hr
    have hlock : HoldsSession (List.map (fun x => MasterAccess.eraseUserSession x.id)
        (v.db.userSessions.select fun x => x.tokenHash = tokenHash)) r.id :=
      ⟨_, List.mem_map_of_mem hr, rfl⟩
    have hrow : u.db.userSessions.get? r.id = some r :=
      (hu.locked r.id hlock).trans (Table.get?_of_mem hmem)
    rw [← hid, Table.get?_of_mem hx, Option.some.injEq] at hrow
    simpa [hrow] using hsel

theorem UserSessionRow.stored_spec {row r : UserSessionRow} (h : row.stored = some r) :
    r.id = row.id ∧ r.userID = row.userID ∧ varchar 64 row.tokenHash = some r.tokenHash ∧
      r.expiresAt = timestamptz row.expiresAt := by
  simp only [UserSessionRow.stored, Option.bind_eq_bind, Option.bind_eq_some_iff] at h
  obtain ⟨_, htoken, _, -, _, -, h⟩ := h
  cases h
  exact ⟨rfl, rfl, htoken, rfl⟩

theorem createSession_session_wp (d : AccountDraws) (userID : ℤ) (tokenHash : String)
    (expiresAt : Time) (ip userAgent : String) (now : Time) (hn : n ≤ w.commits.length) :
    (onTables (createSession d userID tokenHash expiresAt ip userAgent now)).wp (SessionRely db₀)
      (fun _ => SessionPost db₀
        (.control (.createSession d userID tokenHash expiresAt ip userAgent now)) n
        (.control .done)) [] w := by
  refine Tx.wp_lift_exec fun v hv _ as he => ?_
  have hspare : ∀ a ∈ as.map MasterAccess.base, a.SparesSessions := by
    intro a ha
    obtain ⟨b, hb, rfl⟩ := List.mem_map.mp ha
    split at he
    · cases he
      rw [List.mem_singleton.mp hb]
      trivial
    · cases he
      simp only [List.mem_cons, List.not_mem_nil, or_false] at hb
      rcases hb with rfl | rfl <;> trivial
  refine Tx.wp_lift_exec (k := pure) fun v' hv' _ bs hbs => ?_
  split at hbs
  · cases hbs
  · rename_i user huser
    split at hbs
    · cases hbs
    · rename_i r hr
      split_ifs at hbs with hfresh
      cases hbs
      obtain ⟨hid, hru, htoken, hexp⟩ := UserSessionRow.stored_spec hr
      have hview : (Tx.view v'.db ([] ++ as.map MasterAccess.base)).userSessions =
          v'.db.userSessions := sessions_spared (by simpa using hspare) v'.db
      intro u hu
      have hnone : u.db.userSessions.get? r.id = none := by
        have hlocked := hu.locked r.id ⟨.base (.putUserSession r), by simp, rfl⟩
        rw [hlocked, Table.get?_eq_none_iff]
        intro x hx hxid
        rw [hview] at hfresh
        exact hfresh (List.any_eq_true.mpr ⟨x, hx, by simp [hxid, hid]⟩)
      refine ⟨hu.le (hv'.le (hv.le hn)), r, ⟨hid, ?_, htoken, hexp⟩, hnone, ?_⟩
      · rw [hru]
        exact (find_user huser).2
      · rw [Tx.view_append]
        change ((Tx.view u.db ([] ++ as.map MasterAccess.base)).userSessions.put r) = _
        rw [sessions_spared (by simpa using hspare)]

theorem aside_session_wp {c : MasterCall} (hc : c.aside = true) (hn : n ≤ w.commits.length)
    (heffect : ∀ reply v after, after = v.db.userSessions → SessionEffect db₀ n reply v after c) :
    (masterProgram store sha256 c).wp (SessionRely db₀) (SessionPost db₀ c n) [] w :=
  Tx.wp_mono (fun reply _ v h => ⟨h.1, heffect reply v _ h.2⟩)
    (aside_wp (spares_program store sha256 hc) hn)

theorem session_wp (c : MasterCall) (hn : n ≤ w.commits.length) :
    (masterProgram store sha256 c).wp (SessionRely db₀) (SessionPost db₀ c n) [] w := by
  cases c with
  | control c =>
    cases c with
    | createSession d userID tokenHash expiresAt ip userAgent now =>
      change
        (onTables (Tx.mapError _ (_ >>= _)) >>= fun r => pure (MasterReply.control r)).wp _ _ _ _
      rw [onTables, Tx.lift_mapError, Tx.lift_bind, Tx.lift_mapError]
      refine Tx.wp_bind_pure (Tx.wp_mapError (Tx.wp_bind_pure (f := fun _ => ControlReply.done) ?_))
      exact Tx.wp_mapError
        (createSession_session_wp d userID tokenHash expiresAt ip userAgent now hn)
    | _ => exact aside_session_wp rfl hn fun _ _ _ h => h
  | findSession tokenHash => exact findSession_wp tokenHash hn
  | touchSession id now => exact touchSession_wp id now hn
  | deleteSession tokenHash => exact deleteSession_wp tokenHash hn
  | _ => exact aside_session_wp rfl hn fun _ _ _ h => h

end Calls

section Commit
variable {db₀ : MasterDatabase} {w : MasterWorld} {k : MasterCommit} {db : MasterDatabase}

theorem Opens.opens {r : UserSessionRow} {c : MasterCall} (h : Opens r c) :
    c.opens = some r.id := by
  cases c with
  | control c =>
    cases c with
    | createSession d userID tokenHash expiresAt ip userAgent now => exact congrArg some h.1.symm
    | _ => exact h.elim
  | _ => exact h.elim

theorem Opens.unique {x y : UserSessionRow} {c : MasterCall} (hx : Opens x c) (hy : Opens y c) :
    SameSession x y := by
  cases c with
  | control c =>
    cases c with
    | createSession d userID tokenHash expiresAt ip userAgent now =>
      obtain ⟨hid, huser, htoken, hexp⟩ := hx
      obtain ⟨hid', huser', htoken', hexp'⟩ := hy
      refine ⟨hid.trans hid'.symm, ?_, ?_, hexp.trans hexp'.symm⟩
      · exact PNat.coe_injective (Int.ofNat_injective (huser.trans huser'.symm))
      · exact Option.some.inj (htoken.symm.trans htoken')
    | _ => exact hx.elim
  | _ => exact hx.elim

theorem SessionInv.concat (h : SessionInv db₀ w) (hbegan : k.began ≤ w.commits.length)
    (hstanding : ∀ r ∈ db.userSessions.rows, ∃ p, Standing db₀ (w.commits ++ [k]) r p)
    (hkept : ∀ r p, OpenedAt db₀ (w.commits ++ [k]) r p →
      (∃ x ∈ db.userSessions.rows, SameSession r x) ∨
        ClosedFrom (w.commits ++ [k]) r.tokenHash p)
    (hfound : ∀ tokenHash o, k.call = .findSession tokenHash → k.result = .session o →
      ∃ m, k.began ≤ m ∧ m ≤ w.commits.length ∧ Sees db₀ (w.commits.take m) tokenHash o) :
    SessionInv db₀ ⟨db, w.commits ++ [k]⟩ where
  began := by
    intro n x hx
    rcases getElem?_concat_cases hx with hx | ⟨rfl, rfl⟩
    · exact h.began n x hx
    · exact hbegan
  standing := hstanding
  kept := hkept
  found := by
    intro n x tokenHash o hx hcall hres
    rcases getElem?_concat_cases hx with hx | ⟨rfl, rfl⟩
    · obtain ⟨m, hb, hm, hsees⟩ := h.found n x tokenHash o hx hcall hres
      have hlen : m ≤ w.commits.length := hm.trans (List.getElem?_eq_some_iff.mp hx).1.le
      exact ⟨m, hb, hm, by rwa [List.take_append_of_le_length hlen]⟩
    · obtain ⟨m, hb, hm, hsees⟩ := hfound tokenHash o hcall hres
      exact ⟨m, hb, hm, by rwa [List.take_append_of_le_length hm]⟩

theorem SessionInv.quiet (h : SessionInv db₀ w) (hbegan : k.began ≤ w.commits.length)
    (hopens : k.call.opens = none) (hdel : ∀ tokenHash, k.call ≠ .deleteSession tokenHash)
    (hback : ∀ y ∈ db.userSessions.rows, ∃ x ∈ w.db.userSessions.rows, SameSession x y)
    (hforth : ∀ x ∈ w.db.userSessions.rows, ∃ y ∈ db.userSessions.rows, SameSession x y)
    (hfound : ∀ tokenHash o, k.call = .findSession tokenHash → k.result = .session o →
      ∃ m, k.began ≤ m ∧ m ≤ w.commits.length ∧ Sees db₀ (w.commits.take m) tokenHash o) :
    SessionInv db₀ ⟨db, w.commits ++ [k]⟩ := by
  refine h.concat hbegan ?_ ?_ hfound
  · intro y hy
    obtain ⟨x, hx, hxy⟩ := hback y hy
    obtain ⟨p, hp⟩ := h.standing x hx
    refine ⟨p, (hp.same hxy).concat ?_ fun hcall => absurd hcall (hdel _)⟩
    rw [hopens]
    exact Option.some_ne_none _ ∘ Eq.symm
  · intro r p hr
    rcases openedAt_concat hr with hr | ⟨-, hr⟩
    · rcases h.kept r p hr with ⟨x, hx, hrx⟩ | hclosed
      · obtain ⟨y, hy, hxy⟩ := hforth x hx
        exact .inl ⟨y, hy, hrx.trans hxy⟩
      · exact .inr (hclosed.append [k])
    · rw [hr.opens] at hopens
      cases hopens

theorem SessionInv.create (h : SessionInv db₀ w) {r : UserSessionRow}
    (hbegan : k.began ≤ w.commits.length) (hr : Opens r k.call)
    (hnone : w.db.userSessions.get? r.id = none)
    (hdb : db.userSessions = w.db.userSessions.put r) :
    SessionInv db₀ ⟨db, w.commits ++ [k]⟩ := by
  have hcreate : ∀ tokenHash, k.call ≠ .deleteSession tokenHash ∧
      k.call ≠ .findSession tokenHash := by
    intro tokenHash
    constructor <;> intro hcall <;> rw [hcall] at hr <;> exact hr.elim
  have hother : ∀ x ∈ w.db.userSessions.rows, x.id ≠ r.id :=
    Table.get?_eq_none_iff.mp hnone
  refine h.concat hbegan ?_ ?_ fun tokenHash o hcall => absurd hcall (hcreate tokenHash).2
  · intro x hx
    rw [hdb] at hx
    rcases Table.mem_put.mp hx with rfl | ⟨hx, -⟩
    · refine ⟨w.commits.length + 1, ⟨k, by simp, hr⟩, ?_, ?_⟩
      · intro n y hn hy
        have := (List.getElem?_eq_some_iff.mp hy).1
        simp only [List.length_append, List.length_singleton] at this
        omega
      · intro n y hy hcall
        rcases getElem?_concat_cases hy with hy | ⟨-, rfl⟩
        · have hlt := (List.getElem?_eq_some_iff.mp hy).1
          have hle := h.began n y hy
          omega
        · exact absurd hcall (hcreate _).1
    · obtain ⟨p, hp⟩ := h.standing x hx
      refine ⟨p, hp.concat ?_ fun hcall => absurd hcall (hcreate _).1⟩
      rw [hr.opens]
      exact fun heq => hother x hx (Option.some.inj heq).symm
  · intro x p hx
    rcases openedAt_concat hx with hx | ⟨-, hx⟩
    · rcases h.kept x p hx with ⟨y, hy, hxy⟩ | hclosed
      · refine .inl ⟨y, ?_, hxy⟩
        rw [hdb]
        exact Table.mem_put.mpr (.inr ⟨hy, hother y hy⟩)
      · exact .inr (hclosed.append [k])
    · refine .inl ⟨r, ?_, ?_⟩
      · rw [hdb]
        exact Table.mem_put.mpr (.inl rfl)
      · exact hx.unique hr

theorem SessionInv.delete (h : SessionInv db₀ w) {tokenHash : String}
    (hbegan : k.began ≤ w.commits.length) (hcall : k.call = .deleteSession tokenHash)
    (hback : ∀ x ∈ db.userSessions.rows, x ∈ w.db.userSessions.rows ∧
      (x.tokenHash = tokenHash → Reopened w.commits k.began x.id))
    (hforth : ∀ x ∈ w.db.userSessions.rows, x.tokenHash ≠ tokenHash → x ∈ db.userSessions.rows) :
    SessionInv db₀ ⟨db, w.commits ++ [k]⟩ := by
  have hopens : k.call.opens = none := by rw [hcall]; rfl
  refine h.concat hbegan ?_ ?_ ?_
  · intro x hx
    obtain ⟨hmem, hre⟩ := hback x hx
    obtain ⟨p, hp⟩ := h.standing x hmem
    refine ⟨p, hp.concat (by rw [hopens]; exact Option.some_ne_none _ ∘ Eq.symm) fun hdel => ?_⟩
    -- a session with the deleted token that is still there was opened since this call began
    have htoken : x.tokenHash = tokenHash := by
      rw [hcall] at hdel
      exact (MasterCall.deleteSession.inj hdel).symm
    obtain ⟨n, y, hn, hy, hyopens⟩ := hre htoken
    by_contra hle
    exact hp.last n y (by omega) hy hyopens
  · intro r p hr
    rcases openedAt_concat hr with hr | ⟨-, hr⟩
    · by_cases htoken : r.tokenHash = tokenHash
      · exact .inr ⟨w.commits.length, k, hr.le, by simp, by rw [hcall, htoken]⟩
      · rcases h.kept r p hr with ⟨x, hx, hrx⟩ | hclosed
        · exact .inl ⟨x, hforth x hx (hrx.tokenHash ▸ htoken), hrx⟩
        · exact .inr (hclosed.append [k])
    · rw [hr.opens] at hopens
      cases hopens
  · intro tokenHash o hfind
    rw [hcall] at hfind
    cases hfind

theorem rows_of_effect {reply : MasterReply} {after : Table UserSessionRow.id} {c : MasterCall}
    {n : ℕ} (h : SessionEffect db₀ n reply w after c) :
    ∀ y ∈ after.rows, (∃ x ∈ w.db.userSessions.rows, SameSession x y) ∨ c.opens = some y.id := by
  have hsame : after = w.db.userSessions → ∀ y ∈ after.rows,
      (∃ x ∈ w.db.userSessions.rows, SameSession x y) ∨ c.opens = some y.id := by
    rintro rfl y hy
    exact .inl ⟨y, hy, .refl y⟩
  cases c with
  | control c =>
    cases c with
    | createSession d userID tokenHash expiresAt ip userAgent now =>
      obtain ⟨r, hr, -, rfl⟩ := h
      intro y hy
      rcases Table.mem_put.mp hy with rfl | ⟨hy, -⟩
      · exact .inr hr.opens
      · exact .inl ⟨y, hy, .refl y⟩
    | _ => exact hsame h
  | findSession tokenHash => exact hsame h.1
  | touchSession id now =>
    rcases h with h | ⟨x, z, hx, hxz, rfl⟩
    · exact hsame h
    · intro y hy
      rcases Table.mem_put.mp hy with rfl | ⟨hy, -⟩
      · exact .inl ⟨x, Table.mem_of_get? hx, hxz⟩
      · exact .inl ⟨y, hy, .refl y⟩
  | deleteSession tokenHash => exact fun y hy => .inl ⟨y, (h.1 y hy).1, .refl y⟩
  | _ => exact hsame h

theorem SessionInv.effect (h : SessionInv db₀ w) {c : MasterCall} {reply : MasterReply} {n : ℕ}
    (hn : n ≤ w.commits.length) (he : SessionEffect db₀ n reply w db.userSessions c) :
    SessionInv db₀ ⟨db, w.commits ++ [⟨n, c, reply⟩]⟩ := by
  have hquiet : c.opens = none → (∀ tokenHash, c ≠ .deleteSession tokenHash) →
      (∀ tokenHash, c ≠ .findSession tokenHash) → db.userSessions = w.db.userSessions →
      SessionInv db₀ ⟨db, w.commits ++ [⟨n, c, reply⟩]⟩ := by
    intro hopens hdel hfind heq
    refine h.quiet hn hopens hdel (fun y hy => ⟨y, heq ▸ hy, .refl y⟩)
      (fun x hx => ⟨x, heq ▸ hx, .refl x⟩) fun tokenHash o hcall => absurd hcall (hfind tokenHash)
  cases c with
  | control c =>
    cases c with
    | createSession d userID tokenHash expiresAt ip userAgent now =>
      obtain ⟨r, hr, hnone, hdb⟩ := he
      exact h.create hn hr hnone hdb
    | _ => exact hquiet rfl (fun _ h => by cases h) (fun _ h => by cases h) he
  | findSession tokenHash =>
    obtain ⟨heq, hsees⟩ := he
    refine h.quiet hn rfl (fun _ h => by cases h) (fun y hy => ⟨y, heq ▸ hy, .refl y⟩)
      (fun x hx => ⟨x, heq ▸ hx, .refl x⟩) ?_
    intro token o hcall hres
    cases hcall
    exact hsees o hres
  | touchSession id now =>
    rcases he with heq | ⟨x, z, hx, hxz, heq⟩
    · exact hquiet rfl (fun _ h => by cases h) (fun _ h => by cases h) heq
    · refine h.quiet hn rfl (fun _ h => by cases h) ?_ ?_ fun _ _ hcall => by cases hcall
      · intro y hy
        rw [heq] at hy
        rcases Table.mem_put.mp hy with rfl | ⟨hy, -⟩
        · exact ⟨x, Table.mem_of_get? hx, hxz⟩
        · exact ⟨y, hy, .refl y⟩
      · intro y hy
        rw [heq]
        by_cases hid : y.id = z.id
        · have hyx : y = x := by
            have hrow := Table.get?_of_mem hy
            rw [hid, ← hxz.id, hx] at hrow
            exact (Option.some.inj hrow).symm
          exact ⟨z, Table.mem_put.mpr (.inl rfl), hyx ▸ hxz⟩
        · exact ⟨y, Table.mem_put.mpr (.inr ⟨hy, hid⟩), .refl y⟩
  | deleteSession tokenHash => exact h.delete hn rfl he.1 he.2
  | _ => exact hquiet rfl (fun _ h => by cases h) (fun _ h => by cases h) he

end Commit

/-- Agents, the ingest side and operators leave the sessions of users alone. -/
def LeavesSessions (s : MasterSys) (db : MasterDatabase) : Prop :=
  db.userSessions = s.world.db.userSessions

section Runs
variable {db₀ : MasterDatabase} {sha256 : String → String}

theorem session_discipline :
    Sys.Discipline (masterProgram store sha256) (Server.Within LeavesSessions) (SessionInv db₀)
      (fun _ => SessionRely db₀) (fun c n => SessionPost db₀ c n) where
  rely_refl := fun _ _ _ h => .refl h
  rely_trans := fun _ _ _ _ _ h h' => h.trans h'
  start := fun _ c _ _ => session_wp c (le_refl _)
  commit := by
    intro s i c r _ _ _ hinv hpost
    have hnew : SessionInv db₀ (s.afterCommit c r) := hinv.effect hpost.1 hpost.2
    refine ⟨hnew, fun j d _ _ hcomp => ⟨hnew, List.prefix_append _ _, ?_, ?_⟩⟩
    · intro y hy
      rcases rows_of_effect hpost.2 y hy with hx | hopens
      · exact .inl hx
      · exact .inr ⟨s.world.commits.length, ⟨c.began, c.call, r⟩, le_refl _,
          by simp [Sys.afterCommit], hopens⟩
    · exact fun id hid => session_kept hcomp hid s.world.db
  env := by
    intro s db hok hinv
    have heq : db.userSessions = s.world.db.userSessions := hok
    have hnew : SessionInv db₀ { s.world with db := db } :=
      ⟨hinv.began, fun r hr => hinv.standing r (heq ▸ hr), fun r p hr => by
        rw [heq]
        exact hinv.kept r p hr, hinv.found⟩
    refine ⟨hnew, fun j d _ => ⟨hnew, List.prefix_refl _, ?_, ?_⟩⟩
    · intro r hr
      exact .inl ⟨r, heq ▸ hr, .refl r⟩
    · exact fun id _ => by rw [heq]

theorem sessionInv_start (db₀ : MasterDatabase) : SessionInv db₀ ⟨db₀, []⟩ where
  began := by simp
  standing := fun r hr => ⟨0, ⟨r, hr, .refl r⟩, by simp, by simp⟩
  kept := by
    intro r p hr
    cases p with
    | zero =>
      obtain ⟨x, hx, hxr⟩ := hr
      exact .inl ⟨x, hx, ⟨hxr.id.symm, hxr.userID.symm, hxr.tokenHash.symm, hxr.expiresAt.symm⟩⟩
    | succ n =>
      obtain ⟨k, hk, -⟩ := hr
      simp at hk
  found := by simp

theorem sessionInv_of_run {s : MasterSys}
    (h : Sys.Run (masterProgram store sha256) (Server.Within LeavesSessions) ⟨⟨db₀, []⟩, []⟩ s) :
    SessionInv db₀ s.world :=
  (h.sound session_discipline (Sys.sound_of_idle (sessionInv_start db₀))).inv

end Runs

end Gaoming
