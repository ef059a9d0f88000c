import Gaoming.TransactionInterleaving

/-!
# Processes made of transactions

A request handler makes one database call after another and decides from the
outcome of each how to go on. Many requests run at once; their calls interleave
statement by statement as in `Sys`. Each request keeps a trail of the calls it has
made, with the numbers of commits before and after each of them.

A property of a handler is stated along its trails (`Process.Keeps`); it then holds
of every request of every run, and every commit belongs to the trail of a request.
-/

namespace Transaction
variable {DB A K ε ρ Call Req ω α β : Type}

/-- A call that was cancelled, or whose connection was lost, has no error of its own. -/
abbrev Outcome (ε ρ : Type) := Except (Option ε) ρ

inductive Process (Call ε ρ ω : Type) : Type
  | done (out : ω)
  | call (c : Call) (next : Outcome ε ρ → Process Call ε ρ ω)

structure Performed (Call ε ρ : Type) where
  call : Call
  outcome : Outcome ε ρ
  began : ℕ
  ended : ℕ

abbrev Trail (Call ε ρ : Type) := List (Performed Call ε ρ)

namespace Process

def bind : Process Call ε ρ α → (α → Process Call ε ρ β) → Process Call ε ρ β
  | .done a, f => f a
  | .call c next, f => .call c fun o => (next o).bind f

instance : Monad (Process Call ε ρ) where
  pure := .done
  bind := bind

/-- The process can make the calls of the trail, and is then as given. -/
inductive Reaches (p : Process Call ε ρ ω) : Trail Call ε ρ → Process Call ε ρ ω → Prop
  | refl : Reaches p [] p
  | call {tr c next} (h : Reaches p tr (.call c next)) (o : Outcome ε ρ) (began ended : ℕ) :
      Reaches p (tr ++ [⟨c, o, began, ended⟩]) (next o)

/-- Whatever the calls answer, `guard` admits each of them when it is made, and `post` holds of
what the process returns. -/
inductive Keeps (guard : Trail Call ε ρ → Call → Prop) (post : Trail Call ε ρ → ω → Prop) :
    Process Call ε ρ ω → Trail Call ε ρ → Prop
  | done {out tr} (h : post tr out) : Keeps guard post (.done out) tr
  | call {c next tr} (hguard : guard tr c) (hnext : ∀ o began ended,
      Keeps guard post (next o) (tr ++ [⟨c, o, began, ended⟩])) : Keeps guard post (.call c next) tr

section Keeps
variable {guard : Trail Call ε ρ → Call → Prop} {tr : Trail Call ε ρ}

theorem keeps_bind {post : Trail Call ε ρ → β → Prop} {p : Process Call ε ρ α}
    {f : α → Process Call ε ρ β} (h : p.Keeps guard (fun tr a => (f a).Keeps guard post tr) tr) :
    (p >>= f).Keeps guard post tr := by
  induction h with
  | done h => exact h
  | call hguard _ ih => exact .call hguard ih

theorem keeps_ite {post : Trail Call ε ρ → α → Prop} {c : Prop} [Decidable c]
    {p q : Process Call ε ρ α} (hp : c → p.Keeps guard post tr)
    (hq : ¬c → q.Keeps guard post tr) : (if c then p else q).Keeps guard post tr := by
  by_cases h : c
  · rw [if_pos h]
    exact hp h
  · rw [if_neg h]
    exact hq h

theorem Keeps.mono {post post' : Trail Call ε ρ → α → Prop} {p : Process Call ε ρ α}
    (h : p.Keeps guard post tr) (hpost : ∀ tr a, post tr a → post' tr a) :
    p.Keeps guard post' tr := by
  induction h with
  | done h => exact .done (hpost _ _ h)
  | call hguard _ ih => exact .call hguard ih

/-- A trail only grows. -/
theorem Keeps.grows {post : Trail Call ε ρ → α → Prop} {p : Process Call ε ρ α}
    (h : p.Keeps guard post tr) : p.Keeps guard (fun tr' a => tr <+: tr' ∧ post tr' a) tr := by
  induction h with
  | done h => exact .done ⟨List.prefix_refl _, h⟩
  | call hguard _ ih =>
    exact .call hguard fun o began ended => (ih o began ended).mono fun _ _ h =>
      ⟨(List.prefix_append _ _).trans h.1, h.2⟩

theorem Keeps.reaches {post : Trail Call ε ρ → α → Prop} {p q : Process Call ε ρ α}
    (h : p.Keeps guard post []) (hr : p.Reaches tr q) : q.Keeps guard post tr := by
  induction hr with
  | refl => exact h
  | call _ o began ended ih =>
    cases ih with
    | call _ hnext => exact hnext o began ended

/-- Each call of a trail was admitted by the guard when it was made. -/
theorem Keeps.guarded {post : Trail Call ε ρ → α → Prop} {p q : Process Call ε ρ α}
    (h : p.Keeps guard post []) (hr : p.Reaches tr q) {before after : Trail Call ε ρ}
    {x : Performed Call ε ρ} (htr : tr = before ++ x :: after) : guard before x.call := by
  induction hr generalizing after with
  | refl => simp at htr
  | @call tr' c next hr' o began ended ih =>
    rcases List.eq_nil_or_concat after with rfl | ⟨after', y, rfl⟩
    · obtain ⟨rfl, hx⟩ := List.append_inj' htr rfl
      rw [← (List.cons.inj hx).1]
      cases h.reaches hr' with
      | call hguard _ => exact hguard
    · rw [List.concat_eq_append, ← List.cons_append, ← List.append_assoc] at htr
      exact ih (List.append_inj' htr rfl).1

end Keeps
end Process

namespace Tx
variable {B DB' : Type}

/-- A transaction that sees `g` of the database, and whose accesses are those of `f`. -/
def lift (g : DB' → DB) (f : A → B) : Tx DB A ε α → Tx DB' B ε α
  | .done a => .done a
  | .fail e => .fail e
  | .stmt exec next =>
    .stmt (fun db => (exec (g db)).map fun r => (r.1, r.2.map f)) (fun b => (next b).lift g f)

theorem uses_lift {g : DB' → DB} {f : A → B} {q : B → Prop} {p : Tx DB A ε α}
    (h : p.Uses fun a => q (f a)) : (p.lift g f).Uses q := by
  induction p with
  | done a => trivial
  | fail e => trivial
  | stmt exec next ih =>
    intro db b bs he
    change (exec (g db)).map _ = _ at he
    cases hx : exec (g db) with
    | error e =>
      rw [hx] at he
      cases he
    | ok out =>
      rw [hx] at he
      cases he
      obtain ⟨has, hn⟩ := h (g db) out.1 out.2 hx
      exact ⟨List.forall_mem_map.mpr has, ih out.1 hn⟩

theorem lift_mapError {ε' : Type} {g : DB' → DB} {f : A → B} (e : ε → ε') (p : Tx DB A ε α) :
    (p.mapError e).lift g f = (p.lift g f).mapError e := by
  induction p with
  | done a => rfl
  | fail e => rfl
  | stmt exec next ih =>
    simp only [mapError, lift, ih]
    congr 1
    funext db
    cases exec (g db) <;> rfl

theorem lift_bind {g : DB' → DB} {f : A → B} (p : Tx DB A ε α) (k : α → Tx DB A ε β) :
    (p >>= k).lift g f = p.lift g f >>= fun a => (k a).lift g f := by
  change (p.bind k).lift g f = (p.lift g f).bind fun a => (k a).lift g f
  induction p with
  | done a => rfl
  | fail e => rfl
  | stmt exec next ih => simp only [bind, lift, ih]

theorem wp_lift_exec [Storage DB' B K] {g : DB' → DB} {f : A → B}
    {rely : List B → World DB' Call ρ → World DB' Call ρ → Prop}
    {post : β → List B → World DB' Call ρ → Prop} {exec : DB → Except ε (α × List A)}
    {k : α → Tx DB A ε β} {acc : List B} {w : World DB' Call ρ}
    (h : ∀ w', rely acc w w' → ∀ a as, exec (g (view w'.db acc)) = .ok (a, as) →
      ((k a).lift g f).wp rely post (acc ++ as.map f) w') :
    ((Tx.exec exec >>= k).lift g f).wp rely post acc w := by
  intro w' hw b bs he
  change (exec (g (view w'.db acc))).map _ = _ at he
  cases hx : exec (g (view w'.db acc)) with
  | error e =>
    rw [hx] at he
    cases he
  | ok out =>
    rw [hx] at he
    cases he
    exact h w' hw out.1 out.2 hx

end Tx

inductive Progress (Call ε ρ ω : Type)
  | waiting (client started : ℕ) (c : Call) (next : Outcome ε ρ → Process Call ε ρ ω)
  | answered (out : ω)

namespace Progress

def process : Progress Call ε ρ ω → Process Call ε ρ ω
  | .waiting _ _ c next => .call c next
  | .answered out => .done out

def answer? : Progress Call ε ρ ω → Option ω
  | .waiting _ _ _ _ => none
  | .answered out => some out

theorem eq_answered {p : Progress Call ε ρ ω} {out : ω} (h : p.answer? = some out) :
    p = .answered out := by
  cases p with
  | waiting client started c next => cases h
  | answered out' => rw [Option.some.inj h]

end Progress

structure Request (Req Call ε ρ ω : Type) where
  input : Req
  began : ℕ
  trail : Trail Call ε ρ
  progress : Progress Call ε ρ ω

structure Server (DB A ε ρ Call Req ω : Type) : Type 1 where
  sys : Sys DB A ε ρ Call
  requests : List (Request Req Call ε ρ ω)

inductive ServerEvent (DB Req : Type)
  | receive (q : Req)
  | advance (i : ℕ)
  | cancel (i : ℕ)
  | env (db : DB)

def ServerEvent.internal : ServerEvent DB Req → Bool
  | .env _ => false
  | _ => true

/-- How the call number `i` ends with its next step, if it does. -/
def Sys.outcome [Storage DB A K] (s : Sys DB A ε ρ Call) (i : ℕ) : Option (Except ε ρ) :=
  match s.clients[i]? with
  | some (some c) =>
    match c.prog with
    | .done r => some (.ok r)
    | .fail e => some (.error e)
    | .stmt exec _ =>
      match exec (Tx.view s.world.db c.acc) with
      | .error e => some (.error e)
      | .ok _ => none
  | _ => none

namespace Server
variable [Storage DB A K] [DecidableEq K]
variable (prog : Call → Tx DB A ε ρ) (handler : Req → Process Call ε ρ ω)

/-- The next call of a process is started at once. -/
def enter (sys : Sys DB A ε ρ Call) :
    Process Call ε ρ ω → Sys DB A ε ρ Call × Progress Call ε ρ ω
  | .done out => (sys, .answered out)
  | .call c next =>
    ({ sys with clients := sys.clients ++ [some ⟨c, sys.world.commits.length, prog c, []⟩] },
      .waiting sys.clients.length sys.world.commits.length c next)

def resume (s : Server DB A ε ρ Call Req ω) (i : ℕ) (r : Request Req Call ε ρ ω) (started : ℕ)
    (c : Call) (next : Outcome ε ρ → Process Call ε ρ ω) (sys : Sys DB A ε ρ Call)
    (o : Outcome ε ρ) : Server DB A ε ρ Call Req ω where
  sys := (enter prog sys (next o)).1
  requests := s.requests.set i { r with
    trail := r.trail ++ [⟨c, o, started, sys.world.commits.length⟩]
    progress := (enter prog sys (next o)).2 }

def step (s : Server DB A ε ρ Call Req ω) :
    ServerEvent DB Req → Option (Server DB A ε ρ Call Req ω)
  | .receive q => some {
      sys := (enter prog s.sys (handler q)).1
      requests := s.requests ++
        [⟨q, s.sys.world.commits.length, [], (enter prog s.sys (handler q)).2⟩] }
  | .advance i =>
    match s.requests[i]? with
    | some r =>
      match r.progress with
      | .waiting client started c next =>
        (s.sys.step prog (.advance client)).map fun sys =>
          match s.sys.outcome client with
          | none => { s with sys := sys }
          | some o => s.resume prog i r started c next sys (o.mapError some)
      | .answered _ => none
    | none => none
  | .cancel i =>
    match s.requests[i]? with
    | some r =>
      match r.progress with
      | .waiting client started c next =>
        (s.sys.step prog (.cancel client)).map fun sys =>
          s.resume prog i r started c next sys (.error none)
      | .answered _ => none
    | none => none
  | .env db => (s.sys.step prog (.env db)).map fun sys => { s with sys := sys }

/-- Runs in which the outside changes the database only as `adm` allows. -/
inductive Run (adm : Sys DB A ε ρ Call → DB → Prop) (s : Server DB A ε ρ Call Req ω) :
    Server DB A ε ρ Call Req ω → Prop
  | refl : Run adm s s
  | step {t u} (e : ServerEvent DB Req) (h : Run adm s t)
      (hok : ∀ db, e = .env db → adm t.sys db)
      (he : t.step prog handler e = some u) : Run adm s u

def steps : Server DB A ε ρ Call Req ω → List (ServerEvent DB Req) →
    Option (Server DB A ε ρ Call Req ω)
  | s, [] => some s
  | s, e :: es => (s.step prog handler e).bind (steps · es)

def idle (db : DB) : Server DB A ε ρ Call Req ω := ⟨⟨⟨db, []⟩, []⟩, []⟩

section Tracking
variable {prog : Call → Tx DB A ε ρ} {handler : Req → Process Call ε ρ ω}
variable {adm : Sys DB A ε ρ Call → DB → Prop}
variable {s t u : Server DB A ε ρ Call Req ω}

/-- Everything one event can do. -/
inductive Effect (prog : Call → Tx DB A ε ρ) (handler : Req → Process Call ε ρ ω)
    (s : Server DB A ε ρ Call Req ω) :
    ServerEvent DB Req → Server DB A ε ρ Call Req ω → Prop
  | receive (q : Req) : Effect prog handler s (.receive q)
      ⟨(enter prog s.sys (handler q)).1, s.requests ++
        [⟨q, s.sys.world.commits.length, [], (enter prog s.sys (handler q)).2⟩]⟩
  | work (i : ℕ) (r : Request Req Call ε ρ ω) (client started : ℕ) (c : Call)
      (next : Outcome ε ρ → Process Call ε ρ ω) (sys : Sys DB A ε ρ Call)
      (hr : s.requests[i]? = some r) (hp : r.progress = .waiting client started c next)
      (ho : s.sys.outcome client = none) (hs : s.sys.step prog (.advance client) = some sys) :
      Effect prog handler s (.advance i) { s with sys := sys }
  | finish (i : ℕ) (r : Request Req Call ε ρ ω) (client started : ℕ) (c : Call)
      (next : Outcome ε ρ → Process Call ε ρ ω) (sys : Sys DB A ε ρ Call) (o : Except ε ρ)
      (hr : s.requests[i]? = some r) (hp : r.progress = .waiting client started c next)
      (ho : s.sys.outcome client = some o) (hs : s.sys.step prog (.advance client) = some sys) :
      Effect prog handler s (.advance i) (s.resume prog i r started c next sys (o.mapError some))
  | cancel (i : ℕ) (r : Request Req Call ε ρ ω) (client started : ℕ) (c : Call)
      (next : Outcome ε ρ → Process Call ε ρ ω) (sys : Sys DB A ε ρ Call)
      (hr : s.requests[i]? = some r) (hp : r.progress = .waiting client started c next)
      (hs : s.sys.step prog (.cancel client) = some sys) :
      Effect prog handler s (.cancel i) (s.resume prog i r started c next sys (.error none))
  | env (db : DB) (sys : Sys DB A ε ρ Call) (hs : s.sys.step prog (.env db) = some sys) :
      Effect prog handler s (.env db) { s with sys := sys }

theorem effect_of_step {e : ServerEvent DB Req} (h : s.step prog handler e = some t) :
    Effect prog handler s e t := by
  cases e with
  | receive q =>
    simp only [step, Option.some.injEq] at h
    exact h ▸ .receive q
  | advance i =>
    simp only [step] at h
    split at h
    · rename_i r hr
      split at h
      · rename_i client started c next hp
        obtain ⟨sys, hs, rfl⟩ := Option.map_eq_some_iff.mp h
        cases ho : s.sys.outcome client with
        | none => exact .work i r client started c next sys hr hp ho hs
        | some o => exact .finish i r client started c next sys o hr hp ho hs
      · cases h
    · cases h
  | cancel i =>
    simp only [step] at h
    split at h
    · rename_i r hr
      split at h
      · rename_i client started c next hp
        obtain ⟨sys, hs, rfl⟩ := Option.map_eq_some_iff.mp h
        exact .cancel i r client started c next sys hr hp hs
      · cases h
    · cases h
  | env db =>
    simp only [step] at h
    obtain ⟨sys, hs, rfl⟩ := Option.map_eq_some_iff.mp h
    exact .env db sys hs

inductive Advance (sys : Sys DB A ε ρ Call) (i : ℕ) (cl : Client DB A ε ρ Call) :
    Option (Except ε ρ) → Sys DB A ε ρ Call → Prop
  | commit (r : ρ) : Advance sys i cl (some (.ok r))
      ⟨sys.afterCommit cl r, sys.clients.set i none⟩
  | fail (e : ε) : Advance sys i cl (some (.error e))
      { sys with clients := sys.clients.set i none }
  | work (next : Tx DB A ε ρ) (acc : List A) : Advance sys i cl none
      { sys with clients := sys.clients.set i (some { cl with prog := next, acc := acc }) }

theorem advance_of_step {sys sys' : Sys DB A ε ρ Call} {i : ℕ}
    (h : sys.step prog (.advance i) = some sys') :
    ∃ cl, sys.Live i cl ∧ Advance sys i cl (sys.outcome i) sys' := by
  rcases hcl : sys.clients[i]? with _ | _ | cl
  · simp [Sys.step, hcl] at h
  · simp [Sys.step, hcl] at h
  refine ⟨cl, hcl, ?_⟩
  cases hp : cl.prog with
  | done r =>
    have ho : sys.outcome i = some (.ok r) := by simp [Sys.outcome, hcl, hp]
    simp only [Sys.step, hcl, hp, Option.some.injEq] at h
    rw [ho, ← h]
    exact .commit r
  | fail e =>
    have ho : sys.outcome i = some (.error e) := by simp [Sys.outcome, hcl, hp]
    simp only [Sys.step, hcl, hp, Option.some.injEq] at h
    rw [ho, ← h]
    exact .fail e
  | stmt exec next =>
    cases he : exec (Tx.view sys.world.db cl.acc) with
    | error e =>
      have ho : sys.outcome i = some (.error e) := by simp [Sys.outcome, hcl, hp, he]
      simp only [Sys.step, hcl, hp, he, Option.some.injEq] at h
      rw [ho, ← h]
      exact .fail e
    | ok out =>
      have ho : sys.outcome i = none := by simp [Sys.outcome, hcl, hp, he]
      simp only [Sys.step, hcl, hp, he] at h
      split_ifs at h
      rw [ho, ← Option.some.inj h]
      exact .work (next out.1) (cl.acc ++ out.2)

theorem cancel_of_step {sys sys' : Sys DB A ε ρ Call} {i : ℕ}
    (h : sys.step prog (.cancel i) = some sys') :
    (∃ cl, sys.Live i cl) ∧ sys' = { sys with clients := sys.clients.set i none } := by
  simp only [Sys.step] at h
  split at h
  · rename_i cl hcl
    cases h
    exact ⟨⟨cl, hcl⟩, rfl⟩
  · cases h

section Enter
variable {sys : Sys DB A ε ρ Call} {p : Process Call ε ρ ω}

omit [Storage DB A K] [DecidableEq K] in
@[simp] theorem enter_world : (enter prog sys p).1.world = sys.world := by
  cases p <;> rfl

omit [Storage DB A K] [DecidableEq K] in
@[simp] theorem enter_process : (enter prog sys p).2.process = p := by
  cases p <;> rfl

omit [Storage DB A K] [DecidableEq K] in
theorem live_enter {k : ℕ} {cl : Client DB A ε ρ Call} (h : sys.Live k cl) :
    (enter prog sys p).1.Live k cl := by
  cases p with
  | done out => exact h
  | call c next =>
    have hk : k < sys.clients.length := (List.getElem?_eq_some_iff.mp h).1
    simpa only [Sys.Live, enter, List.getElem?_append_left hk] using h

omit [Storage DB A K] [DecidableEq K] in
theorem waiting_enter {k st : ℕ} {c : Call} {next : Outcome ε ρ → Process Call ε ρ ω}
    (h : (enter prog sys p).2 = .waiting k st c next) :
    k = sys.clients.length ∧ st = sys.world.commits.length ∧
      (enter prog sys p).1.Live k ⟨c, st, prog c, []⟩ := by
  cases p with
  | done out => cases h
  | call c next =>
    cases h
    exact ⟨rfl, rfl, by simp [enter, Sys.Live]⟩

theorem run_enter {ok : Sys DB A ε ρ Call → Event DB Call → Prop} {sys₀ : Sys DB A ε ρ Call}
    (hok : ∀ sys c, ok sys (.start c))
    (h : Sys.Run prog ok sys₀ sys) : Sys.Run prog ok sys₀ (enter prog sys p).1 := by
  cases p with
  | done out => exact h
  | call c next => exact .step (.start c) h (hok _ _) rfl

end Enter

def Waits (s : Server DB A ε ρ Call Req ω) (i client started : ℕ) (c : Call)
    (next : Outcome ε ρ → Process Call ε ρ ω) : Prop :=
  ∃ r, s.requests[i]? = some r ∧ r.progress = .waiting client started c next

structure Owned (s : Server DB A ε ρ Call Req ω) : Prop where
  live : ∀ {i k st c next}, s.Waits i k st c next →
    ∃ cl, s.sys.Live k cl ∧ cl.call = c ∧ cl.began = st
  inj : ∀ {i j k st st' c c' next next'}, s.Waits i k st c next → s.Waits j k st' c' next' → i = j

omit [Storage DB A K] [DecidableEq K] in
/-- All requests but the one that just entered `p` keep the calls they wait for. -/
theorem Owned.enter {sys : Sys DB A ε ρ Call} {p : Process Call ε ρ ω} {i : ℕ}
    {requests : List (Request Req Call ε ρ ω)} (h : Owned s)
    (hi : ∀ r, requests[i]? = some r → r.progress = (Server.enter prog sys p).2)
    (hother : ∀ j, j ≠ i → requests[j]? = s.requests[j]?)
    (hlive : ∀ {j k st c next}, j ≠ i → s.Waits j k st c next →
      ∃ cl, sys.Live k cl ∧ cl.call = c ∧ cl.began = st) :
    Owned ⟨(Server.enter prog sys p).1, requests⟩ := by
  have hback : ∀ {j k st c next}, j ≠ i →
      Waits ⟨(Server.enter prog sys p).1, requests⟩ j k st c next → s.Waits j k st c next := by
    rintro j k st c next hj ⟨r, hr, hp⟩
    exact ⟨r, (hother j hj).symm.trans hr, hp⟩
  have hnew : ∀ {k st c next}, Waits ⟨(Server.enter prog sys p).1, requests⟩ i k st c next →
      (Server.enter prog sys p).2 = .waiting k st c next := by
    rintro k st c next ⟨r, hr, hp⟩
    exact (hi r hr).symm.trans hp
  have hlt : ∀ {j k st c next}, j ≠ i →
      Waits ⟨(Server.enter prog sys p).1, requests⟩ j k st c next → k ≠ sys.clients.length := by
    intro j k st c next hj hw
    obtain ⟨cl, hcl, -⟩ := hlive hj (hback hj hw)
    exact ((List.getElem?_eq_some_iff.mp hcl).1).ne
  constructor
  · intro j k st c next hw
    by_cases hj : j = i
    · subst hj
      obtain ⟨-, -, hcl⟩ := waiting_enter (hnew hw)
      exact ⟨_, hcl, rfl, rfl⟩
    · obtain ⟨cl, hcl, hcall⟩ := hlive hj (hback hj hw)
      exact ⟨cl, live_enter hcl, hcall⟩
  · intro j j' k st st' c c' next next' hw hw'
    by_cases hj : j = i
    · by_cases hj' : j' = i
      · exact hj.trans hj'.symm
      · subst hj
        exact absurd (waiting_enter (hnew hw)).1 (hlt hj' hw')
    · by_cases hj' : j' = i
      · subst hj'
        exact absurd (waiting_enter (hnew hw')).1 (hlt hj hw)
      · exact h.inj (hback hj hw) (hback hj' hw')

structure Logged (handler : Req → Process Call ε ρ ω) (commits : List (Commit Call ρ))
    (r : Request Req Call ε ρ ω) : Prop where
  began : r.began ≤ commits.length
  ordered : r.trail.Pairwise fun x y => x.ended ≤ y.began
  times : ∀ x ∈ r.trail, r.began ≤ x.began ∧ x.began ≤ x.ended ∧ x.ended ≤ commits.length
  committed : ∀ x ∈ r.trail, ∀ v, x.outcome = .ok v →
    ∃ n, x.ended = n + 1 ∧ x.began ≤ n ∧ commits[n]? = some ⟨x.began, x.call, v⟩
  waiting : ∀ k st c next, r.progress = .waiting k st c next →
    r.began ≤ st ∧ st ≤ commits.length ∧ ∀ x ∈ r.trail, x.ended ≤ st
  reaches : (handler r.input).Reaches r.trail r.progress.process

structure Tracked (handler : Req → Process Call ε ρ ω) (s : Server DB A ε ρ Call Req ω) : Prop where
  owned : Owned s
  logged : ∀ r ∈ s.requests, Logged handler s.sys.world.commits r
  covered : ∀ n k, s.sys.world.commits[n]? = some k →
    ∃ r ∈ s.requests, ⟨k.call, .ok k.result, k.began, n + 1⟩ ∈ r.trail

theorem Logged.mono {r : Request Req Call ε ρ ω} {commits more : List (Commit Call ρ)}
    (h : Logged handler commits r) : Logged handler (commits ++ more) r where
  began := by
    rw [List.length_append]
    exact h.began.trans (Nat.le_add_right _ _)
  ordered := h.ordered
  times := by
    intro x hx
    obtain ⟨hb, he, hl⟩ := h.times x hx
    rw [List.length_append]
    exact ⟨hb, he, hl.trans (Nat.le_add_right _ _)⟩
  committed := by
    intro x hx v hv
    obtain ⟨n, hn, hb, hk⟩ := h.committed x hx v hv
    refine ⟨n, hn, hb, ?_⟩
    rw [List.getElem?_append_left (List.getElem?_eq_some_iff.mp hk).1]
    exact hk
  waiting := by
    intro k st c next hp
    obtain ⟨hb, hl, hx⟩ := h.waiting k st c next hp
    rw [List.length_append]
    exact ⟨hb, hl.trans (Nat.le_add_right _ _), hx⟩
  reaches := h.reaches

theorem Logged.receive (sys : Sys DB A ε ρ Call) (q : Req) :
    Logged handler sys.world.commits
      ⟨q, sys.world.commits.length, [], (enter prog sys (handler q)).2⟩ where
  began := le_refl _
  ordered := .nil
  times := by simp
  committed := by simp
  waiting := by
    intro k st c next hp
    obtain ⟨-, rfl, -⟩ := waiting_enter hp
    simp
  reaches := by
    rw [enter_process]
    exact .refl

/-- The commit that a call leaves behind. -/
def commitOf (st : ℕ) (c : Call) : Outcome ε ρ → List (Commit Call ρ)
  | .ok v => [⟨st, c, v⟩]
  | .error _ => []

/-- The call a request was waiting for has ended, and its process goes on. -/
theorem Logged.resume {r : Request Req Call ε ρ ω} {commits : List (Commit Call ρ)}
    {k st : ℕ} {c : Call} {next : Outcome ε ρ → Process Call ε ρ ω} {o : Outcome ε ρ}
    {sys : Sys DB A ε ρ Call} (h : Logged handler commits r)
    (hp : r.progress = .waiting k st c next)
    (hc : sys.world.commits = commits ++ commitOf st c o) :
    Logged handler sys.world.commits { r with
      trail := r.trail ++ [⟨c, o, st, sys.world.commits.length⟩]
      progress := (enter prog sys (next o)).2 } := by
  have hl : Logged handler sys.world.commits r := hc ▸ h.mono
  obtain ⟨hb, hst, hx⟩ := hl.waiting k st c next hp
  refine ⟨hl.began, ?_, ?_, ?_, ?_, ?_⟩
  · simpa [List.pairwise_append] using ⟨hl.ordered, hx⟩
  · intro x hmem
    rcases List.mem_append.mp hmem with hmem | hmem
    · exact hl.times x hmem
    · rw [List.mem_singleton.mp hmem]
      exact ⟨hb, hst, le_refl _⟩
  · intro x hmem v hv
    rcases List.mem_append.mp hmem with hmem | hmem
    · exact hl.committed x hmem v hv
    · rw [List.mem_singleton.mp hmem] at hv ⊢
      cases hv
      exact ⟨commits.length, by simp [hc, commitOf], (h.waiting k st c next hp).2.1,
        by simp [hc, commitOf]⟩
  · intro k' st' c' next' hp'
    obtain ⟨-, rfl, -⟩ := waiting_enter hp'
    refine ⟨hl.began, le_refl _, fun x hmem => ?_⟩
    rcases List.mem_append.mp hmem with hmem | hmem
    · exact (hl.times x hmem).2.2
    · rw [List.mem_singleton.mp hmem]
  · rw [enter_process]
    have hr := hl.reaches
    rw [hp] at hr
    exact .call hr o st _

theorem Tracked.receive (h : Tracked handler s) (q : Req) :
    Tracked handler ⟨(enter prog s.sys (handler q)).1, s.requests ++
      [⟨q, s.sys.world.commits.length, [], (enter prog s.sys (handler q)).2⟩]⟩ where
  owned := by
    refine h.owned.enter (i := s.requests.length) ?_ ?_ fun _ hw => h.owned.live hw
    · intro r hr
      simp only [List.getElem?_concat_length, Option.some.injEq] at hr
      rw [← hr]
    · intro j hj
      rw [List.getElem?_append]
      split_ifs with hlt
      · rfl
      · have hgt : s.requests.length < j := by omega
        rw [List.getElem?_eq_none hgt.le, List.getElem?_eq_none]
        simp only [List.length_singleton]
        omega
  logged := by
    intro r hr
    rw [enter_world]
    rcases List.mem_append.mp hr with hr | hr
    · exact h.logged r hr
    · exact List.mem_singleton.mp hr ▸ .receive s.sys q
  covered := by
    intro n k hk
    rw [enter_world] at hk
    obtain ⟨r, hr, hx⟩ := h.covered n k hk
    exact ⟨r, List.mem_append_left _ hr, hx⟩

theorem Tracked.resume (h : Tracked handler s) {i k st : ℕ} {c : Call} {o : Outcome ε ρ}
    {r : Request Req Call ε ρ ω} {next : Outcome ε ρ → Process Call ε ρ ω}
    {sys : Sys DB A ε ρ Call} (hr : s.requests[i]? = some r)
    (hp : r.progress = .waiting k st c next)
    (hc : sys.world.commits = s.sys.world.commits ++ commitOf st c o)
    (hclients : sys.clients = s.sys.clients.set k none) :
    Tracked handler (s.resume prog i r st c next sys o) where
  owned := by
    refine h.owned.enter (i := i) ?_ (fun j hj => List.getElem?_set_ne (Ne.symm hj)) ?_
    · intro r' hr'
      simp only [List.getElem?_set, (List.getElem?_eq_some_iff.mp hr).1] at hr'
      simp only [if_true, Option.some.injEq] at hr'
      rw [← hr']
    · intro j k' st' c' next' hj hw
      obtain ⟨cl, hcl, hcall⟩ := h.owned.live hw
      refine ⟨cl, ?_, hcall⟩
      have hne : k ≠ k' := by
        rintro rfl
        exact hj (h.owned.inj hw ⟨r, hr, hp⟩)
      rw [Sys.Live, hclients, List.getElem?_set_ne hne]
      exact hcl
  logged := by
    intro r' hr'
    change Logged handler (enter prog sys (next o)).1.world.commits r'
    rw [enter_world]
    rcases List.mem_or_eq_of_mem_set hr' with hr' | rfl
    · exact hc ▸ (h.logged r' hr').mono
    · exact (h.logged r (List.mem_of_getElem? hr)).resume hp hc
  covered := by
    intro n k' hk'
    change (enter prog sys (next o)).1.world.commits[n]? = some k' at hk'
    rw [enter_world] at hk'
    have hi : i < s.requests.length := (List.getElem?_eq_some_iff.mp hr).1
    rw [hc, List.getElem?_append] at hk'
    split_ifs at hk' with hn
    · obtain ⟨r', hr', hx⟩ := h.covered n k' hk'
      obtain ⟨j, hj⟩ := List.getElem?_of_mem hr'
      by_cases hij : i = j
      · subst hij
        cases hr.symm.trans hj
        exact ⟨_, List.mem_set hi _, List.mem_append_left _ hx⟩
      · refine ⟨r', List.mem_of_getElem? (i := j) ?_, hx⟩
        change (s.requests.set i _)[j]? = some r'
        rw [List.getElem?_set_ne hij]
        exact hj
    · cases o with
      | error e => simp [commitOf] at hk'
      | ok v =>
        have hzero : n - s.sys.world.commits.length = 0 := by
          by_contra hne
          simp [commitOf, hne] at hk'
        simp only [commitOf, hzero, List.getElem?_cons_zero, Option.some.injEq] at hk'
        subst hk'
        refine ⟨_, List.mem_set hi _, List.mem_append_right _ (List.mem_singleton.mpr ?_)⟩
        have hlen : sys.world.commits.length = n + 1 := by
          simp only [hc, commitOf, List.length_append, List.length_singleton]
          omega
        rw [hlen]

theorem Tracked.of_world (h : Tracked handler s) {sys : Sys DB A ε ρ Call}
    (hc : sys.world.commits = s.sys.world.commits)
    (hlive : ∀ {k cl}, s.sys.Live k cl →
      ∃ cl', sys.Live k cl' ∧ cl'.call = cl.call ∧ cl'.began = cl.began) :
    Tracked handler { s with sys := sys } where
  owned := by
    refine ⟨fun hw => ?_, h.owned.inj⟩
    obtain ⟨cl, hcl, hcall, hbegan⟩ := h.owned.live hw
    obtain ⟨cl', hcl', hcall', hbegan'⟩ := hlive hcl
    exact ⟨cl', hcl', hcall'.trans hcall, hbegan'.trans hbegan⟩
  logged := by
    intro r hr
    change Logged handler sys.world.commits r
    exact hc ▸ h.logged r hr
  covered := by
    intro n k hk
    change sys.world.commits[n]? = some k at hk
    exact h.covered n k (hc ▸ hk)

theorem Tracked.step (h : Tracked handler s) {e : ServerEvent DB Req}
    (he : s.step prog handler e = some t) : Tracked handler t := by
  cases effect_of_step he with
  | receive q => exact h.receive q
  | work i r client started c next sys hr hp ho hs =>
    obtain ⟨cl, hcl, hadv⟩ := advance_of_step hs
    rw [ho] at hadv
    cases hadv with
    | work next' acc =>
      refine h.of_world rfl fun {k cl'} hk => ?_
      by_cases hkc : client = k
      · subst hkc
        cases hcl.symm.trans hk
        refine ⟨{ cl with prog := next', acc := acc }, ?_, rfl, rfl⟩
        simp [Sys.Live, (List.getElem?_eq_some_iff.mp hcl).1]
      · refine ⟨cl', ?_, rfl, rfl⟩
        rw [Sys.Live, List.getElem?_set_ne hkc]
        exact hk
  | finish i r client started c next sys o hr hp ho hs =>
    obtain ⟨cl, hcl, hadv⟩ := advance_of_step hs
    obtain ⟨cl', hcl', hcall, hbegan⟩ := h.owned.live ⟨r, hr, hp⟩
    cases hcl.symm.trans hcl'
    rw [ho] at hadv
    cases hadv with
    | commit v => exact h.resume hr hp (by rw [← hcall, ← hbegan]; rfl) rfl
    | fail e => exact h.resume hr hp (List.append_nil _).symm rfl
  | cancel i r client started c next sys hr hp hs =>
    obtain ⟨-, rfl⟩ := cancel_of_step hs
    exact h.resume hr hp (List.append_nil _).symm rfl
  | env db sys hs =>
    cases hs
    exact h.of_world rfl fun hk => ⟨_, hk, rfl, rfl⟩

theorem tracked_idle (db : DB) : Tracked handler (idle db : Server DB A ε ρ Call Req ω) where
  owned := ⟨fun ⟨r, hr, _⟩ => by simp [idle] at hr, fun ⟨r, hr, _⟩ => by simp [idle] at hr⟩
  logged := by simp [idle]
  covered := by simp [idle]

theorem Run.tracked (h : Run prog handler adm s t) (hs : Tracked handler s) :
    Tracked handler t := by
  induction h with
  | refl => exact hs
  | step e _ _ he ih => exact ih.step he

/-- The outside changes the database only as `adm` allows. -/
def Within (adm : Sys DB A ε ρ Call → DB → Prop) (s : Sys DB A ε ρ Call) :
    Event DB Call → Prop
  | .env db => adm s db
  | _ => True

/-- Below the requests there is a run of the transactions. -/
theorem Run.sys (h : Run prog handler adm s t) : Sys.Run prog (Within adm) s.sys t.sys := by
  induction h with
  | refl => exact .refl
  | step e _ hok he ih =>
    cases effect_of_step he with
    | receive q => exact run_enter (fun _ _ => trivial) ih
    | work i r client started c next sys hr hp ho hs =>
      exact .step (.advance client) ih trivial hs
    | finish i r client started c next sys o hr hp ho hs =>
      exact run_enter (fun _ _ => trivial) (.step (.advance client) ih trivial hs)
    | cancel i r client started c next sys hr hp hs =>
      exact run_enter (fun _ _ => trivial) (.step (.cancel client) ih trivial hs)
    | env db sys hs => exact .step (.env db) ih (hok db rfl) hs

theorem Run.trans (h : Run prog handler adm s t) (h' : Run prog handler adm t u) :
    Run prog handler adm s u := by
  induction h' with
  | refl => exact h
  | step e _ hok he ih => exact .step e ih hok he

theorem run_of_steps {es : List (ServerEvent DB Req)} (hes : es.all ServerEvent.internal = true)
    (h : s.steps prog handler es = some t) : Run prog handler adm s t := by
  induction es generalizing s with
  | nil =>
    cases h
    exact .refl
  | cons e es ih =>
    obtain ⟨s', he, h⟩ := Option.bind_eq_some_iff.mp h
    rw [List.all_cons, Bool.and_eq_true] at hes
    have hstep : Run prog handler adm s s' := by
      refine .step e .refl (fun db hdb => ?_) he
      rw [hdb] at hes
      cases hes.1
    exact hstep.trans (ih hes.2 h)

/-- A fact about the replies of a call, whatever happens beside it. -/
theorem Run.results {db : DB} {P : Call → ρ → Prop} (hP : ∀ c (w : World DB Call ρ),
      (prog c).wp (fun _ _ _ => True) (fun r _ _ => P c r) [] w)
    (h : Run prog handler adm (idle db) s) : ∀ k ∈ s.sys.world.commits, P k.call k.result := by
  have hD : Sys.Discipline prog (Within adm)
      (fun w => ∀ k ∈ w.commits, P k.call k.result) (fun _ _ _ _ => True)
      (fun c _ r _ _ => P c r) :=
    { rely_refl := fun _ _ _ _ => trivial
      rely_trans := fun _ _ _ _ _ _ _ => trivial
      start := fun t c _ _ => hP c t.world
      commit := by
        intro t i c r _ _ _ hinv hr
        refine ⟨fun k hk => ?_, fun _ _ _ _ _ => trivial⟩
        rcases List.mem_append.mp hk with hk | hk
        · exact hinv k hk
        · rw [List.mem_singleton.mp hk]
          exact hr
      env := fun _ _ _ hinv => ⟨hinv, fun _ _ _ => trivial⟩ }
  exact (h.sys.sound hD (Sys.sound_of_idle fun _ hk => by cases hk)).inv

section Handlers
variable {guard : Req → Trail Call ε ρ → Call → Prop} {post : Req → Trail Call ε ρ → ω → Prop}

/-- Every commit was made by a request whose earlier calls the guard accepts. -/
theorem Tracked.guarded (h : Tracked handler s)
    (hk : ∀ q, (handler q).Keeps (guard q) (post q) []) {n : ℕ} {k : Commit Call ρ}
    (hn : s.sys.world.commits[n]? = some k) :
    ∃ r ∈ s.requests, ∃ before after,
      r.trail = before ++ ⟨k.call, .ok k.result, k.began, n + 1⟩ :: after ∧
        guard r.input before k.call := by
  obtain ⟨r, hr, hx⟩ := h.covered n k hn
  obtain ⟨before, after, htrail⟩ := List.append_of_mem hx
  exact ⟨r, hr, before, after, htrail, (hk r.input).guarded (h.logged r hr).reaches htrail⟩

theorem Tracked.answered (h : Tracked handler s)
    (hk : ∀ q, (handler q).Keeps (guard q) (post q) []) {r : Request Req Call ε ρ ω}
    (hr : r ∈ s.requests) {out : ω} (hout : r.progress = .answered out) :
    post r.input r.trail out := by
  have hreach := (h.logged r hr).reaches
  rw [hout] at hreach
  cases (hk r.input).reaches hreach with
  | done h => exact h

end Handlers

end Tracking

end Server
end Transaction
