import Gaoming.TransactionProof

/-!
# Interleaved transactions

READ COMMITTED at statement granularity. A statement sees the committed
database with its own transaction's accesses on top; it waits while another
running transaction holds a conflicting lock, and every lock is held to the end
of its transaction. A commit publishes all accesses at once. A call may be
cancelled at any point, which is also how a deadlock ends.

A run may be restricted by a condition `ok` on each event and the state it
happens in; results about runs are derived from one condition per call (`wp`)
and one per commit (`Discipline`).
-/

namespace Transaction
variable {DB A K ε ρ Call : Type}

structure Client (DB A ε ρ Call : Type) : Type 1 where
  call : Call
  began : ℕ
  prog : Tx DB A ε ρ
  acc : List A

/-- A call that is over leaves `none` behind, so that clients keep their numbers. -/
structure Sys (DB A ε ρ Call : Type) : Type 1 where
  world : World DB Call ρ
  clients : List (Option (Client DB A ε ρ Call))

inductive Event (DB Call : Type)
  | start (c : Call)
  | advance (i : ℕ)
  | cancel (i : ℕ)
  | env (db : DB)

section Step
variable [Storage DB A K] [DecidableEq K]

variable (DB) in
def conflict (a b : A) : Bool :=
  Storage.key DB a = Storage.key DB b && (Storage.mode DB a).conflicts (Storage.mode DB b)

variable (DB) in
/-- No access of one list waits for an access of the other. -/
def Compatible (as bs : List A) : Prop := ∀ a ∈ as, ∀ b ∈ bs, conflict DB a b = false

instance (as bs : List A) : Decidable (Compatible DB as bs) :=
  inferInstanceAs (Decidable (∀ a ∈ as, ∀ b ∈ bs, conflict DB a b = false))

namespace Sys

/-- Call number `i` is still running, as `c`. -/
abbrev Live (s : Sys DB A ε ρ Call) (i : ℕ) (c : Client DB A ε ρ Call) : Prop :=
  s.clients[i]? = some (some c)

def free (s : Sys DB A ε ρ Call) (i : ℕ) (as : List A) : Bool :=
  s.clients.zipIdx.all fun
    | (some c, j) => j = i || decide (Compatible DB as c.acc)
    | (none, _) => true

def step (prog : Call → Tx DB A ε ρ) (s : Sys DB A ε ρ Call) :
    Event DB Call → Option (Sys DB A ε ρ Call)
  | .start call =>
    some { s with clients :=
      s.clients ++ [some ⟨call, s.world.commits.length, prog call, []⟩] }
  | .advance i =>
    match s.clients[i]? with
    | some (some c) =>
      match c.prog with
      | .done r => some {
          world := ⟨Tx.view s.world.db c.acc, s.world.commits ++ [⟨c.began, c.call, r⟩]⟩
          clients := s.clients.set i none }
      | .fail _ => some { s with clients := s.clients.set i none }
      | .stmt exec next =>
        match exec (Tx.view s.world.db c.acc) with
        | .error _ => some { s with clients := s.clients.set i none }
        | .ok (b, as) =>
          if s.free i as then
            some { s with clients :=
              s.clients.set i (some { c with prog := next b, acc := c.acc ++ as }) }
          else none
    | _ => none
  | .cancel i =>
    match s.clients[i]? with
    | some (some _) => some { s with clients := s.clients.set i none }
    | _ => none
  | .env db => some { s with world := { s.world with db := db } }

def steps (prog : Call → Tx DB A ε ρ) :
    Sys DB A ε ρ Call → List (Event DB Call) → Option (Sys DB A ε ρ Call)
  | s, [] => some s
  | s, e :: es => (s.step prog e).bind (steps prog · es)

/-- Runs whose every event satisfies `ok` in the state it happens in. -/
inductive Run (prog : Call → Tx DB A ε ρ) (ok : Sys DB A ε ρ Call → Event DB Call → Prop)
    (s : Sys DB A ε ρ Call) : Sys DB A ε ρ Call → Prop
  | refl : Run prog ok s s
  | step {t u} (e : Event DB Call) (h : Run prog ok s t) (hok : ok t e)
      (he : t.step prog e = some u) : Run prog ok s u

variable {prog : Call → Tx DB A ε ρ} {ok : Sys DB A ε ρ Call → Event DB Call → Prop}
variable {s t u : Sys DB A ε ρ Call}

theorem Run.trans (h : Run prog ok s t) (h' : Run prog ok t u) : Run prog ok s u := by
  induction h' with
  | refl => exact h
  | step e _ hok he ih => exact .step e ih hok he

/-- The call number `i`, if its next step is its commit. -/
def committing (s : Sys DB A ε ρ Call) (i : ℕ) : Option (Client DB A ε ρ Call) :=
  match s.clients[i]? with
  | some (some c) =>
    match c.prog with
    | .done _ => some c
    | _ => none
  | _ => none

/-- The error of call number `i`, if its next step is its failure. -/
def failing (s : Sys DB A ε ρ Call) (i : ℕ) : Option ε :=
  match s.clients[i]? with
  | some (some c) =>
    match c.prog with
    | .done _ => none
    | .fail e => some e
    | .stmt exec _ =>
      match exec (Tx.view s.world.db c.acc) with
      | .error e => some e
      | .ok _ => none
  | _ => none

/-- The calls that run beside call number `i`. -/
def others (s : Sys DB A ε ρ Call) (i : ℕ) : List (Client DB A ε ρ Call) :=
  s.clients.zipIdx.filterMap fun
    | (some c, j) => if j = i then none else some c
    | (none, _) => none

omit [Storage DB A K] [DecidableEq K] in
theorem committing_eq_some {i : ℕ} {c : Client DB A ε ρ Call} :
    s.committing i = some c ↔ s.Live i c ∧ ∃ r, c.prog = .done r := by
  unfold committing
  split
  · rename_i d hd
    constructor
    · intro h
      split at h
      · rename_i r hr
        cases h
        exact ⟨hd, r, hr⟩
      · cases h
    · rintro ⟨hc, r, hr⟩
      rw [Live, hd] at hc
      cases hc
      simp [hr]
  · rename_i hno
    simp only [reduceCtorEq, false_iff, not_and]
    exact fun hc => absurd hc (hno c)

omit [Storage DB A K] [DecidableEq K] in
theorem mem_others {i : ℕ} {d : Client DB A ε ρ Call} :
    d ∈ s.others i ↔ ∃ j, j ≠ i ∧ s.Live j d := by
  simp only [others, List.mem_filterMap]
  constructor
  · rintro ⟨⟨_ | c, j⟩, hm, h⟩
    · cases h
    · dsimp only at h
      split_ifs at h with hji
      cases h
      exact ⟨j, hji, by simpa using List.mem_zipIdx_iff_getElem?.mp hm⟩
  · rintro ⟨j, hji, hj⟩
    exact ⟨(some d, j), List.mem_zipIdx_iff_getElem?.mpr (by simpa using hj), by simp [hji]⟩

/-- The events are all possible, and each meets the condition where it happens. -/
def admits (prog : Call → Tx DB A ε ρ) (ok : Sys DB A ε ρ Call → Event DB Call → Prop)
    [∀ s e, Decidable (ok s e)] : Sys DB A ε ρ Call → List (Event DB Call) → Bool
  | _, [] => true
  | s, e :: es => decide (ok s e) &&
    match s.step prog e with
    | none => false
    | some t => admits prog ok t es

theorem run_of_admits [∀ s e, Decidable (ok s e)] {es : List (Event DB Call)}
    (h : s.admits prog ok es = true) : ∃ t, s.steps prog es = some t ∧ Run prog ok s t := by
  induction es generalizing s with
  | nil => exact ⟨s, rfl, .refl⟩
  | cons e es ih =>
    rw [admits, Bool.and_eq_true, decide_eq_true_eq] at h
    obtain ⟨hok, h⟩ := h
    cases hm : s.step prog e with
    | none => simp [hm] at h
    | some m =>
      rw [hm] at h
      obtain ⟨t, ht, hrun⟩ := ih h
      exact ⟨t, by simp [steps, hm, ht], (Run.step e .refl hok hm).trans hrun⟩

theorem free_iff {i : ℕ} {as : List A} : s.free i as = true ↔
    ∀ j c, s.Live j c → j ≠ i → Compatible DB as c.acc := by
  simp only [free, List.all_eq_true]
  constructor
  · intro h j c hj hne
    have := h (some c, j) (List.mem_zipIdx_iff_getElem?.mpr (by simpa using hj))
    simpa [hne] using this
  · rintro h ⟨_ | c, j⟩ hm
    · rfl
    · have hj : s.Live j c := by simpa using List.mem_zipIdx_iff_getElem?.mp hm
      by_cases hne : j = i
      · simp [hne]
      · simp [h j c hj hne]

/-- Everything one event can do. -/
inductive Effect (prog : Call → Tx DB A ε ρ) (s : Sys DB A ε ρ Call) :
    Event DB Call → Sys DB A ε ρ Call → Prop
  | start (call : Call) : Effect prog s (.start call)
      { s with clients := s.clients ++ [some ⟨call, s.world.commits.length, prog call, []⟩] }
  | commit (i : ℕ) (c : Client DB A ε ρ Call) (r : ρ) (hc : s.Live i c)
      (hp : c.prog = .done r) : Effect prog s (.advance i)
        { world := ⟨Tx.view s.world.db c.acc, s.world.commits ++ [⟨c.began, c.call, r⟩]⟩
          clients := s.clients.set i none }
  | stmt (i : ℕ) (c : Client DB A ε ρ Call) {β : Type} (exec : DB → Except ε (β × List A))
      (next : β → Tx DB A ε ρ) (b : β) (as : List A)
      (hc : s.Live i c) (hp : c.prog = .stmt exec next)
      (he : exec (Tx.view s.world.db c.acc) = .ok (b, as)) (hfree : s.free i as = true) :
      Effect prog s (.advance i)
        { s with clients := s.clients.set i (some { c with prog := next b, acc := c.acc ++ as }) }
  | finish (i : ℕ) (e : Event DB Call) (he : e = .advance i ∨ e = .cancel i) :
      Effect prog s e { s with clients := s.clients.set i none }
  | env (db : DB) : Effect prog s (.env db) { s with world := { s.world with db := db } }

theorem effect_of_step {e : Event DB Call} (h : s.step prog e = some t) :
    Effect prog s e t := by
  cases e with
  | start call =>
    simp only [step, Option.some.injEq] at h
    exact h ▸ .start call
  | cancel i =>
    simp only [step] at h
    split at h
    · simp only [Option.some.injEq] at h
      exact h ▸ .finish i _ (.inr rfl)
    · cases h
  | env db =>
    simp only [step, Option.some.injEq] at h
    exact h ▸ .env db
  | advance i =>
    simp only [step] at h
    split at h
    · rename_i c hc
      split at h
      · rename_i r hp
        simp only [Option.some.injEq] at h
        exact h ▸ .commit i c r hc hp
      · simp only [Option.some.injEq] at h
        exact h ▸ .finish i _ (.inl rfl)
      · rename_i β exec next hp
        split at h
        · simp only [Option.some.injEq] at h
          exact h ▸ .finish i _ (.inl rfl)
        · rename_i b as he
          split_ifs at h with hfree
          simp only [Option.some.injEq] at h
          exact h ▸ .stmt i c exec next b as hc hp he hfree
    · cases h

theorem world_of_failing {i : ℕ} {e : ε} (he : s.failing i = some e)
    (h : s.step prog (.advance i) = some t) : t.world = s.world := by
  cases effect_of_step h with
  | commit i c r hc hp => simp [failing, hc, hp] at he
  | stmt i c exec next b as hc hp hx hfree => rfl
  | finish i e => rfl

def afterCommit (s : Sys DB A ε ρ Call) (c : Client DB A ε ρ Call) (r : ρ) : World DB Call ρ :=
  ⟨Tx.view s.world.db c.acc, s.world.commits ++ [⟨c.began, c.call, r⟩]⟩

/-- What has to be shown of the calls, the commits and the outside changes of a system. -/
structure Discipline (prog : Call → Tx DB A ε ρ) (ok : Sys DB A ε ρ Call → Event DB Call → Prop)
    (inv : World DB Call ρ → Prop)
    (rely : Call → List A → World DB Call ρ → World DB Call ρ → Prop)
    (post : Call → ℕ → ρ → List A → World DB Call ρ → Prop) : Prop where
  rely_refl : ∀ c acc w, inv w → rely c acc w w
  rely_trans : ∀ c acc u v w, rely c acc u v → rely c acc v w → rely c acc u w
  start : ∀ s c, ok s (.start c) → inv s.world →
    (prog c).wp (rely c) (post c s.world.commits.length) [] s.world
  commit : ∀ s i c r, ok s (.advance i) → s.Live i c → c.prog = .done r →
    inv s.world → post c.call c.began r c.acc s.world → inv (s.afterCommit c r) ∧
      ∀ j d, j ≠ i → s.Live j d → Compatible DB c.acc d.acc →
        rely d.call d.acc s.world (s.afterCommit c r)
  env : ∀ s db, ok s (.env db) → inv s.world → inv { s.world with db := db } ∧
      ∀ j d, s.Live j d → rely d.call d.acc s.world { s.world with db := db }

/-- What then holds in every state a run reaches. -/
structure Sound (inv : World DB Call ρ → Prop)
    (rely : Call → List A → World DB Call ρ → World DB Call ρ → Prop)
    (post : Call → ℕ → ρ → List A → World DB Call ρ → Prop) (s : Sys DB A ε ρ Call) : Prop where
  inv : inv s.world
  compatible : ∀ i j c d, i ≠ j → s.Live i c → s.Live j d →
    Compatible DB c.acc d.acc
  wp : ∀ i c, s.Live i c →
    c.prog.wp (rely c.call) (post c.call c.began) c.acc s.world

section Soundness
variable {inv : World DB Call ρ → Prop}
variable {rely : Call → List A → World DB Call ρ → World DB Call ρ → Prop}
variable {post : Call → ℕ → ρ → List A → World DB Call ρ → Prop}

theorem sound_of_idle {w : World DB Call ρ} (h : inv w) :
    Sound inv rely post (⟨w, []⟩ : Sys DB A ε ρ Call) :=
  ⟨h, by simp, by simp⟩

theorem getElem?_set_none {l : List (Option (Client DB A ε ρ Call))} {i j : ℕ}
    {c : Client DB A ε ρ Call} (h : (l.set i none)[j]? = some (some c)) :
    j ≠ i ∧ l[j]? = some (some c) := by
  rw [List.getElem?_set] at h
  split_ifs at h with hij
  all_goals simp_all
  exact fun h => hij h.symm

theorem Sound.of_finish (h : Sound inv rely post s) (i : ℕ) :
    Sound inv rely post { s with clients := s.clients.set i none } where
  inv := h.inv
  compatible := fun j k c d hne hj hk =>
    h.compatible j k c d hne (getElem?_set_none hj).2 (getElem?_set_none hk).2
  wp := fun j c hj => h.wp j c (getElem?_set_none hj).2

theorem Sound.commit_post (D : Discipline prog ok inv rely post) (h : Sound inv rely post s)
    {i : ℕ} {c : Client DB A ε ρ Call} {r : ρ} (hc : s.Live i c)
    (hp : c.prog = .done r) : post c.call c.began r c.acc s.world := by
  have hw := h.wp i c hc
  rw [hp] at hw
  exact hw s.world (D.rely_refl _ _ _ h.inv)

theorem compatible_comm {as bs : List A} (h : Compatible DB as bs) : Compatible DB bs as := by
  intro b hb a ha
  have := h a ha b hb
  simp only [conflict, Bool.and_eq_false_imp, decide_eq_true_eq] at this ⊢
  intro hk
  have hm := this hk.symm
  cases ha : Storage.mode DB a <;> cases hb : Storage.mode DB b <;> simp_all [Mode.conflicts]

theorem compatible_append {as bs cs : List A} :
    Compatible DB (as ++ bs) cs ↔ Compatible DB as cs ∧ Compatible DB bs cs := by
  simp only [Compatible, List.mem_append, or_imp, forall_and]

theorem Sound.of_stmt (D : Discipline prog ok inv rely post) (h : Sound inv rely post s)
    {i : ℕ} {c : Client DB A ε ρ Call} {β : Type} {exec : DB → Except ε (β × List A)}
    {next : β → Tx DB A ε ρ} {b : β} {as : List A} (hc : s.Live i c)
    (hp : c.prog = .stmt exec next) (he : exec (Tx.view s.world.db c.acc) = .ok (b, as))
    (hfree : s.free i as = true) :
    Sound inv rely post
      { s with
        clients := s.clients.set i (some { c with prog := next b, acc := c.acc ++ as }) } := by
  have hother : ∀ j d, j ≠ i → s.Live j d →
      Compatible DB (c.acc ++ as) d.acc := fun j d hne hj =>
    compatible_append.mpr ⟨h.compatible i j c d (Ne.symm hne) hc hj, free_iff.mp hfree j d hj hne⟩
  have hi : i < s.clients.length := (List.getElem?_eq_some_iff.mp hc).1
  refine ⟨h.inv, ?_, ?_⟩
  · intro j k d e hne hj hk
    simp only [Live, List.getElem?_set] at hj hk
    split_ifs at hj hk with hij hik hik
    · exact absurd (hij.symm.trans hik) hne
    · simp only [Option.some.injEq] at hj
      exact hj ▸ hother k e (Ne.symm hik) hk
    · simp only [Option.some.injEq] at hk
      exact hk ▸ compatible_comm (hother j d (Ne.symm hij) hj)
    · exact h.compatible j k d e hne hj hk
  · intro j d hj
    simp only [Live, List.getElem?_set] at hj
    split_ifs at hj with hij
    · simp only [Option.some.injEq] at hj
      have hw := h.wp i c hc
      rw [hp] at hw
      exact hj ▸ hw s.world (D.rely_refl _ _ _ h.inv) b as he
    · exact h.wp j d hj

theorem Sound.of_commit (D : Discipline prog ok inv rely post) (h : Sound inv rely post s)
    {i : ℕ} {c : Client DB A ε ρ Call} {r : ρ} (hok : ok s (.advance i))
    (hc : s.Live i c) (hp : c.prog = .done r) :
    Sound inv rely post ⟨s.afterCommit c r, s.clients.set i none⟩ := by
  obtain ⟨hinv, hrely⟩ := D.commit s i c r hok hc hp h.inv (h.commit_post D hc hp)
  refine ⟨hinv, (h.of_finish i).compatible, fun j d hj => ?_⟩
  obtain ⟨hne, hd⟩ := getElem?_set_none hj
  exact Tx.wp_of_rely (D.rely_trans d.call) (h.wp j d hd)
    (hrely j d hne hd (h.compatible i j c d (Ne.symm hne) hc hd))

theorem Sound.of_start (D : Discipline prog ok inv rely post) (h : Sound inv rely post s)
    {c : Call} (hok : ok s (.start c)) :
    Sound inv rely post
      { s with clients := s.clients ++ [some ⟨c, s.world.commits.length, prog c, []⟩] } := by
  have hget : ∀ j (d : Client DB A ε ρ Call),
      (s.clients ++ [some ⟨c, s.world.commits.length, prog c, []⟩])[j]? = some (some d) →
      s.Live j d ∨
        j = s.clients.length ∧ d = ⟨c, s.world.commits.length, prog c, []⟩ := by
    intro j d hj
    rw [List.getElem?_append] at hj
    split_ifs at hj with hlt
    · exact .inl hj
    · refine .inr ?_
      have hj0 : j - s.clients.length = 0 := by
        by_contra hne
        simp [hne] at hj
      simp only [hj0, List.getElem?_cons_zero, Option.some.injEq] at hj
      exact ⟨by omega, hj.symm⟩
  refine ⟨h.inv, ?_, ?_⟩
  · intro i j d e hne hi hj
    rcases hget i d hi with hi | ⟨hi, rfl⟩
    · rcases hget j e hj with hj | ⟨hj, rfl⟩
      · exact h.compatible i j d e hne hi hj
      · simp [Compatible]
    · simp [Compatible]
  · intro j d hj
    rcases hget j d hj with hj | ⟨-, rfl⟩
    · exact h.wp j d hj
    · exact D.start s c hok h.inv

theorem Sound.of_env (D : Discipline prog ok inv rely post) (h : Sound inv rely post s)
    {db : DB} (hok : ok s (.env db)) :
    Sound inv rely post { s with world := { s.world with db := db } } := by
  obtain ⟨hinv, hrely⟩ := D.env s db hok h.inv
  exact ⟨hinv, h.compatible, fun j d hj =>
    Tx.wp_of_rely (D.rely_trans d.call) (h.wp j d hj) (hrely j d hj)⟩

theorem Sound.step (D : Discipline prog ok inv rely post) (h : Sound inv rely post s)
    {e : Event DB Call} (hok : ok s e) (he : s.step prog e = some t) :
    Sound inv rely post t := by
  cases effect_of_step he with
  | start c => exact h.of_start D hok
  | commit i c r hc hp => exact h.of_commit D hok hc hp
  | stmt i c exec next b as hc hp hx hfree => exact h.of_stmt D hc hp hx hfree
  | finish i e => exact h.of_finish i
  | env db => exact h.of_env D hok

theorem Run.sound (D : Discipline prog ok inv rely post) (h : Run prog ok s t)
    (hs : Sound inv rely post s) : Sound inv rely post t := by
  induction h with
  | refl => exact hs
  | step e _ hok he ih => exact ih.step D hok he

theorem Run.refusals (D : Discipline prog ok inv rely post)
    {refused : Call → ε → List A → World DB Call ρ → Prop}
    (hstart : ∀ s c, ok s (.start c) → inv s.world →
      (prog c).refusals (rely c) (refused c) [] s.world)
    {w : World DB Call ρ} (h : Run prog ok ⟨w, []⟩ t) (hw : inv w) :
    ∀ i c, t.Live i c → c.prog.refusals (rely c.call) (refused c.call) c.acc t.world := by
  induction h with
  | refl => simp
  | @step t u e hr hok he ih =>
    have hs : Sound inv rely post t := hr.sound D (sound_of_idle hw)
    cases effect_of_step he with
    | start c =>
      intro i d hd
      rw [Live, List.getElem?_append] at hd
      split_ifs at hd with hlt
      · exact ih i d hd
      · have hzero : i - t.clients.length = 0 := by
          by_contra hne
          simp [hne] at hd
        simp only [hzero, List.getElem?_cons_zero, Option.some.injEq] at hd
        subst hd
        exact hstart t c hok hs.inv
    | commit i c r hc hp =>
      intro j d hd
      obtain ⟨hne, hd⟩ := getElem?_set_none hd
      have hrely := (D.commit t i c r hok hc hp hs.inv (hs.commit_post D hc hp)).2 j d hne hd
        (hs.compatible i j c d (Ne.symm hne) hc hd)
      exact Tx.refusals_of_rely (D.rely_trans d.call) (ih j d hd) hrely
    | stmt i c exec next b as hc hp hx hfree =>
      intro j d hd
      simp only [Live, List.getElem?_set] at hd
      split_ifs at hd with hij
      · simp only [Option.some.injEq] at hd
        subst hd
        have hw := ih i c hc
        rw [hp] at hw
        exact (hw t.world (D.rely_refl _ _ _ hs.inv)).2 b as hx
      · exact ih j d hd
    | finish i e => exact fun j d hd => ih j d (getElem?_set_none hd).2
    | env db =>
      exact fun j d hd => Tx.refusals_of_rely (D.rely_trans d.call) (ih j d hd)
        ((D.env t db hok hs.inv).2 j d hd)

theorem refused_of_failing (D : Discipline prog ok inv rely post)
    {refused : ε → List A → World DB Call ρ → Prop} (hinv : inv s.world) {i : ℕ} {e : ε}
    {c : Client DB A ε ρ Call} (hc : s.Live i c) (he : s.failing i = some e)
    (h : c.prog.refusals (rely c.call) refused c.acc s.world) : refused e c.acc s.world := by
  have hrefl := D.rely_refl c.call c.acc s.world hinv
  simp only [failing, hc] at he
  cases hp : c.prog with
  | done r => simp [hp] at he
  | fail e' =>
    rw [hp] at h he
    cases he
    exact h s.world hrefl
  | stmt exec next =>
    rw [hp] at h he
    cases hx : exec (Tx.view s.world.db c.acc) with
    | ok out => simp [hx] at he
    | error e' =>
      simp only [hx, Option.some.injEq] at he
      subst he
      exact (h s.world hrefl).1 e' hx

end Soundness
end Sys
end Step
end Transaction
