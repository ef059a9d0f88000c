import Mathlib

/-!
# Transactions as trees of SQL statements

A transaction body is a tree: each node is one statement, executed as a whole
on the rows it can see, and the statement's value selects the next node. A
statement reports the row accesses it makes; an access that changes nothing (a
plain read, a lock taken by `SELECT ... FOR UPDATE`) is recorded as well, so
that locks and reads can be read off the list. `run` executes the tree alone on
a database; the interleaved execution of many trees is in another module.
-/

namespace Transaction

inductive Mode
  | unlocked
  | share
  | exclusive
  deriving DecidableEq, Repr

/-- PostgreSQL's row locks: two shared holders agree, any other pair excludes. -/
def Mode.conflicts : Mode → Mode → Bool
  | .exclusive, .exclusive => true
  | .exclusive, .share => true
  | .share, .exclusive => true
  | _, _ => false

/-- What a recorded access does to the database, and the lock it takes. -/
class Storage (DB : Type) (A K : outParam Type) where
  apply : DB → A → DB
  key : A → K
  mode : A → Mode

inductive Tx (DB A ε α : Type) : Type 1
  | done (a : α)
  | fail (e : ε)
  | stmt {β : Type} (exec : DB → Except ε (β × List A)) (next : β → Tx DB A ε α)

namespace Tx
variable {DB A K ε α β γ : Type}

def bind : Tx DB A ε α → (α → Tx DB A ε β) → Tx DB A ε β
  | .done a, f => f a
  | .fail e, _ => .fail e
  | .stmt exec next, f => .stmt exec (fun b => (next b).bind f)

instance : Monad (Tx DB A ε) where
  pure := .done
  bind := bind

instance : MonadExceptOf ε (Tx DB A ε) where
  throw := .fail
  tryCatch p _ := p

/-- A `SELECT` without locks: it changes nothing. -/
def query (f : DB → β) : Tx DB A ε β := .stmt (fun db => .ok (f db, [])) .done

/-- A statement that touches rows, or is refused. -/
def exec (f : DB → Except ε (β × List A)) : Tx DB A ε β := .stmt f .done

def mapError {ε' : Type} (f : ε → ε') : Tx DB A ε α → Tx DB A ε' α
  | .done a => .done a
  | .fail e => .fail (f e)
  | .stmt exec next => .stmt (fun db => (exec db).mapError f) (fun b => (next b).mapError f)

variable [Storage DB A K]

/-- The database as seen after the recorded accesses. -/
def view (db : DB) (as : List A) : DB := as.foldl Storage.apply db

@[simp] theorem view_nil (db : DB) : view db ([] : List A) = db := rfl

@[simp] theorem view_cons (db : DB) (a : A) (as : List A) :
    view db (a :: as) = view (Storage.apply db a) as := rfl

@[simp] theorem view_append (db : DB) (as bs : List A) :
    view db (as ++ bs) = view (view db as) bs := List.foldl_append

/-- Execution alone: every statement sees the accesses of those before it. -/
def run : Tx DB A ε α → DB → Except ε (α × DB)
  | .done a, db => .ok (a, db)
  | .fail e, _ => .error e
  | .stmt exec next, db =>
    match exec db with
    | .error e => .error e
    | .ok (b, as) => (next b).run (view db as)

/-- One statement outside a transaction: what remains of the program, and the accesses that are
committed with the statement. -/
def advance (db : DB) : Tx DB A ε α → Option (Tx DB A ε α × List A)
  | .done _ | .fail _ => none
  | .stmt exec next =>
    match exec db with
    | .error e => some (.fail e, [])
    | .ok (b, as) => some (next b, as)

/-- What remains of a program whose statements saw the databases of `views`, in turn. -/
def replay : Tx DB A ε α → List DB → Option (Tx DB A ε α)
  | p, [] => some p
  | p, db :: views => (p.advance db).bind fun r => r.1.replay views

/-- A failed transaction is rolled back. -/
def transact (p : Tx DB A ε α) (db : DB) : Except ε α × DB :=
  match p.run db with
  | .error e => (.error e, db)
  | .ok (a, db') => (.ok a, db')

@[simp] theorem run_done (a : α) (db : DB) :
    (Tx.done a : Tx DB A ε α).run db = .ok (a, db) := rfl

@[simp] theorem run_pure (a : α) (db : DB) : (pure a : Tx DB A ε α).run db = .ok (a, db) := rfl

@[simp] theorem run_fail (e : ε) (db : DB) : (Tx.fail e : Tx DB A ε α).run db = .error e := rfl

@[simp] theorem run_throw (e : ε) (db : DB) : (throw e : Tx DB A ε α).run db = .error e := rfl

@[simp] theorem run_query (f : DB → β) (db : DB) :
    (query f : Tx DB A ε β).run db = .ok (f db, db) := rfl

theorem run_exec (f : DB → Except ε (β × List A)) (db : DB) :
    (exec f).run db = (f db).map fun r => (r.1, view db r.2) := by
  simp only [exec, run]
  cases f db <;> rfl

theorem run_bind (p : Tx DB A ε α) (f : α → Tx DB A ε β) (db : DB) :
    (p >>= f).run db =
      match p.run db with
      | .error e => .error e
      | .ok (a, db') => (f a).run db' := by
  change (p.bind f).run db = _
  induction p generalizing db with
  | done a => rfl
  | fail e => rfl
  | stmt exec next ih =>
    simp only [bind, run]
    cases exec db with
    | error e => rfl
    | ok r => exact ih r.1 (view db r.2)

/-- Peel the first computation of a successful run. -/
theorem run_bind_eq_ok {p : Tx DB A ε α} {f : α → Tx DB A ε β} {db : DB} {r : β × DB} :
    (p >>= f).run db = .ok r ↔ ∃ a db', p.run db = .ok (a, db') ∧ (f a).run db' = .ok r := by
  rw [run_bind]
  cases p.run db with
  | error e => simp
  | ok q =>
    obtain ⟨a, db'⟩ := q
    simp

theorem run_bind_of_ok {p : Tx DB A ε α} {f : α → Tx DB A ε β} {db db' : DB} {a : α}
    (h : p.run db = .ok (a, db')) : (p >>= f).run db = (f a).run db' := by
  rw [run_bind, h]

theorem run_bind_eq_error {p : Tx DB A ε α} {f : α → Tx DB A ε β} {db : DB} {e : ε} :
    (p >>= f).run db = .error e ↔
      p.run db = .error e ∨ ∃ a db', p.run db = .ok (a, db') ∧ (f a).run db' = .error e := by
  rw [run_bind]
  cases p.run db with
  | error e' => simp
  | ok q =>
    obtain ⟨a, db'⟩ := q
    simp

theorem run_bind_of_error {p : Tx DB A ε α} {f : α → Tx DB A ε β} {db : DB} {e : ε}
    (h : p.run db = .error e) : (p >>= f).run db = .error e := by
  rw [run_bind, h]

@[simp] theorem transact_fst (p : Tx DB A ε α) (db : DB) :
    (p.transact db).1 = (p.run db).map Prod.fst := by
  unfold transact
  cases p.run db <;> rfl

theorem transact_of_ok {p : Tx DB A ε α} {db db' : DB} {a : α} (h : p.run db = .ok (a, db')) :
    p.transact db = (.ok a, db') := by
  rw [transact, h]

theorem transact_of_error {p : Tx DB A ε α} {db : DB} {e : ε} (h : p.run db = .error e) :
    p.transact db = (.error e, db) := by
  rw [transact, h]

theorem run_of_transact {p : Tx DB A ε α} {db db' : DB} {a : α}
    (h : p.transact db = (.ok a, db')) : p.run db = .ok (a, db') := by
  unfold transact at h
  cases hp : p.run db with
  | error e =>
    rw [hp] at h
    cases h
  | ok r =>
    rw [hp] at h
    cases h
    rfl

/-- The statements of a program saw the databases of `views`, and it returned `a`. -/
def Answers (p : Tx DB A ε α) (views : List DB) (a : α) : Prop := p.replay views = some (.done a)

theorem replay_concat {p q : Tx DB A ε α} {views : List DB} (h : p.replay views = some q)
    (db : DB) :
    p.replay (views ++ [db]) = (q.advance db).map Prod.fst := by
  induction views generalizing p with
  | nil =>
    cases h
    simp only [List.nil_append, replay]
    cases q.advance db <;> rfl
  | cons view views ih =>
    simp only [replay, Option.bind_eq_some_iff] at h
    obtain ⟨r, hr, hreplay⟩ := h
    simp only [List.cons_append, replay, hr, Option.bind_some]
    exact ih hreplay

section Answers
variable {views : List DB}

@[simp] theorem answers_pure {a b : α} :
    (pure a : Tx DB A ε α).Answers views b ↔ views = [] ∧ a = b := by
  cases views with
  | nil =>
    change some (Tx.done a : Tx DB A ε α) = some (.done b) ↔ _
    simp
  | cons db views =>
    change none = some (Tx.done b : Tx DB A ε α) ↔ _
    simp

@[simp] theorem not_answers_throw {e : ε} {a : α} :
    ¬(throw e : Tx DB A ε α).Answers views a := by
  cases views with
  | nil =>
    change ¬some (Tx.fail e : Tx DB A ε α) = some (.done a)
    simp
  | cons db views =>
    change ¬none = some (Tx.done a : Tx DB A ε α)
    simp

theorem answers_stmt {exec : DB → Except ε (β × List A)} {next : β → Tx DB A ε α} {a : α} :
    (Tx.stmt exec next).Answers views a ↔
      ∃ db rest b as, views = db :: rest ∧ exec db = .ok (b, as) ∧ (next b).Answers rest a := by
  cases views with
  | nil => simp [Answers, replay]
  | cons db views =>
    constructor
    · intro h
      simp only [Answers, replay, advance] at h
      cases hx : exec db with
      | error e =>
        rw [hx] at h
        exact absurd h not_answers_throw
      | ok r =>
        rw [hx] at h
        exact ⟨db, views, r.1, r.2, rfl, hx, h⟩
    · rintro ⟨db', rest, b, as, heq, hx, h⟩
      cases heq
      simp only [Answers, replay, advance, hx, Option.bind_some]
      exact h

theorem answers_bind {p : Tx DB A ε α} {f : α → Tx DB A ε β} {b : β} :
    (p >>= f).Answers views b ↔
      ∃ before after a, views = before ++ after ∧ p.Answers before a ∧ (f a).Answers after b := by
  change (p.bind f).Answers views b ↔ _
  induction p generalizing views with
  | done a =>
    constructor
    · intro h
      exact ⟨[], views, a, rfl, rfl, h⟩
    · rintro ⟨before, after, a', rfl, ha, h⟩
      obtain ⟨rfl, rfl⟩ := answers_pure.mp ha
      exact h
  | fail e =>
    constructor
    · intro h
      exact absurd h not_answers_throw
    · rintro ⟨before, after, a, rfl, ha, -⟩
      exact absurd ha not_answers_throw
  | stmt exec next ih =>
    simp only [bind, answers_stmt, ih]
    constructor
    · rintro ⟨db, rest, c, as, rfl, hx, before, after, a, rfl, ha, h⟩
      exact ⟨db :: before, after, a, rfl, ⟨db, before, c, as, rfl, hx, ha⟩, h⟩
    · rintro ⟨before, after, a, rfl, ⟨db, rest, c, as, rfl, hx, ha⟩, h⟩
      exact ⟨db, rest ++ after, c, as, rfl, hx, rest, after, a, rfl, ha, h⟩

@[simp] theorem answers_query {f : DB → β} {b : β} :
    (query f : Tx DB A ε β).Answers views b ↔ ∃ db, views = [db] ∧ f db = b := by
  rw [query, answers_stmt]
  constructor
  · rintro ⟨db, rest, c, as, rfl, hx, h⟩
    cases hx
    obtain ⟨rfl, rfl⟩ := answers_pure.mp h
    exact ⟨db, rfl, rfl⟩
  · rintro ⟨db, rfl, rfl⟩
    exact ⟨db, [], f db, [], rfl, rfl, answers_pure.mpr ⟨rfl, rfl⟩⟩

theorem Answers.of_exec {f : DB → Except ε (β × List A)} {b : β} (h : (exec f).Answers views b) :
    ∃ db, views = [db] := by
  obtain ⟨db, rest, c, as, rfl, -, h⟩ := answers_stmt.mp h
  obtain ⟨rfl, -⟩ := answers_pure.mp h
  exact ⟨db, rfl⟩

@[simp] theorem answers_mapError {ε' : Type} {f : ε → ε'} {p : Tx DB A ε α} {a : α} :
    (p.mapError f).Answers views a ↔ p.Answers views a := by
  induction p generalizing views with
  | done b =>
    change (pure b : Tx DB A ε' α).Answers views a ↔ (pure b : Tx DB A ε α).Answers views a
    simp
  | fail e =>
    change (throw (f e) : Tx DB A ε' α).Answers views a ↔ (throw e : Tx DB A ε α).Answers views a
    simp
  | stmt exec next ih =>
    simp only [mapError, answers_stmt, ih]
    refine exists_congr fun db => exists_congr fun rest => exists_congr fun b =>
      exists_congr fun as => and_congr_right fun _ => and_congr_left fun _ => ?_
    cases exec db <;> simp [Except.mapError]

end Answers

/-- Every access of every statement, on whatever database it runs, satisfies `q`. -/
def Uses (q : A → Prop) : Tx DB A ε α → Prop
  | .done _ => True
  | .fail _ => True
  | .stmt exec next => ∀ db b as, exec db = .ok (b, as) → (∀ a ∈ as, q a) ∧ (next b).Uses q

section Uses
variable {q q' : A → Prop}

theorem uses_pure (a : α) : (pure a : Tx DB A ε α).Uses q := trivial

theorem uses_throw (e : ε) : (throw e : Tx DB A ε α).Uses q := trivial

theorem uses_query (f : DB → β) : (query f : Tx DB A ε β).Uses q := by
  intro db b as h
  simp only [Except.ok.injEq, Prod.mk.injEq] at h
  obtain ⟨-, rfl⟩ := h
  exact ⟨by simp, trivial⟩

theorem uses_exec {f : DB → Except ε (β × List A)}
    (h : ∀ db b as, f db = .ok (b, as) → ∀ a ∈ as, q a) : (exec f).Uses q :=
  fun db b as hf => ⟨h db b as hf, trivial⟩

theorem uses_bind {p : Tx DB A ε α} {f : α → Tx DB A ε β} (hp : p.Uses q)
    (hf : ∀ a, (f a).Uses q) : (p >>= f).Uses q := by
  change (p.bind f).Uses q
  induction p with
  | done a => exact hf a
  | fail e => trivial
  | stmt exec next ih =>
    intro db b as h
    exact ⟨(hp db b as h).1, ih b (hp db b as h).2⟩

/-- A statement's continuation is only entered with a value that the statement can return. -/
theorem uses_query_bind {f : DB → α} {k : α → Tx DB A ε β} (h : ∀ db, (k (f db)).Uses q) :
    (query f >>= k).Uses q := by
  intro db b as he
  simp only [Except.ok.injEq, Prod.mk.injEq] at he
  obtain ⟨rfl, rfl⟩ := he
  exact ⟨by simp, h db⟩

theorem uses_exec_bind {f : DB → Except ε (α × List A)} {k : α → Tx DB A ε β}
    (h : ∀ db a as, f db = .ok (a, as) → (∀ x ∈ as, q x) ∧ (k a).Uses q) :
    (exec f >>= k).Uses q := h

theorem uses_ite {c : Prop} [Decidable c] {p p' : Tx DB A ε α} (hp : p.Uses q) (hp' : p'.Uses q) :
    (if c then p else p').Uses q := by
  split_ifs
  · exact hp
  · exact hp'

theorem Uses.mono {p : Tx DB A ε α} (h : p.Uses q) (hq : ∀ a, q a → q' a) : p.Uses q' := by
  induction p with
  | done a => trivial
  | fail e => trivial
  | stmt exec next ih =>
    intro db b as he
    exact ⟨fun a ha => hq a ((h db b as he).1 a ha), ih b (h db b as he).2⟩

theorem uses_mapError {ε' : Type} {f : ε → ε'} {p : Tx DB A ε α} (h : p.Uses q) :
    (p.mapError f).Uses q := by
  induction p with
  | done a => trivial
  | fail e => trivial
  | stmt exec next ih =>
    intro db b as he
    change (exec db).mapError f = _ at he
    cases hx : exec db with
    | error e =>
      rw [hx] at he
      cases he
    | ok out =>
      rw [hx] at he
      cases he
      exact ⟨(h db b as hx).1, ih b (h db b as hx).2⟩

/-- A statement with at most one access. -/
theorem uses_exec_one {f : DB → Except ε (β × List A)}
    (h : ∀ db b as, f db = .ok (b, as) → as = [] ∨ ∃ a, as = [a] ∧ q a) : (exec f).Uses q := by
  apply uses_exec
  intro db b as hf a ha
  rcases h db b as hf with rfl | ⟨x, rfl, hx⟩
  · cases ha
  · exact List.mem_singleton.mp ha ▸ hx

theorem view_induction {I : DB → Prop} (h : ∀ db a, q a → I db → I (Storage.apply db a))
    {as : List A} (has : ∀ a ∈ as, q a) {db : DB} (hdb : I db) : I (view db as) := by
  induction as generalizing db with
  | nil => exact hdb
  | cons a as ih =>
    exact ih (fun x hx => has x (by simp [hx])) (h db a (has a (by simp)) hdb)

/-- A property kept by each kind of access a program uses is kept by its runs. -/
theorem Uses.run_induction {I : DB → Prop} (h : ∀ db a, q a → I db → I (Storage.apply db a))
    {p : Tx DB A ε α} (hp : p.Uses q) {db db' : DB} {r : α} (hr : p.run db = .ok (r, db'))
    (hdb : I db) : I db' := by
  induction p generalizing db with
  | done a =>
    simp only [run_done, Except.ok.injEq, Prod.mk.injEq] at hr
    exact hr.2 ▸ hdb
  | fail e => simp at hr
  | stmt exec next ih =>
    simp only [run] at hr
    cases he : exec db with
    | error e => simp [he] at hr
    | ok o =>
      obtain ⟨b, as⟩ := o
      rw [he] at hr
      obtain ⟨has, hn⟩ := hp db b as he
      exact ih b hn hr (view_induction h has hdb)

end Uses
end Tx
end Transaction
