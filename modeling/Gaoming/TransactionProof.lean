import Gaoming.TransactionProgram

/-!
# Reasoning about one transaction among others

While a transaction runs, other transactions commit. What they may do to the
rows it relies on is a relation `rely acc w w'` between worlds, indexed by the
accesses recorded so far: the locks among them are what the others respect. The
precondition `wp` is closed under that relation before every statement and
before the commit, so it stays true while the transaction waits.
-/

namespace Transaction

/-- One committed call. `began` is the number of commits before the call started. -/
structure Commit (Call ρ : Type) where
  began : ℕ
  call : Call
  result : ρ

/-- The committed database, with the history of the commits that led to it. -/
structure World (DB Call ρ : Type) where
  db : DB
  commits : List (Commit Call ρ)

namespace Tx
variable {DB A K ε α β ρ Call : Type} [Storage DB A K]
variable {rely : List A → World DB Call ρ → World DB Call ρ → Prop}

def wp (rely : List A → World DB Call ρ → World DB Call ρ → Prop)
    (post : α → List A → World DB Call ρ → Prop) :
    Tx DB A ε α → List A → World DB Call ρ → Prop
  | .done a, acc, w => ∀ w', rely acc w w' → post a acc w'
  | .fail _, _, _ => True
  | .stmt exec next, acc, w => ∀ w', rely acc w w' → ∀ b as,
      exec (view w'.db acc) = .ok (b, as) → wp rely post (next b) (acc ++ as) w'

theorem wp_of_rely (htrans : ∀ acc u v w, rely acc u v → rely acc v w → rely acc u w)
    {post : α → List A → World DB Call ρ → Prop} {p : Tx DB A ε α} {acc : List A}
    {w w' : World DB Call ρ} (h : p.wp rely post acc w) (hr : rely acc w w') :
    p.wp rely post acc w' := by
  cases p with
  | done a => exact fun v hv => h v (htrans acc w w' v hr hv)
  | fail e => trivial
  | stmt exec next => exact fun v hv => h v (htrans acc w w' v hr hv)

theorem wp_mono {post post' : α → List A → World DB Call ρ → Prop}
    (hpost : ∀ a acc w, post a acc w → post' a acc w) {p : Tx DB A ε α} {acc : List A}
    {w : World DB Call ρ} (h : p.wp rely post acc w) : p.wp rely post' acc w := by
  induction p generalizing acc w with
  | done a => exact fun v hv => hpost a acc v (h v hv)
  | fail e => trivial
  | stmt exec next ih => exact fun v hv b as he => ih b (h v hv b as he)

theorem wp_of_post {post : α → List A → World DB Call ρ → Prop}
    (hpost : ∀ a acc w, post a acc w) (p : Tx DB A ε α) (acc : List A) (w : World DB Call ρ) :
    p.wp rely post acc w := by
  induction p generalizing acc w with
  | done a => exact fun v _ => hpost a acc v
  | fail e => trivial
  | stmt exec next ih => exact fun v _ b as _ => ih b (acc ++ as) v

theorem wp_of_forall_rely {post : α → List A → World DB Call ρ → Prop} {p : Tx DB A ε α}
    (hrefl : ∀ acc u v, rely acc u v → rely acc v v) {acc : List A} {w : World DB Call ρ}
    (h : ∀ w', rely acc w w' → p.wp rely post acc w') : p.wp rely post acc w := by
  cases p with
  | done a => exact fun v hv => h v hv v (hrefl acc w v hv)
  | fail e => trivial
  | stmt exec next => exact fun v hv => h v hv v (hrefl acc w v hv)

theorem wp_bind (hrefl : ∀ acc u v, rely acc u v → rely acc v v)
    {post : β → List A → World DB Call ρ → Prop} {p : Tx DB A ε α} {f : α → Tx DB A ε β}
    {acc : List A} {w : World DB Call ρ}
    (h : p.wp rely (fun a acc w => (f a).wp rely post acc w) acc w) :
    (p >>= f).wp rely post acc w := by
  change (p.bind f).wp rely post acc w
  induction p generalizing acc w with
  | done a => exact wp_of_forall_rely hrefl h
  | fail e => trivial
  | stmt exec next ih => exact fun v hv b as he => ih b (h v hv b as he)

theorem wp_bind_pure {post : β → List A → World DB Call ρ → Prop} {p : Tx DB A ε α} {f : α → β}
    {acc : List A} {w : World DB Call ρ} (h : p.wp rely (fun a => post (f a)) acc w) :
    (p >>= fun a => pure (f a)).wp rely post acc w := by
  change (p.bind fun a => pure (f a)).wp rely post acc w
  induction p generalizing acc w with
  | done a => exact h
  | fail e => trivial
  | stmt exec next ih => exact fun v hv b as he => ih b (h v hv b as he)

theorem wp_pure {post : α → List A → World DB Call ρ → Prop} {a : α} {acc : List A}
    {w : World DB Call ρ} (h : ∀ w', rely acc w w' → post a acc w') :
    (pure a : Tx DB A ε α).wp rely post acc w := h

theorem wp_throw {post : α → List A → World DB Call ρ → Prop} {e : ε} {acc : List A}
    {w : World DB Call ρ} : (throw e : Tx DB A ε α).wp rely post acc w := trivial

theorem wp_ite {post : α → List A → World DB Call ρ → Prop} {c : Prop} [Decidable c]
    {p p' : Tx DB A ε α} {acc : List A} {w : World DB Call ρ} (hp : c → p.wp rely post acc w)
    (hp' : ¬ c → p'.wp rely post acc w) : (if c then p else p').wp rely post acc w := by
  by_cases h : c
  · rw [if_pos h]
    exact hp h
  · rw [if_neg h]
    exact hp' h

theorem wp_exec {post : β → List A → World DB Call ρ → Prop}
    {f : DB → Except ε (α × List A)} {k : α → Tx DB A ε β} {acc : List A}
    {w : World DB Call ρ}
    (h : ∀ w', rely acc w w' → ∀ a as, f (view w'.db acc) = .ok (a, as) →
      (k a).wp rely post (acc ++ as) w') :
    (exec f >>= k).wp rely post acc w := h

theorem wp_query {post : β → List A → World DB Call ρ → Prop} {f : DB → α}
    {k : α → Tx DB A ε β} {acc : List A} {w : World DB Call ρ}
    (h : ∀ w', rely acc w w' → (k (f (view w'.db acc))).wp rely post acc w') :
    (query f >>= k).wp rely post acc w := by
  intro w' hw b as he
  simp only [Except.ok.injEq, Prod.mk.injEq] at he
  obtain ⟨rfl, rfl⟩ := he
  rw [List.append_nil]
  exact h w' hw

theorem wp_of_uses {q : A → Prop} {post : α → List A → World DB Call ρ → Prop}
    {P : World DB Call ρ → Prop} {p : Tx DB A ε α} (hp : p.Uses q) {acc : List A}
    (hstable : ∀ as, (∀ a ∈ as, q a) → ∀ v v', rely (acc ++ as) v v' → P v → P v')
    {w : World DB Call ρ} (hw : P w)
    (hpost : ∀ a as v, (∀ a ∈ as, q a) → P v → post a (acc ++ as) v) :
    p.wp rely post acc w := by
  suffices h : ∀ as, (∀ a ∈ as, q a) → p.wp rely post (acc ++ as) w by
    simpa using h [] (by simp)
  induction p generalizing w with
  | done a => exact fun as has v hv => hpost a as v has (hstable as has w v hv hw)
  | fail e => exact fun as has => trivial
  | stmt exec next ih =>
    intro as has v hv b bs he
    rw [List.append_assoc]
    obtain ⟨hbs, hn⟩ := hp _ b bs he
    refine ih b hn (hstable as has w v hv hw) (as ++ bs) ?_
    intro a ha
    rcases List.mem_append.mp ha with ha | ha
    · exact has a ha
    · exact hbs a ha

theorem wp_of_stable {I : List A → World DB Call ρ → Prop}
    {post : α → List A → World DB Call ρ → Prop}
    (hrely : ∀ acc u v, rely acc u v → I acc u → I acc v)
    (happend : ∀ acc as w, I acc w → I (acc ++ as) w) (p : Tx DB A ε α) {acc : List A}
    {w : World DB Call ρ} (h : I acc w) (hpost : ∀ a acc w, I acc w → post a acc w) :
    p.wp rely post acc w := by
  induction p generalizing acc w with
  | done a => exact fun v hv => hpost a acc v (hrely acc w v hv h)
  | fail e => trivial
  | stmt exec next ih =>
    exact fun v hv b as _ => ih b (happend acc as v (hrely acc w v hv h))

theorem mapError_eq_ok {ε' : Type} {f : ε → ε'} {x : Except ε α} {a : α} :
    x.mapError f = .ok a ↔ x = .ok a := by
  cases x <;> simp [Except.mapError]

theorem mapError_eq_error {ε' : Type} {f : ε → ε'} {x : Except ε α} {e : ε'} :
    x.mapError f = .error e ↔ ∃ e', x = .error e' ∧ f e' = e := by
  cases x <;> simp [Except.mapError]

theorem wp_mapError {ε' : Type} {f : ε → ε'} {post : α → List A → World DB Call ρ → Prop}
    {p : Tx DB A ε α} {acc : List A} {w : World DB Call ρ} (h : p.wp rely post acc w) :
    (p.mapError f).wp rely post acc w := by
  induction p generalizing acc w with
  | done a => exact h
  | fail e => trivial
  | stmt exec next ih =>
    exact fun v hv b as he => ih b (h v hv b as (mapError_eq_ok.mp he))

/-- Whenever the transaction fails, it fails with an error that `refused` admits there. -/
def refusals (rely : List A → World DB Call ρ → World DB Call ρ → Prop)
    (refused : ε → List A → World DB Call ρ → Prop) :
    Tx DB A ε α → List A → World DB Call ρ → Prop
  | .done _, _, _ => True
  | .fail e, acc, w => ∀ w', rely acc w w' → refused e acc w'
  | .stmt exec next, acc, w => ∀ w', rely acc w w' →
      (∀ e, exec (view w'.db acc) = .error e → refused e acc w') ∧
      ∀ b as, exec (view w'.db acc) = .ok (b, as) → refusals rely refused (next b) (acc ++ as) w'

section Refusals
variable {refused : ε → List A → World DB Call ρ → Prop} {acc : List A} {w w' : World DB Call ρ}

theorem refusals_of_rely (htrans : ∀ acc u v w, rely acc u v → rely acc v w → rely acc u w)
    {p : Tx DB A ε α} (h : p.refusals rely refused acc w) (hr : rely acc w w') :
    p.refusals rely refused acc w' := by
  cases p with
  | done a => trivial
  | fail e => exact fun v hv => h v (htrans acc w w' v hr hv)
  | stmt exec next => exact fun v hv => h v (htrans acc w w' v hr hv)

theorem refusals_of_forall (h : ∀ e acc w, refused e acc w) (p : Tx DB A ε α) (acc : List A)
    (w : World DB Call ρ) : p.refusals rely refused acc w := by
  induction p generalizing acc w with
  | done a => trivial
  | fail e => exact fun v _ => h e acc v
  | stmt exec next ih => exact fun v _ => ⟨fun e _ => h e acc v, fun b as _ => ih b (acc ++ as) v⟩

theorem refusals_of_stable {P : World DB Call ρ → Prop} {p : Tx DB A ε α}
    (hstable : ∀ as v v', rely (acc ++ as) v v' → P v → P v') (hw : P w)
    (href : ∀ e as v, P v → refused e (acc ++ as) v) : p.refusals rely refused acc w := by
  suffices h : ∀ as, p.refusals rely refused (acc ++ as) w by simpa using h []
  induction p generalizing w with
  | done a => exact fun as => trivial
  | fail e => exact fun as v hv => href e as v (hstable as w v hv hw)
  | stmt exec next ih =>
    intro as v hv
    have hP := hstable as w v hv hw
    refine ⟨fun e _ => href e as v hP, fun b bs _ => ?_⟩
    rw [List.append_assoc]
    exact ih b hP (as ++ bs)

theorem refusals_bind_pure {p : Tx DB A ε α} {f : α → β} (h : p.refusals rely refused acc w) :
    (p >>= fun a => pure (f a)).refusals rely refused acc w := by
  change (p.bind fun a => pure (f a)).refusals rely refused acc w
  induction p generalizing acc w with
  | done a => trivial
  | fail e => exact h
  | stmt exec next ih =>
    exact fun v hv => ⟨(h v hv).1, fun b as he => ih b ((h v hv).2 b as he)⟩

theorem refusals_exec {f : DB → Except ε (α × List A)} {k : α → Tx DB A ε β}
    (h : ∀ w', rely acc w w' → (∀ e, f (view w'.db acc) = .error e → refused e acc w') ∧
      ∀ a as, f (view w'.db acc) = .ok (a, as) → (k a).refusals rely refused (acc ++ as) w') :
    (exec f >>= k).refusals rely refused acc w := h

theorem refusals_mapError {ε' : Type} {f : ε → ε'}
    {refused : ε' → List A → World DB Call ρ → Prop} {p : Tx DB A ε α}
    (h : p.refusals rely (fun e => refused (f e)) acc w) :
    (p.mapError f).refusals rely refused acc w := by
  induction p generalizing acc w with
  | done a => trivial
  | fail e => exact h
  | stmt exec next ih =>
    intro v hv
    constructor
    · intro e he
      obtain ⟨e', hx, rfl⟩ := mapError_eq_error.mp he
      exact (h v hv).1 e' hx
    · exact fun b as he => ih b ((h v hv).2 b as (mapError_eq_ok.mp he))

end Refusals
end Tx
end Transaction
