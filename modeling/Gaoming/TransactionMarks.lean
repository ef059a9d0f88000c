import Gaoming.TransactionProcess

/-!
# Marks that the writers of a row leave alone

A mark is a part of a row that no writer is to change: the account a row belongs
to, the name it was made under. The row is written under its lock, so a writer
that has read the mark, or has found no row, still finds the same at its commit.
When every call keeps the marks in this way, a mark once there stays for good, and
even a reader without any lock may rely on it.
-/

namespace Transaction
variable {DB A K R M ε α β Call ρ : Type} [Storage DB A K]

namespace Tx

/-- Each access satisfies `q` in the database that its statement sees. -/
def UsesAt (q : DB → A → Prop) : Tx DB A ε α → Prop
  | .done _ => True
  | .fail _ => True
  | .stmt exec next =>
    ∀ db b as, exec db = .ok (b, as) → (∀ a ∈ as, q db a) ∧ (next b).UsesAt q

section UsesAt
variable {q : DB → A → Prop}

theorem usesAt_pure (a : α) : (pure a : Tx DB A ε α).UsesAt q := trivial

theorem usesAt_throw (e : ε) : (throw e : Tx DB A ε α).UsesAt q := trivial

theorem usesAt_exec {f : DB → Except ε (β × List A)}
    (h : ∀ db b as, f db = .ok (b, as) → ∀ a ∈ as, q db a) : (exec f).UsesAt q :=
  fun db b as hf => ⟨h db b as hf, trivial⟩

theorem Uses.usesAt {q : A → Prop} {p : Tx DB A ε α} (h : p.Uses q) : p.UsesAt fun _ => q := by
  induction p with
  | done a => trivial
  | fail e => trivial
  | stmt exec next ih => exact fun db b as he => ⟨(h db b as he).1, ih b (h db b as he).2⟩

theorem UsesAt.uses {q : A → Prop} {p : Tx DB A ε α} (h : p.UsesAt fun _ => q) : p.Uses q := by
  induction p with
  | done a => trivial
  | fail e => trivial
  | stmt exec next ih => exact fun db b as he => ⟨(h db b as he).1, ih b (h db b as he).2⟩

theorem UsesAt.mono {q' : DB → A → Prop} {p : Tx DB A ε α} (h : p.UsesAt q)
    (hq : ∀ db a, q db a → q' db a) : p.UsesAt q' := by
  induction p with
  | done a => trivial
  | fail e => trivial
  | stmt exec next ih =>
    exact fun db b as he =>
      ⟨fun a ha => hq db a ((h db b as he).1 a ha), ih b (h db b as he).2⟩

theorem UsesAt.and {q' : DB → A → Prop} {p : Tx DB A ε α} (h : p.UsesAt q) (h' : p.UsesAt q') :
    p.UsesAt fun db a => q db a ∧ q' db a := by
  induction p with
  | done a => trivial
  | fail e => trivial
  | stmt exec next ih =>
    intro db b as he
    obtain ⟨has, hn⟩ := h db b as he
    obtain ⟨has', hn'⟩ := h' db b as he
    exact ⟨fun a ha => ⟨has a ha, has' a ha⟩, ih b hn hn'⟩

theorem usesAt_bind {p : Tx DB A ε α} {f : α → Tx DB A ε β} (hp : p.UsesAt q)
    (hf : ∀ a, (f a).UsesAt q) : (p >>= f).UsesAt q := by
  change (p.bind f).UsesAt q
  induction p with
  | done a => exact hf a
  | fail e => trivial
  | stmt exec next ih => exact fun db b as he => ⟨(hp db b as he).1, ih b (hp db b as he).2⟩

theorem usesAt_ite {c : Prop} [Decidable c] {p p' : Tx DB A ε α} (hp : p.UsesAt q)
    (hp' : p'.UsesAt q) : (if c then p else p').UsesAt q := by
  split_ifs
  · exact hp
  · exact hp'

end UsesAt

theorem wp_of_usesAt {rely : List A → World DB Call ρ → World DB Call ρ → Prop}
    {q : DB → A → Prop} {I : List A → World DB Call ρ → Prop} {p : Tx DB A ε α}
    (hp : p.UsesAt q) (hrely : ∀ acc u v, rely acc u v → I acc u → I acc v)
    (happend : ∀ acc as w, I acc w → (∀ a ∈ as, q (view w.db acc) a) → I (acc ++ as) w)
    {acc : List A} {w : World DB Call ρ} (h : I acc w) :
    p.wp rely (fun _ => I) acc w := by
  induction p generalizing acc w with
  | done a => exact fun v hv => hrely acc w v hv h
  | fail e => trivial
  | stmt exec next ih =>
    intro v hv b as he
    obtain ⟨has, hn⟩ := hp _ b as he
    exact ih b hn (happend acc as v (hrely acc w v hv h) has)

theorem view_lift {DB' B K' : Type} [Storage DB' B K'] {g : DB' → DB} {f : A → B}
    (happly : ∀ db a, g (Storage.apply db (f a)) = Storage.apply (g db) a) (acc : List A)
    (db : DB') : g (view db (acc.map f)) = view (g db) acc := by
  induction acc generalizing db with
  | nil => rfl
  | cons a acc ih => rw [List.map_cons, view_cons, view_cons, ih, happly]

theorem wp_lift {DB' B K' : Type} [Storage DB' B K'] {g : DB' → DB} {f : A → B}
    (happly : ∀ db a, g (Storage.apply db (f a)) = Storage.apply (g db) a)
    {rely : List A → World DB Call ρ → World DB Call ρ → Prop}
    {post : α → List A → World DB Call ρ → Prop}
    {rely' : List B → World DB' Call ρ → World DB' Call ρ → Prop}
    {post' : α → List B → World DB' Call ρ → Prop}
    (hrely : ∀ acc u v, rely' (acc.map f) u v → rely acc ⟨g u.db, u.commits⟩ ⟨g v.db, v.commits⟩)
    (hpost : ∀ a acc v, post a acc ⟨g v.db, v.commits⟩ → post' a (acc.map f) v)
    {p : Tx DB A ε α} {acc : List A} {w : World DB' Call ρ}
    (h : p.wp rely post acc ⟨g w.db, w.commits⟩) :
    (p.lift g f).wp rely' post' (acc.map f) w := by
  induction p generalizing acc w with
  | done a => exact fun v hv => hpost a acc v (h _ (hrely acc w v hv))
  | fail e => trivial
  | stmt exec next ih =>
    intro v hv b bs he
    change (exec (g (view v.db (acc.map f)))).map _ = _ at he
    rw [view_lift happly] at he
    cases hx : exec (view (g v.db) acc) with
    | error e =>
      rw [hx] at he
      cases he
    | ok out =>
      rw [hx] at he
      cases he
      change ((next out.1).lift g f).wp rely' post' (acc.map f ++ out.2.map f) v
      rw [← List.map_append]
      exact ih out.1 (h _ (hrely acc w v hv) out.1 out.2 hx)

end Tx

variable (DB) in
/-- Some access of the list holds a lock on the key. -/
def HoldsKey (acc : List A) (k : K) : Prop :=
  ∃ a ∈ acc, Storage.key DB a = k ∧ Storage.mode DB a ≠ .unlocked

theorem not_exclusive_of_holdsKey [DecidableEq K] {as bs : List A} {k : K}
    (h : Compatible DB as bs) (hk : HoldsKey DB bs k) {a : A} (ha : a ∈ as)
    (hmode : Storage.mode DB a = .exclusive) : Storage.key DB a ≠ k := by
  intro hakey
  obtain ⟨b, hb, hbkey, hbmode⟩ := hk
  have hno := h a ha b hb
  rw [conflict, hakey, hbkey, hmode] at hno
  cases hm : Storage.mode DB b with
  | unlocked => exact hbmode hm
  | share => simp [hm, Mode.conflicts] at hno
  | exclusive => simp [hm, Mode.conflicts] at hno

theorem view_of_holdsKey [DecidableEq K] {X : Type} {f : DB → X} {as bs : List A} {k : K}
    (hcompat : Compatible DB as bs) (hk : HoldsKey DB bs k)
    (hf : ∀ db a, (Storage.mode DB a = .exclusive → Storage.key DB a ≠ k) →
      f (Storage.apply db a) = f db) (db : DB) : f (Tx.view db as) = f db := by
  refine Tx.view_induction
    (q := fun a => Storage.mode DB a = .exclusive → Storage.key DB a ≠ k)
    (I := fun x => f x = f db) ?_ (fun a ha => not_exclusive_of_holdsKey hcompat hk ha) rfl
  exact fun x a ha hx => (hf x a ha).trans hx

/-- Rows under their keys, each with a mark; `puts` is the row that an access writes. -/
structure Marking (DB A K R M : Type) [Storage DB A K] where
  row? : DB → K → Option R
  puts : A → Option R
  mark : R → M
  row?_self : ∀ db a r, puts a = some r → row? (Storage.apply db a) (Storage.key DB a) = some r
  row?_other : ∀ db a k, puts a = none ∨ Storage.key DB a ≠ k →
    row? (Storage.apply db a) k = row? db k
  locked : ∀ a, puts a ≠ none → Storage.mode DB a = .exclusive

namespace Marking
variable (μ : Marking DB A K R M)

def mark? (db : DB) (k : K) : Option M := (μ.row? db k).map μ.mark

/-- The access gives the row the mark that it has already. -/
def Keeps (db : DB) (a : A) : Prop :=
  ∀ r m, μ.puts a = some r → μ.mark? db (Storage.key DB a) = some m → m = μ.mark r

/-- What a call may rely on while it waits. -/
structure Rely (acc : List A) (db db' : DB) : Prop where
  stays : ∀ k m, μ.mark? db k = some m → μ.mark? db' k = some m
  held : ∀ k, HoldsKey DB acc k → μ.mark? db' k = μ.mark? db k

variable {μ} {acc as bs : List A} {a : A} {k : K} {r : R} {m : M} {db db' db'' : DB}

theorem Rely.refl : μ.Rely acc db db := ⟨fun _ _ h => h, fun _ _ => rfl⟩

theorem Rely.trans (h : μ.Rely acc db db') (h' : μ.Rely acc db' db'') : μ.Rely acc db db'' :=
  ⟨fun k m hm => h'.stays k m (h.stays k m hm), fun k hk => (h'.held k hk).trans (h.held k hk)⟩

theorem holdsKey_of_puts (ha : a ∈ acc) (hr : μ.puts a = some r) :
    HoldsKey DB acc (Storage.key DB a) := by
  refine ⟨a, ha, rfl, ?_⟩
  rw [μ.locked a (by simp [hr])]
  simp

theorem keeps_of_none (h : μ.puts a = none) : μ.Keeps db a := by
  intro r m hr
  rw [h] at hr
  cases hr

theorem row?_view (acc : List A) (k : K) :
    (∀ db, μ.row? (Tx.view db acc) k = μ.row? db k) ∨
    ∃ a ∈ acc, ∃ r, Storage.key DB a = k ∧ μ.puts a = some r ∧
      ∀ db, μ.row? (Tx.view db acc) k = some r := by
  induction acc with
  | nil => exact .inl fun _ => rfl
  | cons a acc ih =>
    simp only [Tx.view_cons]
    rcases ih with h | ⟨b, hb, r, hkey, hputs, h⟩
    · by_cases hother : μ.puts a = none ∨ Storage.key DB a ≠ k
      · exact .inl fun db => (h _).trans (μ.row?_other db a k hother)
      · push Not at hother
        obtain ⟨r, hr⟩ := Option.ne_none_iff_exists'.mp hother.1
        refine .inr ⟨a, List.mem_cons_self .., r, hother.2, hr, fun db => ?_⟩
        rw [h, ← hother.2, μ.row?_self db a r hr]
    · exact .inr ⟨b, List.mem_cons_of_mem a hb, r, hkey, hputs, fun db => h _⟩

theorem stays_view (h : ∀ a ∈ acc, μ.Keeps db a) (hm : μ.mark? db k = some m) :
    μ.mark? (Tx.view db acc) k = some m := by
  rcases μ.row?_view acc k with hv | ⟨a, ha, r, rfl, hputs, hv⟩
  · rw [mark?, hv db]
    exact hm
  · rw [mark?, hv db, h a ha r m hputs hm]
    rfl

theorem Rely.stays_seen (hr : μ.Rely acc db db') (h : ∀ a ∈ acc, μ.Keeps db' a)
    (hm : μ.mark? (Tx.view db acc) k = some m) : μ.mark? (Tx.view db' acc) k = some m := by
  rcases μ.row?_view acc k with hv | ⟨a, ha, r, rfl, hputs, hv⟩
  · rw [mark?, hv db] at hm
    exact stays_view h (hr.stays k m hm)
  · rw [mark?, hv db] at hm
    rw [mark?, hv db']
    exact hm

theorem row?_held [DecidableEq K] (hcompat : Compatible DB as bs) (hk : HoldsKey DB bs k)
    (db : DB) :
    μ.row? (Tx.view db as) k = μ.row? db k := by
  refine view_of_holdsKey (f := fun x => μ.row? x k) hcompat hk
    (fun x a ha => μ.row?_other x a k ?_) db
  by_cases hputs : μ.puts a = none
  · exact .inl hputs
  · exact .inr (ha (μ.locked a hputs))

theorem rely_view [DecidableEq K] (hcompat : Compatible DB as bs) (h : ∀ a ∈ as, μ.Keeps db a) :
    μ.Rely bs db (Tx.view db as) where
  stays := fun _ _ hm => stays_view h hm
  held := fun _ hk => congrArg (Option.map μ.mark) (row?_held hcompat hk db)

theorem Keeps.of_view (h : ∀ a ∈ acc, μ.Keeps db a) (ha : μ.Keeps (Tx.view db acc) a) :
    μ.Keeps db a := fun r m hr hm => ha r m hr (stays_view h hm)

theorem Keeps.of_rely (h : μ.Keeps db a) (ha : a ∈ acc) (hr : μ.Rely acc db db') :
    μ.Keeps db' a := by
  intro r m hputs hm
  rw [hr.held _ (holdsKey_of_puts ha hputs)] at hm
  exact h r m hputs hm

theorem keeps_append (h : ∀ a ∈ acc, μ.Keeps db a) (has : ∀ a ∈ as, μ.Keeps (Tx.view db acc) a) :
    ∀ a ∈ acc ++ as, μ.Keeps db a :=
  List.forall_mem_append.mpr ⟨h, fun a ha => (has a ha).of_view h⟩

theorem filter_view [DecidableEq M] (h : ∀ a ∈ acc, μ.Keeps db a)
    (hm : ∀ a ∈ acc, ∀ r, μ.puts a = some r → μ.mark r ≠ m) (k : K) :
    (μ.row? (Tx.view db acc) k).filter (fun r => μ.mark r = m) =
      (μ.row? db k).filter (fun r => μ.mark r = m) := by
  rcases μ.row?_view acc k with hv | ⟨a, ha, r, rfl, hputs, hv⟩
  · rw [hv db]
  · have hne := hm a ha r hputs
    rw [hv db, Option.filter_some, if_neg (by simpa using hne)]
    cases hrow : μ.row? db (Storage.key DB a) with
    | none => rfl
    | some x =>
      have hmark := h a ha r (μ.mark x) hputs (by simp [mark?, hrow])
      rw [Option.filter_some, if_neg (by simpa [hmark] using hne)]

end Marking
end Transaction
