import Gaoming.FixedWindow
import Gaoming.GoRuntime

/-!
# The throttle of authentication attempts

`authGuard.allow` of `server/internal/master/transport/http/auth_limits.go`. Peers are
counted in windows that open with the first attempt admitted and are swept by whichever
call comes after they have expired; a refused attempt changes no window. Every admission
is recorded with the start of the window of its peer after the call.
-/

namespace Gaoming
open FixedWindow

def minute : Int64 := 60000000000

structure AuthAttempt where
  started : Time
  count : ℕ

structure AuthGuard where
  attempts : Std.ExtTreeMap String AuthAttempt

namespace AuthGuard

def newAuthGuard : AuthGuard := ⟨∅⟩

def expired (now : Time) (attempt : AuthAttempt) : Bool := minute ≤ Time.sub now attempt.started

def sweep (g : AuthGuard) (now : Time) : AuthGuard :=
  ⟨g.attempts.filter fun _ attempt => !expired now attempt⟩

/-- The end of a call, with the window found or the one about to open. -/
def count (g : AuthGuard) (peer : String) (attempt : AuthAttempt) : AuthGuard × Bool :=
  if attempt.count ≥ 20 then (g, false)
  else (⟨g.attempts.insert peer { attempt with count := attempt.count + 1 }⟩, true)

def allow (g : AuthGuard) (peer : String) (now : Time) : AuthGuard × Bool :=
  let g := g.sweep now
  match g.attempts[peer]? with
  | some attempt => g.count peer attempt
  | none => if g.attempts.size ≥ 1024 then (g, false) else g.count peer ⟨now, 0⟩

end AuthGuard

structure AllowCall where
  peer : String
  now : Time

structure Throttle where
  guard : AuthGuard
  admitted : List (Entry String)

namespace Throttle

def start : Throttle := ⟨AuthGuard.newAuthGuard, []⟩

/-- The start of the window of a peer. -/
def windowOf (g : AuthGuard) (peer : String) (now : Time) : Time :=
  (g.attempts[peer]?.map AuthAttempt.started).getD now

def step (s : Throttle) (c : AllowCall) : Throttle :=
  let (g, ok) := s.guard.allow c.peer c.now
  ⟨g, if ok then ⟨c.peer, c.now, windowOf g c.peer c.now⟩ :: s.admitted else s.admitted⟩

def run (calls : List AllowCall) : Throttle := calls.foldl step start

end Throttle

def window : ℤ := 60 * second

theorem expired_iff (now : ℤ) (attempt : AuthAttempt) :
    AuthGuard.expired now attempt = true ↔ attempt.started + window ≤ now := by
  have hminute : minute.toInt = 60000000000 := by decide
  have hwindow : window = 60000000000 := rfl
  have hstarted : ∀ u : ℤ, minute ≤ Time.sub now u ↔ u + window ≤ now := by
    intro u
    rw [Int64.le_iff_toInt_le, Time.toInt_sub, hminute, hwindow]
    omega
  simpa only [AuthGuard.expired, decide_eq_true_eq] using hstarted attempt.started

namespace Throttle

/-- What holds after calls up to the time `last`. -/
structure Inv (s : Throttle) (last : Time) : Prop where
  spaced : Spaced window 20 s.admitted
  size_le : s.guard.attempts.size ≤ 1024
  started_le : ∀ (peer : String) (a : AuthAttempt), s.guard.attempts[peer]? = some a →
    a.started ≤ last
  opened : ∀ (peer : String) (a : AuthAttempt), s.guard.attempts[peer]? = some a →
    ⟨peer, a.started, a.started⟩ ∈ s.admitted
  counted : ∀ (peer : String) (a : AuthAttempt), s.guard.attempts[peer]? = some a →
    a.count = inWindow s.admitted peer a.started
  passed : ∀ e ∈ s.admitted,
    (∃ a : AuthAttempt, s.guard.attempts[e.key]? = some a ∧ a.started = e.start) ∨
      e.start + window ≤ last

theorem inv_start (last : Time) : Inv start last where
  spaced := Spaced.nil
  size_le := by simp [start, AuthGuard.newAuthGuard]
  started_le := by simp [start, AuthGuard.newAuthGuard]
  opened := by simp [start, AuthGuard.newAuthGuard]
  counted := by simp [start, AuthGuard.newAuthGuard]
  passed := by simp [start]

end Throttle

theorem AuthGuard.sweep_eq_some {g : AuthGuard} {now : Time} {peer : String} {a : AuthAttempt} :
    (g.sweep now).attempts[peer]? = some a ↔
      g.attempts[peer]? = some a ∧ now < a.started + window := by
  rw [AuthGuard.sweep, Std.ExtTreeMap.getElem?_filter', Option.filter_eq_some_iff,
    Bool.not_eq_true', ← Bool.not_eq_true, expired_iff, not_le]

namespace Throttle
variable {s : Throttle} {last now : Time}

theorem Inv.sweep (h : s.Inv last) (hnow : last ≤ now) :
    Inv ⟨s.guard.sweep now, s.admitted⟩ now where
  spaced := h.spaced
  size_le := le_trans Std.ExtTreeMap.size_filter_le_size h.size_le
  started_le peer a ha := le_trans (h.started_le peer a (AuthGuard.sweep_eq_some.mp ha).1) hnow
  opened peer a ha := h.opened peer a (AuthGuard.sweep_eq_some.mp ha).1
  counted peer a ha := h.counted peer a (AuthGuard.sweep_eq_some.mp ha).1
  passed e he := by
    obtain ⟨a, ha, hstart⟩ | hpassed := h.passed e he
    · by_cases hlive : now < a.started + window
      · exact .inl ⟨a, AuthGuard.sweep_eq_some.mpr ⟨ha, hlive⟩, hstart⟩
      · exact .inr (hstart ▸ not_lt.mp hlive)
    · exact .inr (le_trans hpassed hnow)

theorem Inv.admit (h : s.Inv now) {peer : String} {w : Time} {n : ℕ}
    (hspaced : Spaced window 20 (⟨peer, now, w⟩ :: s.admitted)) (hw : w ≤ now)
    (hopened : ⟨peer, w, w⟩ ∈ (⟨peer, now, w⟩ :: s.admitted : List (Entry String)))
    (hn : n = inWindow s.admitted peer w)
    (hsize : (s.guard.attempts.insert peer ⟨w, n + 1⟩).size ≤ 1024)
    (hpassed : ∀ e ∈ s.admitted, e.key = peer → e.start = w ∨ e.start + window ≤ now) :
    Inv ⟨⟨s.guard.attempts.insert peer ⟨w, n + 1⟩⟩, ⟨peer, now, w⟩ :: s.admitted⟩ now := by
  -- the new entry of the peer, or an entry of another peer as it was
  have hentry : ∀ (q : String) (a : AuthAttempt),
      (s.guard.attempts.insert peer ⟨w, n + 1⟩)[q]? = some a →
      (q = peer ∧ a = ⟨w, n + 1⟩) ∨ (q ≠ peer ∧ s.guard.attempts[q]? = some a) := by
    intro q a ha
    rw [Std.ExtTreeMap.getElem?_insert] at ha
    by_cases hq : q = peer
    · subst hq
      exact .inl ⟨rfl, by simpa using ha.symm⟩
    · have hcompare : compare peer q ≠ .eq := fun heq => hq (compare_eq_iff_eq.mp heq).symm
      exact .inr ⟨hq, by simpa [hcompare] using ha⟩
  refine ⟨hspaced, hsize, ?_, ?_, ?_, ?_⟩
  · intro q a ha
    obtain ⟨rfl, rfl⟩ | ⟨-, hold⟩ := hentry q a ha
    · exact hw
    · exact h.started_le q a hold
  · intro q a ha
    obtain ⟨rfl, rfl⟩ | ⟨-, hold⟩ := hentry q a ha
    · exact hopened
    · exact List.mem_cons_of_mem _ (h.opened q a hold)
  · intro q a ha
    rw [inWindow_cons]
    obtain ⟨rfl, rfl⟩ | ⟨hne, hold⟩ := hentry q a ha
    · simp [hn]
    · simp [h.counted q a hold, Ne.symm hne]
  · intro e he
    by_cases hkey : e.key = peer
    · have hself : (s.guard.attempts.insert peer ⟨w, n + 1⟩)[e.key]? = some ⟨w, n + 1⟩ := by
        rw [hkey, Std.ExtTreeMap.getElem?_insert_self]
      obtain rfl | he := List.mem_cons.mp he
      · exact .inl ⟨_, hself, rfl⟩
      · obtain hstart | hpast := hpassed e he hkey
        · exact .inl ⟨_, hself, hstart.symm⟩
        · exact .inr hpast
    · have hold : e ∈ s.admitted := by
        obtain rfl | hold := List.mem_cons.mp he
        · exact absurd rfl hkey
        · exact hold
      obtain ⟨a, ha, hstart⟩ | hpast := h.passed e hold
      · have hcompare : compare peer e.key ≠ .eq :=
          fun heq => hkey (compare_eq_iff_eq.mp heq).symm
        exact .inl ⟨a, by simpa [Std.ExtTreeMap.getElem?_insert, hcompare] using ha, hstart⟩
      · exact .inr hpast

/-- The outcome of a call for a peer with the window or the fresh one given. -/
def counted (s : Throttle) (peer : String) (now : Time) (attempt : AuthAttempt) : Throttle :=
  let (g, ok) := s.guard.count peer attempt
  ⟨g, if ok then ⟨peer, now, windowOf g peer now⟩ :: s.admitted else s.admitted⟩

theorem counted_of_lt {peer : String} {attempt : AuthAttempt} (hlt : attempt.count < 20) :
    s.counted peer now attempt =
      ⟨⟨s.guard.attempts.insert peer ⟨attempt.started, attempt.count + 1⟩⟩,
        ⟨peer, now, attempt.started⟩ :: s.admitted⟩ := by
  have hcount : ¬attempt.count ≥ 20 := not_le.mpr hlt
  simp only [counted, AuthGuard.count, hcount, if_false, if_true, windowOf,
    Std.ExtTreeMap.getElem?_insert_self, Option.map_some, Option.getD_some]

theorem counted_of_ge {peer : String} {attempt : AuthAttempt} (hge : 20 ≤ attempt.count) :
    s.counted peer now attempt = s := by
  simp [counted, AuthGuard.count, hge]

theorem Inv.counted_found (h : s.Inv now) {peer : String} {attempt : AuthAttempt}
    (hfound : s.guard.attempts[peer]? = some attempt) (hlive : now < attempt.started + window) :
    (s.counted peer now attempt).Inv now := by
  by_cases hge : 20 ≤ attempt.count
  · rw [counted_of_ge hge]
    exact h
  have hlt := not_le.mp hge
  have hwindow := h.counted peer attempt hfound
  have hstarted := h.started_le peer attempt hfound
  rw [counted_of_lt hlt]
  refine h.admit ?_ hstarted ?_ hwindow ?_ ?_
  · exact h.spaced.join hstarted hlive (h.opened peer attempt hfound) (hwindow ▸ hlt)
  · exact List.mem_cons_of_mem _ (h.opened peer attempt hfound)
  · have hmem : peer ∈ s.guard.attempts :=
      Std.ExtTreeMap.mem_iff_isSome_getElem?.mpr (by rw [hfound]; rfl)
    rw [Std.ExtTreeMap.size_insert, if_pos (Std.ExtTreeMap.mem_iff_contains.mp hmem)]
    exact h.size_le
  · intro e he hkey
    obtain ⟨a, ha, hstart⟩ | hpast := h.passed e he
    · rw [hkey, hfound] at ha
      obtain rfl := Option.some.inj ha
      exact .inl hstart.symm
    · exact .inr hpast

theorem Inv.counted_fresh (h : s.Inv now) {peer : String}
    (hnone : s.guard.attempts[peer]? = none) (hsize : s.guard.attempts.size < 1024) :
    (s.counted peer now ⟨now, 0⟩).Inv now := by
  have hpassed : ∀ e ∈ s.admitted, e.key = peer → e.start + window ≤ now := by
    intro e he hkey
    obtain ⟨a, ha, -⟩ | hpast := h.passed e he
    · rw [hkey, hnone] at ha
      exact absurd ha (by simp)
    · exact hpast
  have hwidth : 0 < window := by decide
  rw [counted_of_lt (by simp)]
  refine h.admit ?_ (le_refl now) List.mem_cons_self ?_ ?_ ?_
  · exact h.spaced.open hwidth (by simp) hpassed
  · refine (inWindow_eq_zero ?_).symm
    intro e he hkey hstart
    have := hpassed e he hkey
    rw [hstart] at this
    exact absurd this (by simpa using hwidth)
  · have hnot : peer ∉ s.guard.attempts := by
      rw [Std.ExtTreeMap.mem_iff_isSome_getElem?, hnone]
      simp
    rw [Std.ExtTreeMap.size_insert, if_neg (mt Std.ExtTreeMap.mem_iff_contains.mpr hnot)]
    exact hsize
  · exact fun e he hkey => .inr (hpassed e he hkey)

theorem Inv.step (h : s.Inv last) {c : AllowCall} (hnow : last ≤ c.now) :
    (s.step c).Inv c.now := by
  have hswept := h.sweep hnow
  rw [Throttle.step, AuthGuard.allow]
  cases hfound : (s.guard.sweep c.now).attempts[c.peer]? with
  | some attempt =>
    exact hswept.counted_found hfound (AuthGuard.sweep_eq_some.mp hfound).2
  | none =>
    by_cases hfull : (s.guard.sweep c.now).attempts.size ≥ 1024
    · simpa only [hfull, if_true, Bool.false_eq_true, if_false] using hswept
    · simp only [hfull, if_false]
      exact hswept.counted_fresh hfound (not_le.mp hfull)

theorem Inv.mono (h : s.Inv last) (hnow : last ≤ now) : s.Inv now where
  spaced := h.spaced
  size_le := h.size_le
  started_le peer a ha := le_trans (h.started_le peer a ha) hnow
  opened := h.opened
  counted := h.counted
  passed e he := (h.passed e he).imp_right fun hpast => le_trans hpast hnow

theorem Inv.foldl {calls : List AllowCall} (h : s.Inv last)
    (hclock : (calls.map AllowCall.now).Pairwise (· ≤ ·)) (hlast : ∀ c ∈ calls, last ≤ c.now)
    (hle : last ≤ now) (hnow : ∀ c ∈ calls, c.now ≤ now) :
    (calls.foldl Throttle.step s).Inv now := by
  induction calls generalizing s last with
  | nil => exact h.mono hle
  | cons c calls ih =>
    obtain ⟨hc, hclock⟩ := List.pairwise_cons.mp hclock
    refine ih (h.step (hlast c List.mem_cons_self)) hclock ?_ (hnow c List.mem_cons_self) ?_
    · exact fun d hd => hc d.now (List.mem_map_of_mem hd)
    · exact fun d hd => hnow d (List.mem_cons_of_mem c hd)

theorem inv_run {calls : List AllowCall} (hclock : (calls.map AllowCall.now).Pairwise (· ≤ ·))
    (hnow : ∀ c ∈ calls, c.now ≤ now) : (run calls).Inv now := by
  cases calls with
  | nil => exact inv_start now
  | cons c calls =>
    refine (inv_start c.now).foldl hclock ?_ (hnow c List.mem_cons_self) hnow
    intro d hd
    obtain rfl | hd := List.mem_cons.mp hd
    · exact le_refl d.now
    · exact (List.pairwise_cons.mp hclock).1 d.now (List.mem_map_of_mem hd)

theorem refused_cases {g : AuthGuard} {peer : String} (hrefused : (g.allow peer now).2 = false) :
    (∃ a, (g.sweep now).attempts[peer]? = some a) ∨
      ((g.sweep now).attempts[peer]? = none ∧ 1024 ≤ (g.sweep now).attempts.size) := by
  cases hfound : (g.sweep now).attempts[peer]? with
  | some a => exact .inl ⟨a, rfl⟩
  | none =>
    refine .inr ⟨rfl, ?_⟩
    by_contra hsize
    have hsize : ¬(g.sweep now).attempts.size ≥ 1024 := hsize
    simp [AuthGuard.allow, hfound, hsize, AuthGuard.count] at hrefused

theorem Inv.crowded (h : s.Inv now) {peer : String}
    (hquiet : ∀ e ∈ s.admitted, e.key = peer → e.time + window ≤ now)
    (hrefused : (s.guard.allow peer now).2 = false) :
    ∃ peers : List String, peers.Nodup ∧ peers.length = 1024 ∧ ∀ q ∈ peers, q ≠ peer ∧
      ∃ a, s.guard.attempts[q]? = some a ∧ now < a.started + window := by
  have hswept := h.sweep (le_refl now)
  obtain ⟨a, ha⟩ | ⟨hnone, hfull⟩ := refused_cases hrefused
  · -- the admission that opened the window of the peer is less than a minute old
    have hopened := hquiet _ (hswept.opened peer a ha) rfl
    exact absurd (AuthGuard.sweep_eq_some.mp ha).2 (not_lt.mpr hopened)
  · refine ⟨(s.guard.sweep now).attempts.keys, Std.ExtTreeMap.nodup_keys, ?_, ?_⟩
    · rw [Std.ExtTreeMap.length_keys]
      exact le_antisymm hswept.size_le hfull
    · intro q hq
      have hmem := Std.ExtTreeMap.mem_keys.mp hq
      obtain ⟨a, ha⟩ := Option.isSome_iff_exists.mp
        (Std.ExtTreeMap.mem_iff_isSome_getElem?.mp hmem)
      refine ⟨?_, a, AuthGuard.sweep_eq_some.mp ha⟩
      rintro rfl
      rw [hnone] at ha
      exact absurd ha (by simp)

end Throttle

/-- Calls that come with a clock that does not go back. The map stays within its limit,
no window admits more than twenty attempts, no interval of a minute sees forty of one
peer, and a peer not admitted for a minute is refused only while 1024 others have
windows. -/
theorem auth_throttle_bounds (calls : List AllowCall)
    (hclock : (calls.map AllowCall.now).Pairwise (· ≤ ·)) :
    (Throttle.run calls).guard.attempts.size ≤ 1024 ∧
    (∀ peer start, inWindow (Throttle.run calls).admitted peer start ≤ 20) ∧
    (∀ peer t, inInterval window (Throttle.run calls).admitted peer t ≤ 39) ∧
    ∀ (peer : String) (now : Time), (∀ c ∈ calls, c.now ≤ now) →
      (∀ e ∈ (Throttle.run calls).admitted, e.key = peer → e.time + window ≤ now) →
      ((Throttle.run calls).guard.allow peer now).2 = false →
      ∃ peers : List String, peers.Nodup ∧ peers.length = 1024 ∧ ∀ q ∈ peers, q ≠ peer ∧
        ∃ a, (Throttle.run calls).guard.attempts[q]? = some a ∧ now < a.started + window := by
  obtain ⟨last, hlast⟩ := (calls.map AllowCall.now).toFinset.exists_le
  have hinv := Throttle.inv_run hclock
    fun c hc => hlast c.now (List.mem_toFinset.mpr (List.mem_map_of_mem hc))
  refine ⟨hinv.size_le, hinv.spaced.quota, ?_, ?_⟩
  · intro peer t
    exact Nat.lt_succ_iff.mp (hinv.spaced.inInterval_lt (by simp) peer t)
  · intro peer now hnow hquiet hrefused
    exact (Throttle.inv_run hclock hnow).crowded hquiet hrefused

/-- A burst of one peer, of which the last attempt is refused. -/
def burst : List AllowCall := List.replicate 21 ⟨"10.0.0.1", 5 * second⟩

theorem auth_throttle_bounds_burst :
    (burst.map AllowCall.now).Pairwise (· ≤ ·) ∧
    inWindow (Throttle.run burst).admitted "10.0.0.1" (5 * second) = 20 ∧
    inInterval window (Throttle.run burst).admitted "10.0.0.1" 0 ≤ 39 := by
  have hclock : (burst.map AllowCall.now).Pairwise (· ≤ ·) := by decide
  exact ⟨hclock, by decide +kernel, (auth_throttle_bounds burst hclock).2.2.1 "10.0.0.1" 0⟩

end Gaoming
