import Mathlib.Algebra.Order.Group.Int
import Mathlib.Data.List.Basic
import Mathlib.Tactic.Common

/-!
# Counting in windows that open with their first entry

A log of entries under keys, each counted in a window of its key. A window starts with
the entry that opens it, the windows of one key start at least their width apart, and
no window holds more than its quota. An interval as long as a window then meets at most
two windows of a key, and of two it misses the entry that opened the first.
-/

namespace FixedWindow

variable {κ : Type}

structure Entry (κ : Type) where
  key : κ
  time : ℤ
  start : ℤ

section Counts
variable [DecidableEq κ]

def inWindow (log : List (Entry κ)) (key : κ) (start : ℤ) : ℕ :=
  log.countP fun e => decide (e.key = key ∧ e.start = start)

/-- The entries of a key from `t` on, `width` long, the end excluded. -/
def inInterval (width : ℤ) (log : List (Entry κ)) (key : κ) (t : ℤ) : ℕ :=
  log.countP fun e => decide (e.key = key ∧ t ≤ e.time ∧ e.time < t + width)

structure Spaced (width : ℤ) (quota : ℕ) (log : List (Entry κ)) : Prop where
  within : ∀ e ∈ log, e.start ≤ e.time ∧ e.time < e.start + width
  opened : ∀ e ∈ log, ⟨e.key, e.start, e.start⟩ ∈ log
  apart : ∀ e ∈ log, ∀ f ∈ log, e.key = f.key → e.start < f.start → e.start + width ≤ f.start
  quota : ∀ key start, inWindow log key start ≤ quota

end Counts

theorem countP_add_countP (log : List (Entry κ)) (p q : Entry κ → Bool) :
    log.countP p = log.countP (fun e => p e && q e) + log.countP (fun e => p e && !q e) := by
  induction log with
  | nil => rfl
  | cons e log ih =>
    simp only [List.countP_cons, ih]
    cases p e <;> cases q e <;> simp <;> omega

variable [DecidableEq κ] {width : ℤ} {quota : ℕ} {log : List (Entry κ)}

theorem inWindow_cons (e : Entry κ) (key : κ) (start : ℤ) :
    inWindow (e :: log) key start =
      inWindow log key start + if e.key = key ∧ e.start = start then 1 else 0 := by
  simp only [inWindow, List.countP_cons, decide_eq_true_eq]

theorem Spaced.nil : Spaced width quota ([] : List (Entry κ)) :=
  ⟨by simp, by simp, by simp, by simp [inWindow]⟩

theorem inWindow_eq_zero {key : κ} {start : ℤ}
    (h : ∀ e ∈ log, e.key = key → e.start ≠ start) : inWindow log key start = 0 := by
  apply List.countP_eq_zero.mpr
  intro e he
  simpa using h e he

theorem Spaced.open (h : Spaced width quota log) {key : κ} {now : ℤ} (hwidth : 0 < width)
    (hquota : 0 < quota) (hpassed : ∀ e ∈ log, e.key = key → e.start + width ≤ now) :
    Spaced width quota (⟨key, now, now⟩ :: log) := by
  refine ⟨?_, ?_, ?_, ?_⟩
  · intro e he
    obtain rfl | he := List.mem_cons.mp he
    · exact ⟨le_refl now, Int.lt_add_of_pos_right now hwidth⟩
    · exact h.within e he
  · intro e he
    obtain rfl | he := List.mem_cons.mp he
    · exact List.mem_cons_self
    · exact List.mem_cons_of_mem _ (h.opened e he)
  · intro e he f hf hkey hlt
    obtain rfl | he := List.mem_cons.mp he <;> obtain rfl | hf := List.mem_cons.mp hf
    · exact absurd hlt (lt_irrefl _)
    · have := hpassed f hf hkey.symm
      simp only at hlt
      omega
    · exact hpassed e he hkey
    · exact h.apart e he f hf hkey hlt
  · intro k start
    rw [inWindow_cons]
    split_ifs with hnew
    · obtain ⟨rfl, rfl⟩ := hnew
      have hzero : inWindow log key now = 0 := by
        apply inWindow_eq_zero
        intro e he hkey
        have := hpassed e he hkey
        omega
      simp only [hzero]
      omega
    · exact h.quota k start

theorem Spaced.join (h : Spaced width quota log) {key : κ} {start now : ℤ}
    (hstart : start ≤ now) (hlive : now < start + width)
    (hopened : (⟨key, start, start⟩ : Entry κ) ∈ log) (hquota : inWindow log key start < quota) :
    Spaced width quota (⟨key, now, start⟩ :: log) := by
  refine ⟨?_, ?_, ?_, ?_⟩
  · intro e he
    obtain rfl | he := List.mem_cons.mp he
    · exact ⟨hstart, hlive⟩
    · exact h.within e he
  · intro e he
    obtain rfl | he := List.mem_cons.mp he
    · exact List.mem_cons_of_mem _ hopened
    · exact List.mem_cons_of_mem _ (h.opened e he)
  · intro e he f hf hkey hlt
    obtain rfl | he := List.mem_cons.mp he <;> obtain rfl | hf := List.mem_cons.mp hf
    · exact absurd hlt (lt_irrefl _)
    · exact h.apart ⟨key, start, start⟩ hopened f hf hkey hlt
    · exact h.apart e he ⟨key, start, start⟩ hopened hkey hlt
    · exact h.apart e he f hf hkey hlt
  · intro k s
    rw [inWindow_cons]
    split_ifs with hsame
    · obtain ⟨rfl, rfl⟩ := hsame
      exact hquota
    · exact h.quota k s

theorem Spaced.late_lt (h : Spaced width quota log) {e : Entry κ} (he : e ∈ log) {t : ℤ}
    (hbefore : e.start < t) :
    log.countP (fun f => decide (f.key = e.key ∧ f.start = e.start) && decide (t ≤ f.time)) <
      quota := by
  have hsplit := countP_add_countP log (fun f => decide (f.key = e.key ∧ f.start = e.start))
    (fun f => decide (t ≤ f.time))
  have hearly : 0 < log.countP (fun f =>
      decide (f.key = e.key ∧ f.start = e.start) && !decide (t ≤ f.time)) :=
    List.countP_pos_iff.mpr ⟨_, h.opened e he, by simpa using hbefore⟩
  have hall := h.quota e.key e.start
  rw [inWindow] at hall
  omega

theorem Spaced.inInterval_lt_of_two (h : Spaced width quota log) {key : κ} {t : ℤ}
    {e f : Entry κ} (he : e ∈ log) (hf : f ∈ log) (hekey : e.key = key) (hfkey : f.key = key)
    (het : t ≤ e.time) (hft : f.time < t + width) (hlt : e.start < f.start) :
    inInterval width log key t < 2 * quota := by
  have hapart := h.apart e he f hf (hekey.trans hfkey.symm) hlt
  have hbefore : e.start < t := by
    have := h.within f hf
    omega
  have hsplit := countP_add_countP log
    (fun g => decide (g.key = key ∧ t ≤ g.time ∧ g.time < t + width))
    (fun g => decide (g.start = e.start))
  have hfirst : log.countP (fun g => decide (g.key = key ∧ t ≤ g.time ∧ g.time < t + width) &&
      decide (g.start = e.start)) < quota := by
    refine lt_of_le_of_lt (List.countP_mono_left ?_) (h.late_lt he hbefore)
    intro g _ hg
    simp only [Bool.and_eq_true, decide_eq_true_eq] at hg ⊢
    exact ⟨⟨hg.1.1.trans hekey.symm, hg.2⟩, hg.1.2.1⟩
  have hsecond : log.countP (fun g => decide (g.key = key ∧ t ≤ g.time ∧ g.time < t + width) &&
      !decide (g.start = e.start)) ≤ quota := by
    refine le_trans (List.countP_mono_left ?_) (h.quota key f.start)
    intro g hg hin
    simp only [Bool.and_eq_true, Bool.not_eq_true', decide_eq_true_eq, decide_eq_false_iff_not]
      at hin ⊢
    obtain ⟨⟨hgkey, hgt, hgend⟩, hne⟩ := hin
    refine ⟨hgkey, ?_⟩
    -- a third window would start two widths after the one that starts first
    have hge := h.within g hg
    have hee := h.within e he
    have hfe := h.within f hf
    have heg := h.apart e he g hg (hekey.trans hgkey.symm)
    have hge' := h.apart g hg e he (hgkey.trans hekey.symm)
    have hfg := h.apart f hf g hg (hfkey.trans hgkey.symm)
    have hgf := h.apart g hg f hf (hgkey.trans hfkey.symm)
    omega
  rw [inInterval, hsplit]
  omega

theorem Spaced.inInterval_lt (h : Spaced width quota log) (hquota : 0 < quota) (key : κ) (t : ℤ) :
    inInterval width log key t < 2 * quota := by
  by_cases htwo : ∃ e ∈ log, ∃ f ∈ log, (e.key = key ∧ t ≤ e.time ∧ e.time < t + width) ∧
      (f.key = key ∧ t ≤ f.time ∧ f.time < t + width) ∧ e.start < f.start
  · obtain ⟨e, he, f, hf, hein, hfin, hlt⟩ := htwo
    exact h.inInterval_lt_of_two he hf hein.1 hfin.1 hein.2.1 hfin.2.2 hlt
  by_cases hone : ∃ e ∈ log, e.key = key ∧ t ≤ e.time ∧ e.time < t + width
  · obtain ⟨e, he, hein⟩ := hone
    have hle : inInterval width log key t ≤ inWindow log key e.start := by
      apply List.countP_mono_left
      intro f hf hfin
      simp only [decide_eq_true_eq] at hfin ⊢
      refine ⟨hfin.1, le_antisymm ?_ ?_⟩
      · exact not_lt.mp fun hlt => htwo ⟨e, he, f, hf, hein, hfin, hlt⟩
      · exact not_lt.mp fun hlt => htwo ⟨f, hf, e, he, hfin, hein, hlt⟩
    have := h.quota key e.start
    omega
  · have hzero : inInterval width log key t = 0 := by
      apply List.countP_eq_zero.mpr
      intro e he hin
      exact hone ⟨e, he, by simpa using hin⟩
    omega

end FixedWindow
