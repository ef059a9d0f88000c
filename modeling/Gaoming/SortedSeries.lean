import Mathlib.Data.List.Induction
import Mathlib.Data.List.Pairwise
import Mathlib.Order.Lattice
import Mathlib.Tactic.Common

/-!
# Lists sorted by a key

A sorted list is the same as what it holds under each key. Replacing the elements of one
key, and dropping the elements of some keys, act on that view key by key.
-/

namespace SortedSeries
variable {α τ : Type} [LinearOrder τ] {key : α → τ} {keep : τ → Bool}

/-- The elements with one key, in their order. -/
def slot (key : α → τ) (t : τ) (l : List α) : List α := l.filter fun a => key a = t

@[simp] theorem slot_nil (t : τ) : slot key t [] = [] := rfl

theorem slot_cons (t : τ) (a : α) (l : List α) :
    slot key t (a :: l) = if key a = t then a :: slot key t l else slot key t l := by
  simp [slot, List.filter_cons]

@[simp] theorem slot_append (t : τ) (l m : List α) :
    slot key t (l ++ m) = slot key t l ++ slot key t m := List.filter_append ..

theorem slot_filter (t : τ) (l : List α) :
    slot key t (l.filter fun a => keep (key a)) = if keep t then slot key t l else [] := by
  rw [slot, List.filter_filter]
  split_ifs with ht
  · refine List.filter_congr fun a _ => ?_
    by_cases hat : key a = t
    · simp [hat, ht]
    · simp [hat]
  · rw [List.filter_eq_nil_iff]
    intro a _ h
    simp only [Bool.and_eq_true, decide_eq_true_eq] at h
    exact ht (h.1 ▸ h.2)

def Sorted (key : α → τ) (l : List α) : Prop := l.Pairwise fun a b => key a ≤ key b

theorem Sorted.first {a : α} {l : List α} (h : Sorted key (a :: l)) {b : α} (hb : b ∈ a :: l) :
    key a ≤ key b := by
  rcases List.mem_cons.mp hb with rfl | hb
  · exact le_rfl
  · exact (List.pairwise_cons.mp h).1 b hb

theorem mem_of_slot_eq {l m : List α} (h : ∀ t, slot key t l = slot key t m) {a : α}
    (ha : a ∈ l) : a ∈ m := by
  have hslot : a ∈ slot key (key a) l := List.mem_filter.mpr ⟨ha, decide_eq_true rfl⟩
  rw [h] at hslot
  exact (List.mem_filter.mp hslot).1

/-- Two sorted lists with the same slots are the same. -/
theorem Sorted.ext {l m : List α} (hl : Sorted key l) (hm : Sorted key m)
    (h : ∀ t, slot key t l = slot key t m) : l = m := by
  induction l generalizing m with
  | nil =>
    cases m with
    | nil => rfl
    | cons b m => exact absurd (mem_of_slot_eq (fun t => (h t).symm) List.mem_cons_self) (by simp)
  | cons a l ih =>
    cases m with
    | nil => exact absurd (mem_of_slot_eq h List.mem_cons_self) (by simp)
    | cons b m =>
      -- Both heads have the least key, so they head the same slot.
      have hkey : key a = key b :=
        le_antisymm (hl.first (mem_of_slot_eq (fun t => (h t).symm) List.mem_cons_self))
          (hm.first (mem_of_slot_eq h List.mem_cons_self))
      have hab : a = b := by
        have hslot := h (key a)
        rw [slot_cons, slot_cons, if_pos rfl, if_pos hkey.symm] at hslot
        exact (List.cons.inj hslot).1
      subst hab
      refine congrArg (a :: ·) (ih (List.pairwise_cons.mp hl).2 (List.pairwise_cons.mp hm).2 ?_)
      intro t
      have hslot := h t
      rw [slot_cons, slot_cons] at hslot
      split_ifs at hslot with ht
      · exact (List.cons.inj hslot).2
      · exact hslot

def sort (key : α → τ) (l : List α) : List α := l.mergeSort fun a b => key a ≤ key b

theorem perm_sort (l : List α) : (sort key l).Perm l := List.mergeSort_perm l _

theorem le_total_bool (a b : α) : (decide (key a ≤ key b) || decide (key b ≤ key a)) = true := by
  rcases le_total (key a) (key b) with h | h <;> simp [h]

theorem le_trans_bool (a b c : α) (hab : decide (key a ≤ key b) = true)
    (hbc : decide (key b ≤ key c) = true) : decide (key a ≤ key c) = true :=
  decide_eq_true (le_trans (of_decide_eq_true hab) (of_decide_eq_true hbc))

theorem sorted_sort (l : List α) : Sorted key (sort key l) :=
  (List.pairwise_mergeSort le_trans_bool le_total_bool l).imp of_decide_eq_true

theorem slot_sort (t : τ) (l : List α) : slot key t (sort key l) = slot key t l := by
  have hkey : ∀ a ∈ slot key t l, key a = t :=
    fun a ha => of_decide_eq_true (List.mem_filter.mp ha).2
  have hpairwise : (slot key t l).Pairwise fun a b => decide (key a ≤ key b) = true :=
    List.pairwise_of_forall_mem_list fun a ha b hb => decide_eq_true (by rw [hkey a ha, hkey b hb])
  have hsublist : (slot key t l).Sublist (sort key l) :=
    List.sublist_mergeSort le_trans_bool le_total_bool hpairwise List.filter_sublist
  have hslot : (slot key t l).Sublist (slot key t (sort key l)) := by
    have hfilter := hsublist.filter fun a => decide (key a = t)
    rwa [List.filter_eq_self.mpr fun a ha => decide_eq_true (hkey a ha)] at hfilter
  exact (hslot.eq_of_length ((perm_sort l).filter _).length_eq.symm).symm

def put (key : α → τ) (keep : τ → Bool) (l : List α) (a : α) : List α :=
  (sort key ((l.filter fun b => key b ≠ key a) ++ [a])).filter fun b => keep (key b)

theorem sorted_put (l : List α) (a : α) : Sorted key (put key keep l a) :=
  (sorted_sort _).filter _

theorem keep_of_mem_put {l : List α} {a b : α} (h : b ∈ put key keep l a) : keep (key b) = true :=
  (List.mem_filter.mp h).2

theorem slot_put (t : τ) (l : List α) (a : α) :
    slot key t (put key keep l a) =
      if keep t then if key a = t then [a] else slot key t l else [] := by
  have hdrop : slot key t (l.filter fun b => key b ≠ key a) =
      if decide (t ≠ key a) then slot key t l else [] :=
    @slot_filter _ _ _ _ (fun s => decide (s ≠ key a)) t l
  rw [put, slot_filter, slot_sort, slot_append, hdrop]
  refine if_congr Iff.rfl ?_ rfl
  by_cases ht : key a = t
  · simp [slot, ht]
  · simp [slot, ht, Ne.symm ht]

/-- The last element with a key. -/
def lastAt (key : α → τ) (t : τ) (l : List α) : Option α := (slot key t l).getLast?

theorem slot_foldl_put (l points : List α) {t : τ} (ht : keep t = true) :
    slot key t (points.foldl (put key keep) l) =
      ((lastAt key t points).map ([·])).getD (slot key t l) := by
  induction points using List.reverseRecOn with
  | nil => rfl
  | append_singleton points a ih =>
    rw [List.foldl_append, List.foldl_cons, List.foldl_nil, slot_put, if_pos ht, lastAt,
      slot_append]
    split_ifs with ha
    · have hlast : slot key t [a] = [a] := by rw [slot_cons, if_pos ha, slot_nil]
      rw [hlast, List.getLast?_concat]
      rfl
    · have hnone : slot key t [a] = [] := by rw [slot_cons, if_neg ha, slot_nil]
      rw [hnone, List.append_nil]
      exact ih

theorem sorted_foldl_put {l points : List α} (hpoints : points ≠ []) :
    Sorted key (points.foldl (put key keep) l) ∧
      ∀ b ∈ points.foldl (put key keep) l, keep (key b) = true := by
  induction points using List.reverseRecOn with
  | nil => exact absurd rfl hpoints
  | append_singleton points a =>
    rw [List.foldl_append, List.foldl_cons, List.foldl_nil]
    exact ⟨sorted_put _ _, fun b hb => keep_of_mem_put hb⟩

theorem put_put (l : List α) (a : α) :
    put key keep (put key keep l a) a = put key keep l a := by
  refine (sorted_put _ _).ext (sorted_put _ _) fun t => ?_
  simp only [slot_put]
  split_ifs <;> rfl

theorem put_comm (l : List α) {a b : α} (h : key a ≠ key b) :
    put key keep (put key keep l a) b = put key keep (put key keep l b) a := by
  refine (sorted_put _ _).ext (sorted_put _ _) fun t => ?_
  simp only [slot_put]
  split_ifs with hkeep hb ha
  · exact absurd (ha.trans hb.symm) h
  · rfl
  · rfl
  · rfl
  · rfl

theorem foldl_put_perm (l : List α) {points points' : List α} (hperm : points.Perm points')
    (hdistinct : points.Pairwise fun a b => key a ≠ key b) :
    points.foldl (put key keep) l = points'.foldl (put key keep) l := by
  have : Std.Symm fun a b => key a ≠ key b := ⟨fun _ _ h => h.symm⟩
  refine hperm.foldl_eq' (fun a ha b hb m => ?_) l
  by_cases hab : a = b
  · rw [hab]
  · exact put_comm m (hdistinct.forall ha hb hab)

end SortedSeries
