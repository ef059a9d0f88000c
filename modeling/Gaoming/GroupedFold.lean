import Mathlib

/-!
# Folding each group of a list into a map

A pass that accumulates the elements of each key in the map's entry for the key.
-/

namespace GroupedFold
variable {α κ β : Type} [Ord κ] [Std.TransOrd κ] {key : α → κ} {add : β → α → β} {init : β}

def collect (key : α → κ) (add : β → α → β) (init : β) (l : List α) : Std.ExtTreeMap κ β :=
  l.foldl (fun m x => m.insert (key x) (add (m[key x]?.getD init) x)) ∅

def group [DecidableEq κ] (key : α → κ) (k : κ) (l : List α) : List α := l.filter fun x => key x = k

theorem collect_concat (l : List α) (x : α) :
    collect key add init (l ++ [x]) =
      (collect key add init l).insert (key x)
        (add ((collect key add init l)[key x]?.getD init) x) := by
  rw [collect, List.foldl_append]
  rfl

variable [Std.LawfulEqOrd κ]

theorem getElem?_collect [DecidableEq κ] (l : List α) (k : κ) :
    (collect key add init l)[k]? =
      if group key k l = [] then none else some ((group key k l).foldl add init) := by
  induction l using List.reverseRecOn with
  | nil => exact Std.ExtTreeMap.getElem?_empty
  | append_singleton l x ih =>
    rw [collect_concat, Std.ExtTreeMap.getElem?_insert]
    by_cases hk : key x = k
    · subst hk
      have hgroup : group key (key x) (l ++ [x]) = group key (key x) l ++ [x] := by
        simp [group]
      rw [if_pos Std.ReflCmp.compare_self, hgroup, if_neg (by simp), List.foldl_append, ih]
      split_ifs with hnil
      · rw [hnil]
        rfl
      · rfl
    · have hgroup : group key k (l ++ [x]) = group key k l := by
        simp [group, hk]
      rw [if_neg fun h => hk (Std.LawfulEqCmp.eq_of_compare h), ih, hgroup]

/-- A map is known up to order from its entries. -/
theorem toList_perm {m : Std.ExtTreeMap κ β} {l : List (κ × β)} (hl : l.Nodup)
    (h : ∀ k v, m[k]? = some v ↔ (k, v) ∈ l) : m.toList.Perm l := by
  have hm : m.toList.Nodup := by
    refine m.distinct_keys_toList.imp fun hab heq => hab ?_
    rw [heq]
    exact Std.ReflCmp.compare_self
  refine (List.perm_ext_iff_of_nodup hm hl).mpr fun a => ?_
  rw [← h a.1 a.2]
  exact Std.ExtTreeMap.mem_toList_iff_getElem?_eq_some

end GroupedFold
