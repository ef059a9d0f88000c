import Mathlib

/-!
# The first element of each key

A pass over a list that keeps an element unless its key has been seen.
-/

namespace FirstOccurrence
variable {α K : Type} [DecidableEq K] {key : α → K}

def keep (key : α → K) : List K → List α → List α
  | _, [] => []
  | seen, x :: rest =>
    if key x ∈ seen then keep key seen rest else x :: keep key (key x :: seen) rest

theorem mem_keep {seen : List K} {l : List α} {x : α} (h : x ∈ keep key seen l) :
    x ∈ l ∧ key x ∉ seen := by
  induction l generalizing seen with
  | nil => cases h
  | cons y rest ih =>
    rw [keep] at h
    split_ifs at h with hy
    · exact ⟨List.mem_cons_of_mem y (ih h).1, (ih h).2⟩
    · rcases List.mem_cons.mp h with rfl | h
      · exact ⟨List.mem_cons_self, hy⟩
      · obtain ⟨hmem, hnot⟩ := ih h
        exact ⟨List.mem_cons_of_mem y hmem, fun hx => hnot (List.mem_cons_of_mem _ hx)⟩

theorem filter_keep {q : α → Bool} {seen : List K} {l : List α}
    (hseen : ∀ x ∈ l, q x = true → key x ∉ seen)
    (hl : l.Pairwise fun x y => q y = true → key x ≠ key y) :
    (keep key seen l).filter q = l.filter q := by
  induction l generalizing seen with
  | nil => rfl
  | cons y rest ih =>
    obtain ⟨hfirst, hrest⟩ := List.pairwise_cons.mp hl
    have htail : ∀ x ∈ rest, q x = true → key x ∉ seen :=
      fun x hx => hseen x (List.mem_cons_of_mem y hx)
    rw [keep]
    split_ifs with hy
    · have hq : q y = false := by
        by_contra hq
        exact hseen y List.mem_cons_self (by simpa using hq) hy
      rw [ih htail hrest, List.filter_cons_of_neg (by simp [hq])]
    · have hnew : ∀ x ∈ rest, q x = true → key x ∉ key y :: seen := by
        intro x hx hqx hmem
        rcases List.mem_cons.mp hmem with heq | hmem
        · exact hfirst x hx hqx heq.symm
        · exact htail x hx hqx hmem
      rw [List.filter_cons, List.filter_cons, ih hnew hrest]

theorem keep_congr {K' : Type} [DecidableEq K'] {key' : α → K'} {seen : List K} {seen' : List K'}
    {l : List α} (hseen : ∀ x ∈ l, key x ∈ seen ↔ key' x ∈ seen')
    (hkey : ∀ x ∈ l, ∀ y ∈ l, key x = key y ↔ key' x = key' y) :
    keep key seen l = keep key' seen' l := by
  induction l generalizing seen seen' with
  | nil => rfl
  | cons x rest ih =>
    have htail : ∀ y ∈ rest, ∀ z ∈ rest, key y = key z ↔ key' y = key' z :=
      fun y hy z hz => hkey y (List.mem_cons_of_mem x hy) z (List.mem_cons_of_mem x hz)
    have hold : ∀ y ∈ rest, key y ∈ seen ↔ key' y ∈ seen' :=
      fun y hy => hseen y (List.mem_cons_of_mem x hy)
    have hnew : ∀ y ∈ rest, key y ∈ key x :: seen ↔ key' y ∈ key' x :: seen' := by
      intro y hy
      rw [List.mem_cons, List.mem_cons, hold y hy,
        hkey y (List.mem_cons_of_mem x hy) x List.mem_cons_self]
    rw [keep, keep, ih hold htail, ih hnew htail]
    exact if_congr (hseen x List.mem_cons_self) rfl rfl

theorem keep_map {β : Type} {f : β → α} {seen : List K} {l : List β} :
    keep key seen (l.map f) = (keep (key ∘ f) seen l).map f := by
  induction l generalizing seen with
  | nil => rfl
  | cons y rest ih =>
    rw [List.map_cons, keep, keep, Function.comp_apply, ih, ih]
    split_ifs
    · rfl
    · rw [List.map_cons]

theorem keep_concat {seen : List K} {l : List α} {x : α} :
    keep key seen (l ++ [x]) =
      keep key seen l ++ if key x ∈ seen ∨ ∃ y ∈ l, key y = key x then [] else [x] := by
  induction l generalizing seen with
  | nil => simp [keep]
  | cons y l ih =>
    rw [List.cons_append, keep, keep, ih, ih]
    split_ifs with hy <;> grind

theorem keep_eq_filter_zipIdx {seen : List K} {l : List α} :
    keep key seen l =
      (l.zipIdx.filter fun (x : α × ℕ) =>
        decide (key x.1 ∉ seen ∧ ∀ y ∈ l.take x.2, key y ≠ key x.1)).map Prod.fst := by
  induction l using List.reverseRecOn with
  | nil => rfl
  | append_singleton l x ih =>
    have hold : ∀ z ∈ l.zipIdx,
        (decide (key z.1 ∉ seen ∧ ∀ y ∈ (l ++ [x]).take z.2, key y ≠ key z.1)) =
          decide (key z.1 ∉ seen ∧ ∀ y ∈ l.take z.2, key y ≠ key z.1) := by
      intro z hz
      rw [List.take_append_of_le_length (List.snd_lt_of_mem_zipIdx hz |>.le)]
    rw [keep_concat, ih, List.zipIdx_append, List.filter_append, List.filter_congr hold,
      List.map_append]
    congr 1
    simp only [List.zipIdx_singleton, Nat.zero_add, List.filter_singleton, List.take_left]
    by_cases hx : key x ∈ seen ∨ ∃ y ∈ l, key y = key x
    · have hdrop : ¬(key x ∉ seen ∧ ∀ y ∈ l, key y ≠ key x) := by
        rintro ⟨hnot, hall⟩
        rcases hx with hx | ⟨y, hy, heq⟩
        · exact hnot hx
        · exact hall y hy heq
      rw [if_pos hx, decide_eq_false hdrop, cond_false, List.map_nil]
    · have hnew : key x ∉ seen ∧ ∀ y ∈ l, key y ≠ key x :=
        ⟨fun h => hx (Or.inl h), fun y hy heq => hx (Or.inr ⟨y, hy, heq⟩)⟩
      rw [if_neg hx, decide_eq_true hnew, cond_true, List.map_singleton]

end FirstOccurrence
