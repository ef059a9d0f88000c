import Mathlib

/-!
# Tables with a primary key

A table is a list of rows whose keys are pairwise different, so a second row
under one primary key cannot be built. Rows carry no meaningful order: a write
moves the row to the end, and every ordered query sorts explicitly.
-/

namespace Relational

structure Table {R K : Type} (key : R → K) where
  rows : List R
  nodup : (rows.map key).Nodup

namespace Table
variable {R K : Type} {key : R → K}

@[ext] theorem ext {s t : Table key} (h : s.rows = t.rows) : s = t := by
  cases s
  cases t
  cases h
  rfl

instance [DecidableEq R] : DecidableEq (Table key) := fun s t =>
  decidable_of_iff (s.rows = t.rows) ⟨ext, fun h => h ▸ rfl⟩

def empty : Table key := ⟨[], List.nodup_nil⟩

@[simp] theorem rows_empty : (empty : Table key).rows = [] := rfl

def single (r : R) : Table key := ⟨[r], List.nodup_singleton (key r)⟩

@[simp] theorem rows_single (r : R) : (single r : Table key).rows = [r] := rfl

theorem eq_of_key_eq (t : Table key) {x y : R} (hx : x ∈ t.rows) (hy : y ∈ t.rows)
    (h : key x = key y) : x = y :=
  List.inj_on_of_nodup_map t.nodup hx hy h

/-- The rows a `WHERE` clause keeps. -/
def select (t : Table key) (p : R → Bool) : List R := t.rows.filter p

@[simp] theorem mem_select {t : Table key} {p : R → Bool} {r : R} :
    r ∈ t.select p ↔ r ∈ t.rows ∧ p r = true := List.mem_filter

/-- What is left when the other rows are deleted. -/
def filter (t : Table key) (p : R → Bool) : Table key where
  rows := t.rows.filter p
  nodup := t.nodup.sublist (List.filter_sublist.map key)

@[simp] theorem mem_filter {t : Table key} {p : R → Bool} {r : R} :
    r ∈ (t.filter p).rows ↔ r ∈ t.rows ∧ p r = true := List.mem_filter

/-- `WHERE p ORDER BY ord LIMIT 1`. -/
def first {O : Type} [LinearOrder O] (t : Table key) (ord : R → O) (p : R → Bool) : Option R :=
  (t.select p).argmin ord

section First
variable {O : Type} [LinearOrder O] {t : Table key} {ord : R → O} {p : R → Bool}

theorem mem_of_first {r : R} (h : t.first ord p = some r) : r ∈ t.rows ∧ p r = true :=
  mem_select.mp (List.argmin_mem h)

theorem first_eq_none_iff : t.first ord p = none ↔ ∀ r ∈ t.rows, p r = false := by
  simp [first, List.argmin_eq_none, select, List.filter_eq_nil_iff]

/-- When at most one row matches, the order plays no part. -/
theorem first_eq_some_of_unique {r : R} (hr : r ∈ t.rows) (hp : p r = true)
    (h : ∀ x ∈ t.rows, p x = true → x = r) : t.first ord p = some r := by
  cases hf : t.first ord p with
  | none =>
    have := first_eq_none_iff.mp hf r hr
    simp [hp] at this
  | some x =>
    obtain ⟨hx, hpx⟩ := mem_of_first hf
    rw [h x hx hpx]

end First

/-- `SELECT count(*) ... WHERE p`. -/
def count (t : Table key) (p : R → Bool) : ℕ := t.rows.countP p

theorem count_le_of_subset {s t : Table key} {p : R → Bool}
    (h : ∀ r ∈ s.rows, p r = true → r ∈ t.rows) : s.count p ≤ t.count p := by
  simp only [count, List.countP_eq_length_filter]
  have hnodup : (s.rows.filter p).Nodup := s.nodup.of_map.filter p
  refine (List.subperm_of_subset hnodup fun r hr => ?_).length_le
  obtain ⟨hr, hp⟩ := List.mem_filter.mp hr
  exact List.mem_filter.mpr ⟨h r hr hp, hp⟩

section Ordered
variable {O : Type} [LinearOrder O] {ord : R → O}

theorem pairwise_lt_insertionSort {l : List R} (h : (l.map ord).Nodup) :
    (l.insertionSort fun x y => ord x ≤ ord y).Pairwise fun x y => ord x < ord y := by
  have : Std.Total fun x y : R => ord x ≤ ord y := ⟨fun x y => le_total _ _⟩
  have : IsTrans R fun x y => ord x ≤ ord y := ⟨fun x y z => le_trans⟩
  have hle := List.pairwise_insertionSort (fun x y => ord x ≤ ord y) l
  have hne : ((l.insertionSort fun x y => ord x ≤ ord y).map ord).Nodup :=
    ((List.perm_insertionSort _ l).map ord).nodup_iff.mpr h
  exact hle.imp₂ (fun x y hxy hyx => lt_of_le_of_ne hxy hyx) (List.pairwise_map.mp hne)

/-- Two lists in strict order with the same column are aligned. -/
theorem forall₂_of_mem_iff {l l' : List R} (h : l.Pairwise fun x y => ord x < ord y)
    (h' : l'.Pairwise fun x y => ord x < ord y) (hmem : ∀ o, o ∈ l.map ord ↔ o ∈ l'.map ord) :
    List.Forall₂ (fun x y => x ∈ l ∧ y ∈ l' ∧ ord x = ord y) l l' := by
  have heq : l.map ord = l'.map ord :=
    (List.pairwise_map.mpr h).eq_of_mem_iff (List.pairwise_map.mpr h') hmem
  have hmap : List.Forall₂ (· = ·) (l.map ord) (l'.map ord) := List.forall₂_eq_eq_eq ▸ heq
  obtain ⟨hlen, hzip⟩ := List.forall₂_iff_zip.mp
    (List.forall₂_map_right_iff.mp (List.forall₂_map_left_iff.mp hmap))
  refine List.forall₂_iff_zip.mpr ⟨hlen, fun hxy => ?_⟩
  exact ⟨(List.of_mem_zip hxy).1, (List.of_mem_zip hxy).2, hzip hxy⟩

end Ordered

variable [DecidableEq K]

def get? (t : Table key) (k : K) : Option R := t.rows.find? (fun r => key r = k)

def erase (t : Table key) (k : K) : Table key where
  rows := t.rows.filter (fun r => key r ≠ k)
  nodup := t.nodup.sublist (List.filter_sublist.map key)

theorem nodup_append_erase (t : Table key) (r : R) :
    (((t.erase (key r)).rows ++ [r]).map key).Nodup := by
  rw [List.map_append, List.map_singleton, List.nodup_append]
  refine ⟨(t.erase (key r)).nodup, List.nodup_singleton _, ?_⟩
  intro a ha b hb hab
  obtain ⟨x, hx, rfl⟩ := List.mem_map.mp ha
  rw [List.mem_singleton] at hb
  have hne := (List.mem_filter.mp hx).2
  simp only [decide_eq_true_eq] at hne
  exact hne (hab.trans hb)

/-- Insert the row, replacing the one that has its key. -/
def put (t : Table key) (r : R) : Table key where
  rows := (t.erase (key r)).rows ++ [r]
  nodup := t.nodup_append_erase r

@[simp] theorem get?_empty (k : K) : (empty : Table key).get? k = none := rfl

@[simp] theorem mem_erase {t : Table key} {k : K} {x : R} :
    x ∈ (t.erase k).rows ↔ x ∈ t.rows ∧ key x ≠ k := by
  simp [erase]

@[simp] theorem mem_put {t : Table key} {r x : R} :
    x ∈ (t.put r).rows ↔ x = r ∨ x ∈ t.rows ∧ key x ≠ key r := by
  simp [put, or_comm]

theorem get?_eq_some_iff {t : Table key} {k : K} {r : R} :
    t.get? k = some r ↔ r ∈ t.rows ∧ key r = k := by
  refine ⟨fun h => ⟨List.mem_of_find?_eq_some h, by simpa using List.find?_some h⟩, ?_⟩
  rintro ⟨hr, rfl⟩
  cases hf : t.get? (key r) with
  | none =>
    have := List.find?_eq_none.mp hf r hr
    simp at this
  | some x =>
    have hx := List.mem_of_find?_eq_some hf
    have hk : key x = key r := by simpa using List.find?_some hf
    rw [t.eq_of_key_eq hx hr hk]

theorem get?_eq_none_iff {t : Table key} {k : K} :
    t.get? k = none ↔ ∀ r ∈ t.rows, key r ≠ k := by
  simp [get?, List.find?_eq_none]

theorem get?_of_mem {t : Table key} {r : R} (h : r ∈ t.rows) : t.get? (key r) = some r :=
  get?_eq_some_iff.mpr ⟨h, rfl⟩

theorem key_of_get? {t : Table key} {k : K} {r : R} (h : t.get? k = some r) : key r = k :=
  (get?_eq_some_iff.mp h).2

theorem mem_of_get? {t : Table key} {k : K} {r : R} (h : t.get? k = some r) : r ∈ t.rows :=
  (get?_eq_some_iff.mp h).1

@[simp] theorem get?_put_self (t : Table key) (r : R) : (t.put r).get? (key r) = some r :=
  get?_of_mem (by simp)

theorem get?_put_of_ne (t : Table key) {r : R} {k : K} (h : key r ≠ k) :
    (t.put r).get? k = t.get? k := by
  cases hk : t.get? k with
  | none =>
    rw [get?_eq_none_iff] at hk ⊢
    intro x hx
    rcases mem_put.mp hx with rfl | ⟨hx, -⟩
    · exact h
    · exact hk x hx
  | some x =>
    obtain ⟨hx, rfl⟩ := get?_eq_some_iff.mp hk
    exact get?_of_mem (mem_put.mpr (.inr ⟨hx, Ne.symm h⟩))

theorem get?_put (t : Table key) (r : R) (k : K) :
    (t.put r).get? k = if key r = k then some r else t.get? k := by
  split_ifs with h
  · subst h
    exact t.get?_put_self r
  · exact t.get?_put_of_ne h

theorem get?_erase_of_ne (t : Table key) {k k' : K} (h : k' ≠ k) :
    (t.erase k').get? k = t.get? k := by
  cases hk : t.get? k with
  | none =>
    rw [get?_eq_none_iff] at hk ⊢
    exact fun x hx => hk x (mem_erase.mp hx).1
  | some x =>
    obtain ⟨hx, rfl⟩ := get?_eq_some_iff.mp hk
    exact get?_of_mem (mem_erase.mpr ⟨hx, Ne.symm h⟩)

/-- Rows written one after the other. -/
def putAll (t : Table key) (rows : List R) : Table key := rows.foldl put t

theorem get?_putAll_of_not_mem {t : Table key} {rows : List R} {k : K}
    (h : ∀ r ∈ rows, key r ≠ k) : (t.putAll rows).get? k = t.get? k := by
  induction rows generalizing t with
  | nil => rfl
  | cons r rows ih =>
    change ((t.put r).putAll rows).get? k = t.get? k
    rw [ih fun x hx => h x (List.mem_cons_of_mem _ hx)]
    exact get?_put_of_ne t (h r List.mem_cons_self)

theorem get?_putAll_of_mem {t : Table key} {rows : List R} {r : R}
    (hnodup : (rows.map key).Nodup) (hr : r ∈ rows) : (t.putAll rows).get? (key r) = some r := by
  induction rows generalizing t with
  | nil => cases hr
  | cons x rows ih =>
    rw [List.map_cons, List.nodup_cons] at hnodup
    change ((t.put x).putAll rows).get? (key r) = some r
    rcases List.mem_cons.mp hr with rfl | hr
    · have hnot : ∀ y ∈ rows, key y ≠ key r :=
        fun y hy hkey => hnodup.1 (List.mem_map.mpr ⟨y, hy, hkey⟩)
      rw [get?_putAll_of_not_mem hnot]
      exact get?_put_self t r
    · exact ih hnodup.2 hr

theorem get?_filter (t : Table key) (p : R → Bool) (k : K) :
    (t.filter p).get? k = (t.get? k).filter p := by
  cases hk : t.get? k with
  | none =>
    rw [get?_eq_none_iff] at hk
    exact get?_eq_none_iff.mpr fun r hr => hk r (mem_filter.mp hr).1
  | some x =>
    obtain ⟨hx, rfl⟩ := get?_eq_some_iff.mp hk
    by_cases hp : p x = true
    · rw [Option.filter_some, if_pos hp]
      exact get?_of_mem (mem_filter.mpr ⟨hx, hp⟩)
    · rw [Option.filter_some, if_neg hp, get?_eq_none_iff]
      intro r hr hkey
      obtain ⟨hr, hpr⟩ := mem_filter.mp hr
      exact hp (t.eq_of_key_eq hr hx hkey ▸ hpr)

/-- A unique column stays unique when the new row shares its value with no other row. -/
theorem unique_put {V : Type} {f : R → V} {t : Table key} {r : R}
    (h : ∀ x ∈ t.rows, ∀ y ∈ t.rows, f x = f y → x = y)
    (hr : ∀ x ∈ t.rows, key x ≠ key r → f x ≠ f r) :
    ∀ x ∈ (t.put r).rows, ∀ y ∈ (t.put r).rows, f x = f y → x = y := by
  intro x hx y hy hxy
  rcases mem_put.mp hx with hxr | ⟨hx', hkx⟩ <;> rcases mem_put.mp hy with hyr | ⟨hy', hky⟩
  · rw [hxr, hyr]
  · rw [hxr] at hxy
    exact absurd hxy.symm (hr y hy' hky)
  · rw [hyr] at hxy
    exact absurd hxy (hr x hx' hkx)
  · exact h x hx' y hy' hxy

theorem count_erase_le (t : Table key) (k : K) (p : R → Bool) :
    (t.erase k).count p ≤ t.count p :=
  List.filter_sublist.countP_le

theorem count_put_le (t : Table key) (r : R) (p : R → Bool) :
    (t.put r).count p ≤ t.count p + if p r then 1 else 0 := by
  have he := t.count_erase_le (key r) p
  simp only [count, put, List.countP_append, List.countP_singleton] at he ⊢
  omega

/-- Replacing a row by one that counts the same changes no count. -/
theorem count_put_replace {t : Table key} {x r : R} {p : R → Bool} (hx : t.get? (key r) = some x)
    (hp : p r = p x) : (t.put r).count p = t.count p := by
  have hperm : t.rows.Perm (x :: (t.erase (key r)).rows) := by
    have hnodup : (x :: (t.erase (key r)).rows).Nodup := by
      refine List.nodup_cons.mpr ⟨fun hmem => ?_, (t.erase (key r)).nodup.of_map⟩
      exact (mem_erase.mp hmem).2 (key_of_get? hx)
    refine (List.perm_ext_iff_of_nodup t.nodup.of_map hnodup).mpr fun y => ?_
    rw [List.mem_cons, mem_erase]
    constructor
    · intro hy
      by_cases hk : key y = key r
      · exact .inl (t.eq_of_key_eq hy (mem_of_get? hx) (hk.trans (key_of_get? hx).symm))
      · exact .inr ⟨hy, hk⟩
    · rintro (rfl | ⟨hy, -⟩)
      · exact mem_of_get? hx
      · exact hy
  have hcount := hperm.countP_eq p
  simp only [count, put, List.countP_append, List.countP_cons, List.countP_nil, zero_add]
    at hcount ⊢
  rw [hcount, hp]

end Table
end Relational
