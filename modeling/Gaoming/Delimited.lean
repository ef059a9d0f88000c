import Mathlib.Data.List.Basic
import Mathlib.Data.List.DropRight
import Mathlib.Tactic.Common

/-!
# Texts put together with a separator

Parts that do not contain the separator are read off the joined text.
-/

namespace Delimited
variable {α : Type} {c e : α}

theorem separated_inj {s t a b : List α} (hs : c ∉ s) (ht : c ∉ t)
    (h : s ++ c :: a = t ++ c :: b) : s = t ∧ a = b := by
  induction s generalizing t with
  | nil =>
    cases t with
    | nil => exact ⟨rfl, (List.cons.inj h).2⟩
    | cons y t =>
      obtain ⟨hy, -⟩ := List.cons.inj h
      exact absurd (hy ▸ List.mem_cons_self) ht
  | cons x s ih =>
    cases t with
    | nil =>
      obtain ⟨hx, -⟩ := List.cons.inj h
      exact absurd (hx ▸ List.mem_cons_self) hs
    | cons y t =>
      obtain ⟨hxy, hrest⟩ := List.cons.inj h
      obtain ⟨hst, hab⟩ := ih (fun hm => hs (List.mem_cons_of_mem _ hm))
        (fun hm => ht (List.mem_cons_of_mem _ hm)) hrest
      exact ⟨by rw [hxy, hst], hab⟩

theorem last_part_inj {c : Char} {a b s t : String} (hs : c ∉ s.toList) (ht : c ∉ t.toList)
    (h : a ++ String.singleton c ++ s = b ++ String.singleton c ++ t) : a = b ∧ s = t := by
  have hlist := congrArg (fun x => x.toList.reverse) h
  simp only [String.toList_append, String.toList_singleton, List.reverse_append,
    List.reverse_singleton, List.singleton_append] at hlist
  obtain ⟨hst, hab⟩ := separated_inj (by simpa using hs) (by simpa using ht) hlist
  exact ⟨String.toList_inj.mp (List.reverse_inj.mp hab),
    String.toList_inj.mp (List.reverse_inj.mp hst)⟩

theorem terminated_inj {l m : List (List α)} (hl : ∀ s ∈ l, c ∉ s) (hm : ∀ s ∈ m, c ∉ s)
    (h : l.flatMap (· ++ [c]) = m.flatMap (· ++ [c])) : l = m := by
  induction l generalizing m with
  | nil =>
    cases m with
    | nil => rfl
    | cons t m => simp at h
  | cons s l ih =>
    cases m with
    | nil => simp at h
    | cons t m =>
      simp only [List.flatMap_cons, List.append_assoc, List.singleton_append] at h
      obtain ⟨hst, hrest⟩ := separated_inj (hl s List.mem_cons_self) (hm t List.mem_cons_self) h
      rw [hst, ih (fun s hs => hl s (List.mem_cons_of_mem _ hs))
        (fun s hs => hm s (List.mem_cons_of_mem _ hs)) hrest]

/-- A name and its attributes, each attribute behind `c` with `e` between key and value. -/
def labelled (c e : α) (name : List α) (attributes : List (List α × List α)) : List α :=
  name ++ attributes.flatMap fun a => c :: (a.1 ++ e :: a.2)

theorem labelled_terminated (name : List α) (attributes : List (List α × List α)) :
    labelled c e name attributes ++ [c] =
      (name :: attributes.map fun a => a.1 ++ e :: a.2).flatMap (· ++ [c]) := by
  induction attributes generalizing name with
  | nil => simp [labelled]
  | cons a rest ih =>
    have hrest := ih (a.1 ++ e :: a.2)
    simp only [labelled, List.flatMap_cons, List.map_cons, List.append_assoc, List.cons_append,
      List.nil_append] at hrest ⊢
    rw [hrest]

/-- What may stand in a name and its attributes for them to be read back. The values may
contain `e`. -/
structure Readable (c e : α) (name : List α) (attributes : List (List α × List α)) : Prop where
  name : c ∉ name
  key : ∀ a ∈ attributes, c ∉ a.1 ∧ e ∉ a.1
  value : ∀ a ∈ attributes, c ∉ a.2

theorem Readable.part {name : List α} {attributes : List (List α × List α)} (hce : c ≠ e)
    (h : Readable c e name attributes) :
    ∀ s ∈ name :: attributes.map fun a => a.1 ++ e :: a.2, c ∉ s := by
  intro s hs
  rcases List.mem_cons.mp hs with rfl | hs
  · exact h.name
  · obtain ⟨a, ha, rfl⟩ := List.mem_map.mp hs
    simp only [List.mem_append, List.mem_cons, not_or]
    exact ⟨(h.key a ha).1, hce, h.value a ha⟩

theorem attributes_inj {l m : List (List α × List α)} (hl : ∀ a ∈ l, e ∉ a.1)
    (hm : ∀ a ∈ m, e ∉ a.1)
    (h : (l.map fun a => a.1 ++ e :: a.2) = m.map fun a => a.1 ++ e :: a.2) : l = m := by
  induction l generalizing m with
  | nil => exact (List.map_eq_nil_iff.mp h.symm).symm
  | cons a l ih =>
    cases m with
    | nil => cases h
    | cons b m =>
      obtain ⟨hhead, hrest⟩ := List.cons.inj h
      obtain ⟨hkey, hvalue⟩ :=
        separated_inj (hl a List.mem_cons_self) (hm b List.mem_cons_self) hhead
      rw [Prod.ext hkey hvalue, ih (fun a ha => hl a (List.mem_cons_of_mem _ ha))
        (fun a ha => hm a (List.mem_cons_of_mem _ ha)) hrest]

theorem labelled_inj {s t : List α} {l m : List (List α × List α)} (hce : c ≠ e)
    (hl : Readable c e s l) (hm : Readable c e t m)
    (h : labelled c e s l = labelled c e t m) : s = t ∧ l = m := by
  have hparts := congrArg (· ++ [c]) h
  simp only [labelled_terminated] at hparts
  obtain ⟨hname, hattributes⟩ :=
    List.cons.inj (terminated_inj (hl.part hce) (hm.part hce) hparts)
  exact ⟨hname, attributes_inj (fun a ha => (hl.key a ha).2) (fun a ha => (hm.key a ha).2)
    hattributes⟩

theorem rtakeWhile_append {p : α → Bool} {s t : List α} (hs : s.rtakeWhile p = [])
    (ht : ∀ c ∈ t, p c = true) : (s ++ t).rtakeWhile p = t := by
  have hrev : ∀ c ∈ t.reverse, p c = true := fun c hc => ht c (List.mem_reverse.mp hc)
  rw [List.rtakeWhile, List.reverse_append, List.takeWhile_append_of_pos hrev,
    List.reverse_append, List.reverse_reverse]
  rw [List.rtakeWhile] at hs
  rw [hs, List.nil_append]

theorem rdropWhile_append {p : α → Bool} {s t : List α} (ht : ∀ c ∈ t, p c = true) :
    (s ++ t).rdropWhile p = s.rdropWhile p := by
  have hrev : ∀ c ∈ t.reverse, p c = true := fun c hc => ht c (List.mem_reverse.mp hc)
  rw [List.rdropWhile, List.rdropWhile, List.reverse_append, List.dropWhile_append_of_pos hrev]

section Cut
variable {α : Type} [DecidableEq α] {c : α}

/-- The text around the first separator. -/
def cutFirst (c : α) : List α → Option (List α × List α)
  | [] => none
  | x :: l => if x = c then some ([], l) else (cutFirst c l).map fun cut => (x :: cut.1, cut.2)

/-- The text around the last separator. -/
def cutLast (c : α) (l : List α) : Option (List α × List α) :=
  (cutFirst c l.reverse).map fun cut => (cut.2.reverse, cut.1.reverse)

theorem cutFirst_append {s t : List α} (hs : c ∉ s) : cutFirst c (s ++ c :: t) = some (s, t) := by
  induction s with
  | nil => simp [cutFirst]
  | cons x s ih =>
    obtain ⟨hx, hs⟩ := not_or.mp (List.mem_cons.not.mp hs)
    rw [List.cons_append, cutFirst, if_neg (Ne.symm hx), ih hs, Option.map_some]

theorem cutFirst_eq_none {l : List α} (h : c ∉ l) : cutFirst c l = none := by
  induction l with
  | nil => rfl
  | cons x l ih =>
    obtain ⟨hx, hl⟩ := not_or.mp (List.mem_cons.not.mp h)
    rw [cutFirst, if_neg (Ne.symm hx), ih hl, Option.map_none]

theorem cutFirst_eq_some_iff {l s t : List α} :
    cutFirst c l = some (s, t) ↔ l = s ++ c :: t ∧ c ∉ s := by
  constructor
  · intro h
    by_cases hc : c ∈ l
    · obtain ⟨u, v, rfl, hu⟩ := List.eq_append_cons_of_mem hc
      rw [cutFirst_append hu] at h
      obtain ⟨rfl, rfl⟩ := Prod.mk.inj (Option.some.inj h)
      exact ⟨rfl, hu⟩
    · rw [cutFirst_eq_none hc] at h
      cases h
  · rintro ⟨rfl, hs⟩
    exact cutFirst_append hs

theorem cutLast_eq_some_iff {l s t : List α} :
    cutLast c l = some (s, t) ↔ l = s ++ c :: t ∧ c ∉ t := by
  have hreverse : l = s ++ c :: t ↔ l.reverse = t.reverse ++ c :: s.reverse := by
    rw [← List.reverse_inj]
    simp
  rw [hreverse, ← List.mem_reverse, ← cutFirst_eq_some_iff, cutLast, Option.map_eq_some_iff]
  constructor
  · rintro ⟨⟨u, v⟩, hcut, heq⟩
    obtain ⟨rfl, rfl⟩ := Prod.mk.inj heq
    simpa using hcut
  · intro hcut
    exact ⟨_, hcut, by simp⟩

end Cut

end Delimited
