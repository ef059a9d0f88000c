import Mathlib.Data.List.Basic
import Mathlib.Data.List.Infix
import Mathlib.Tactic.Common

/-!
# Trimming words off both ends

A list without the words of a set at its ends, one after the other.
-/

namespace WordTrim
variable {α : Type} {words : List (List α)} {s t : List α} {n : ℕ}

/-- No word stands at the front. -/
def FreeLeft (words : List (List α)) (s : List α) : Prop := ∀ w ∈ words, ¬w <+: s

def FreeRight (words : List (List α)) (s : List α) : Prop := ∀ w ∈ words, ¬w <:+ s

theorem FreeLeft.of_append (h : FreeLeft words (s ++ t)) : FreeLeft words s :=
  fun w hw hfront => h w hw (hfront.trans (List.prefix_append s t))

theorem freeLeft_cons {c : α} (hwords : ∀ w ∈ words, w ≠ []) (hc : ∀ w ∈ words, c ∉ w) :
    FreeLeft words (c :: s) := by
  intro w hw hfront
  cases w with
  | nil => exact hwords [] hw rfl
  | cons d w =>
    obtain ⟨rfl, -⟩ := List.cons_prefix_cons.mp hfront
    exact hc _ hw List.mem_cons_self

/-- A letter that is in no word, right behind a text, shields what is behind it. -/
theorem FreeLeft.append {c : α} (hc : ∀ w ∈ words, c ∉ w) (h : FreeLeft words s) :
    FreeLeft words (s ++ c :: t) := by
  intro w hw hfront
  by_cases hlength : w.length ≤ s.length
  · exact h w hw (List.prefix_of_prefix_length_le hfront (List.prefix_append s _) hlength)
  · have hlong : s ++ [c] <+: s ++ c :: t := ⟨t, by simp⟩
    have hshort : s ++ [c] <+: w :=
      List.prefix_of_prefix_length_le hlong hfront
        (by simp only [List.length_append, List.length_singleton]; omega)
    exact hc w hw (hshort.subset (by simp))

theorem freeRight_iff : FreeRight words s ↔ FreeLeft (words.map List.reverse) s.reverse := by
  simp only [FreeRight, FreeLeft, List.forall_mem_map, List.reverse_prefix]

theorem freeRight_concat {c : α} (hwords : ∀ w ∈ words, w ≠ []) (hc : ∀ w ∈ words, c ∉ w) :
    FreeRight words (s ++ [c]) := by
  rw [freeRight_iff, List.reverse_append, List.reverse_singleton, List.singleton_append]
  refine freeLeft_cons (fun w hw => ?_) fun w hw hmem => ?_
  · obtain ⟨v, hv, rfl⟩ := List.mem_map.mp hw
    simpa using hwords v hv
  · obtain ⟨v, hv, rfl⟩ := List.mem_map.mp hw
    exact hc v hv (List.mem_reverse.mp hmem)

variable [DecidableEq α]

/-- Drops at most `n` words at the front. -/
def dropWords (words : List (List α)) : ℕ → List α → List α
  | 0, s => s
  | n + 1, s =>
    match words.find? fun w => w.isPrefixOf s with
    | none => s
    | some w => dropWords words n (s.drop w.length)

def trimLeft (words : List (List α)) (s : List α) : List α := dropWords words s.length s

def trimRight (words : List (List α)) (s : List α) : List α :=
  (trimLeft (words.map List.reverse) s.reverse).reverse

def trim (words : List (List α)) (s : List α) : List α := trimRight words (trimLeft words s)

theorem find?_eq_none_iff :
    (words.find? fun w => w.isPrefixOf s) = none ↔ FreeLeft words s := by
  simp [FreeLeft, List.find?_eq_none]

theorem dropWords_of_freeLeft (h : FreeLeft words s) : dropWords words n s = s := by
  cases n with
  | zero => rfl
  | succ n => rw [dropWords, find?_eq_none_iff.mpr h]

/-- What is dropped is made of letters of the words. -/
theorem dropWords_split (words : List (List α)) (n : ℕ) (s : List α) :
    ∃ front, s = front ++ dropWords words n s ∧ ∀ c ∈ front, ∃ w ∈ words, c ∈ w := by
  induction n generalizing s with
  | zero => exact ⟨[], rfl, by simp⟩
  | succ n ih =>
    rw [dropWords]
    cases hfind : words.find? fun w => w.isPrefixOf s with
    | none => exact ⟨[], rfl, by simp⟩
    | some w =>
      have hmem := List.mem_of_find?_eq_some hfind
      have hfound := List.find?_some hfind
      have hfront : w <+: s := List.isPrefixOf_iff_prefix.mp hfound
      obtain ⟨front, hs, hletters⟩ := ih (s.drop w.length)
      refine ⟨w ++ front, ?_, fun c hc => ?_⟩
      · rw [List.append_assoc, ← hs]
        exact List.prefix_append_drop hfront
      · rcases List.mem_append.mp hc with hc | hc
        · exact ⟨w, hmem, hc⟩
        · exact hletters c hc

theorem freeLeft_dropWords (hwords : ∀ w ∈ words, w ≠ []) (hn : s.length ≤ n) :
    FreeLeft words (dropWords words n s) := by
  induction n generalizing s with
  | zero =>
    rw [List.eq_nil_of_length_eq_zero (Nat.le_zero.mp hn)]
    exact fun w hw h => hwords w hw (List.prefix_nil.mp h)
  | succ n ih =>
    rw [dropWords]
    cases hfind : words.find? fun w => w.isPrefixOf s with
    | none => exact find?_eq_none_iff.mp hfind
    | some w =>
      have hpos := List.length_pos_of_ne_nil (hwords w (List.mem_of_find?_eq_some hfind))
      refine ih ?_
      rw [List.length_drop]
      omega

theorem trimRight_split (words : List (List α)) (s : List α) :
    ∃ back, s = trimRight words s ++ back ∧ ∀ c ∈ back, ∃ w ∈ words, c ∈ w := by
  obtain ⟨front, hs, hletters⟩ :=
    dropWords_split (words.map List.reverse) s.reverse.length s.reverse
  refine ⟨front.reverse, ?_, fun c hc => ?_⟩
  · rw [trimRight, trimLeft, ← List.reverse_append, ← hs, List.reverse_reverse]
  · obtain ⟨w, hw, hc⟩ := hletters c (List.mem_reverse.mp hc)
    obtain ⟨v, hv, rfl⟩ := List.mem_map.mp hw
    exact ⟨v, hv, List.mem_reverse.mp hc⟩

theorem freeRight_trimRight (hwords : ∀ w ∈ words, w ≠ []) :
    FreeRight words (trimRight words s) := by
  rw [freeRight_iff, trimRight, List.reverse_reverse]
  refine freeLeft_dropWords (fun w hw => ?_) le_rfl
  obtain ⟨v, hv, rfl⟩ := List.mem_map.mp hw
  simpa using hwords v hv

theorem trimRight_eq_self (h : FreeRight words s) : trimRight words s = s := by
  rw [trimRight, trimLeft, dropWords_of_freeLeft (freeRight_iff.mp h), List.reverse_reverse]

/-- A text that starts and ends with no word is left alone. -/
theorem trim_eq_self (hleft : FreeLeft words s) (hright : FreeRight words s) :
    trim words s = s := by
  rw [trim, trimLeft, dropWords_of_freeLeft hleft, trimRight_eq_self hright]

theorem free_trim (hwords : ∀ w ∈ words, w ≠ []) :
    FreeLeft words (trim words s) ∧ FreeRight words (trim words s) := by
  refine ⟨?_, freeRight_trimRight hwords⟩
  obtain ⟨back, hsplit, -⟩ := trimRight_split words (trimLeft words s)
  have hleft : FreeLeft words (trimLeft words s) := freeLeft_dropWords hwords le_rfl
  rw [hsplit] at hleft
  exact hleft.of_append

theorem trim_trim (hwords : ∀ w ∈ words, w ≠ []) : trim words (trim words s) = trim words s :=
  trim_eq_self (free_trim hwords).1 (free_trim hwords).2

/-- Letters that are in no word stay. -/
theorem mem_trim_iff {c : α} (hc : ∀ w ∈ words, c ∉ w) : c ∈ trim words s ↔ c ∈ s := by
  obtain ⟨front, hs, hfront⟩ := dropWords_split words s.length s
  obtain ⟨back, ht, hback⟩ := trimRight_split words (trimLeft words s)
  have hall : s = front ++ trim words s ++ back := by
    rw [List.append_assoc, trim, ← ht]
    exact hs
  rw [hall, List.mem_append, List.mem_append, ← hall]
  constructor
  · exact fun h => Or.inl (Or.inr h)
  · rintro ((h | h) | h)
    · obtain ⟨w, hw, hmem⟩ := hfront c h
      exact absurd hmem (hc w hw)
    · exact h
    · obtain ⟨w, hw, hmem⟩ := hback c h
      exact absurd hmem (hc w hw)

end WordTrim
