import Gaoming.Delimited

/-!
# Network addresses with a port

`host:port` and `[host]:port` on byte strings, as the `net` package of Go splits and joins
them.
-/

namespace HostPort
open Delimited

abbrev Bytes := List UInt8

abbrev colon : UInt8 := 0x3A
abbrev openBracket : UInt8 := 0x5B
abbrev closeBracket : UInt8 := 0x5D

inductive AddrError
  | missingPort
  | tooManyColons
  | missingBracket
  | unexpectedOpen
  | unexpectedClose
  deriving DecidableEq

def splitHostPort (a : Bytes) : Except AddrError (Bytes × Bytes) :=
  match cutLast colon a with
  | none => .error .missingPort
  | some (front, port) =>
    if a.head? = some openBracket then
      match cutFirst closeBracket a.tail with
      | none => .error .missingBracket
      | some (host, after) =>
        -- The first closing bracket has to stand just before the last colon.
        if after = [] then .error .missingPort
        else if after ≠ colon :: port then
          if after.head? = some colon then .error .tooManyColons else .error .missingPort
        else if openBracket ∈ a.tail then .error .unexpectedOpen
        else if closeBracket ∈ after then .error .unexpectedClose
        else .ok (host, port)
    else if colon ∈ front then .error .tooManyColons
    else if openBracket ∈ a then .error .unexpectedOpen
    else if closeBracket ∈ a then .error .unexpectedClose
    else .ok (front, port)

def joinHostPort (host port : Bytes) : Bytes :=
  if colon ∈ host then openBracket :: (host ++ closeBracket :: colon :: port)
  else host ++ colon :: port

structure Unbracketed (s : Bytes) : Prop where
  noOpen : openBracket ∉ s
  noClose : closeBracket ∉ s

/-- An address in one of the two forms. -/
structure Splits (a host port : Bytes) : Prop where
  form : a = openBracket :: (host ++ closeBracket :: colon :: port) ∨
    a = host ++ colon :: port ∧ colon ∉ host
  plainHost : Unbracketed host
  plainPort : Unbracketed port
  lastColon : colon ∉ port

variable {a host port : Bytes}

theorem splits_of_eq_ok (h : splitHostPort a = .ok (host, port)) : Splits a host port := by
  unfold splitHostPort at h
  split at h
  · cases h
  · next front port' hlast =>
    obtain ⟨ha, hport⟩ := cutLast_eq_some_iff.mp hlast
    by_cases hopen : a.head? = some openBracket
    · rw [if_pos hopen] at h
      split at h
      · cases h
      · next host' after hfirst =>
        obtain ⟨htail, hhost⟩ := cutFirst_eq_some_iff.mp hfirst
        split_ifs at h with _ hafter _ hno hnc
        obtain ⟨rfl, rfl⟩ := Prod.mk.inj (Except.ok.inj h)
        rw [not_not] at hafter
        subst hafter
        have hform : a = openBracket :: (host' ++ closeBracket :: colon :: port') := by
          rw [← htail]
          exact (List.cons_head?_tail hopen).symm
        rw [htail] at hno
        simp only [List.mem_append, List.mem_cons, not_or] at hno hnc
        exact ⟨Or.inl hform, ⟨hno.1, hhost⟩, ⟨hno.2.2.2, hnc.2⟩, hport⟩
    · rw [if_neg hopen] at h
      split_ifs at h with hfront hno hnc
      obtain ⟨rfl, rfl⟩ := Prod.mk.inj (Except.ok.inj h)
      rw [ha] at hno hnc
      simp only [List.mem_append, List.mem_cons, not_or] at hno hnc
      exact ⟨Or.inr ⟨ha, hfront⟩, ⟨hno.1, hnc.1⟩, ⟨hno.2.2, hnc.2.2⟩, hport⟩

theorem Splits.eq_ok (h : Splits a host port) : splitHostPort a = .ok (host, port) := by
  obtain ⟨rfl | ⟨rfl, hhost⟩, ⟨hho, hhc⟩, ⟨hpo, hpc⟩, hpcolon⟩ := h
  · have hlast : cutLast colon (openBracket :: (host ++ closeBracket :: colon :: port)) =
        some (openBracket :: (host ++ [closeBracket]), port) :=
      cutLast_eq_some_iff.mpr ⟨by simp, hpcolon⟩
    have hno : openBracket ∉ host ++ closeBracket :: colon :: port := by
      simp only [List.mem_append, List.mem_cons, not_or]
      exact ⟨hho, by decide, by decide, hpo⟩
    have hnc : closeBracket ∉ colon :: port := by
      simp only [List.mem_cons, not_or]
      exact ⟨by decide, hpc⟩
    simp only [splitHostPort, hlast, List.head?_cons, List.tail_cons, cutFirst_append hhc, if_true,
      List.cons_ne_nil, ne_eq, not_true_eq_false, if_false, hno, hnc]
  · have hlast : cutLast colon (host ++ colon :: port) = some (host, port) :=
      cutLast_eq_some_iff.mpr ⟨rfl, hpcolon⟩
    have hno : openBracket ∉ host ++ colon :: port := by
      simp only [List.mem_append, List.mem_cons, not_or]
      exact ⟨hho, by decide, hpo⟩
    have hnc : closeBracket ∉ host ++ colon :: port := by
      simp only [List.mem_append, List.mem_cons, not_or]
      exact ⟨hhc, by decide, hpc⟩
    have hhead : (host ++ colon :: port).head? ≠ some openBracket := by
      intro hhead
      exact hno (List.mem_of_mem_head? hhead)
    simp only [splitHostPort, hlast, hhead, if_false, hhost, hno, hnc]

theorem splitHostPort_joinHostPort (hhost : Unbracketed host) (hport : Unbracketed port)
    (hcolon : colon ∉ port) : splitHostPort (joinHostPort host port) = .ok (host, port) := by
  unfold joinHostPort
  split_ifs with h
  · exact Splits.eq_ok ⟨Or.inl rfl, hhost, hport, hcolon⟩
  · exact Splits.eq_ok ⟨Or.inr ⟨rfl, h⟩, hhost, hport, hcolon⟩

end HostPort
