import Mathlib.Data.Nat.Digits.Lemmas
import Gaoming.HostPort

/-!
# IP addresses as text

Dotted decimal and colon separated hexadecimal addresses on byte strings, as the `net`
package of Go reads and writes them. An address is eight groups of sixteen bits; an IPv4
address is the last two groups behind `::ffff:0:0`.
-/

namespace IPText
open Delimited HostPort

abbrev dot : UInt8 := 0x2E

structure IP where
  groups : List UInt16
  length : groups.length = 8
  deriving DecidableEq

def IP.ofIPv4 (high low : UInt16) : IP := ⟨[0, 0, 0, 0, 0, 0xFFFF, high, low], rfl⟩

/-- The two groups of an IPv4 address. -/
def IP.to4 (ip : IP) : Option (UInt16 × UInt16) :=
  if ip.groups.take 6 = [0, 0, 0, 0, 0, 0xFFFF] then
    match ip.groups.drop 6 with
    | [high, low] => some (high, low)
    | _ => none
  else none

def IP.isLoopback (ip : IP) : Bool :=
  match ip.to4 with
  | some (high, _) => high.toNat / 256 = 127
  | none => ip.groups = [0, 0, 0, 0, 0, 0, 0, 1]

def digitValue (c : UInt8) : Option ℕ :=
  if 0x30 ≤ c ∧ c ≤ 0x39 then some (c.toNat - 0x30)
  else if 0x61 ≤ c ∧ c ≤ 0x66 then some (c.toNat - 0x61 + 10)
  else if 0x41 ≤ c ∧ c ≤ 0x46 then some (c.toNat - 0x41 + 10)
  else none

def digitsValue (base : ℕ) (text : Bytes) : Option ℕ :=
  (text.mapM fun c => (digitValue c).filter (· < base)).map fun digits =>
    Nat.ofDigits base digits.reverse

/-- One to four hexadecimal digits. -/
def hexGroup (text : Bytes) : Option UInt16 :=
  if text ≠ [] ∧ text.length ≤ 4 then (digitsValue 16 text).map UInt16.ofNat else none

/-- A decimal number up to 255 without a leading zero. -/
def octet (text : Bytes) : Option ℕ :=
  if text ≠ [] ∧ (text.head? = some 0x30 → text.length = 1) then
    (digitsValue 10 text).filter (· ≤ 255)
  else none

def parse4 (text : Bytes) : Option (UInt16 × UInt16) :=
  match text.splitOn dot with
  | [a, b, c, d] =>
    (octet a).bind fun a => (octet b).bind fun b => (octet c).bind fun c => (octet d).map fun d =>
      (UInt16.ofNat (a * 256 + b), UInt16.ofNat (c * 256 + d))
  | _ => none

/-- The groups of the pieces between colons; the last piece may be an IPv4 address. -/
def groupsOf : List Bytes → Option (List UInt16)
  | [] => none
  | [last] =>
    if dot ∈ last then (parse4 last).map fun (high, low) => [high, low]
    else (hexGroup last).map ([·])
  | piece :: rest => (hexGroup piece).bind fun group => (groupsOf rest).map (group :: ·)

def ofGroups (groups : List UInt16) : Option IP :=
  if h : groups.length = 8 then some ⟨groups, h⟩ else none

/-- The pieces on both sides of a double colon, which stands for at least one group. -/
def expand (left right : List Bytes) : Option IP :=
  (left.mapM hexGroup).bind fun left =>
    (if right = [[]] then some [] else groupsOf right).bind fun right =>
      if left.length + right.length ≤ 7 then
        ofGroups (left ++ List.replicate (8 - (left.length + right.length)) 0 ++ right)
      else none

/-- A double colon leaves an empty piece, and another one at an end of the text. -/
def parse6 (text : Bytes) : Option IP :=
  match cutFirst [] (text.splitOn colon) with
  | none => (groupsOf (text.splitOn colon)).bind ofGroups
  | some ([], [] :: right) => expand [] right
  | some ([], _) => none
  | some (left, right) => expand left right

/-- `ParseIP`. -/
def parse (text : Bytes) : Option IP :=
  if colon ∈ text then parse6 text else (parse4 text).map fun (high, low) => .ofIPv4 high low

def digitByte (d : ℕ) : UInt8 :=
  if d < 10 then UInt8.ofNat (0x30 + d) else UInt8.ofNat (0x61 + (d - 10))

def number (base n : ℕ) : Bytes :=
  if n = 0 then [0x30] else (Nat.digits base n).reverse.map digitByte

def showGroup (group : UInt16) : Bytes := number 16 group.toNat

def show4 (high low : UInt16) : Bytes :=
  [dot].intercalate [number 10 (high.toNat / 256), number 10 (high.toNat % 256),
    number 10 (low.toNat / 256), number 10 (low.toNat % 256)]

/-- The first of the longest runs of two or more zero groups: where it starts and its
length. -/
def zeroRun (groups : List UInt16) : ℕ × ℕ :=
  (List.range groups.length).foldl
    (fun best i =>
      let length := ((groups.drop i).takeWhile (· = 0)).length
      if 2 ≤ length ∧ best.2 < length then (i, length) else best)
    (0, 0)

/-- An end of the text next to the double colon. -/
def sideOf (groups : List UInt16) : List Bytes :=
  if groups = [] then [[]] else groups.map showGroup

def show6 (groups : List UInt16) : Bytes :=
  let (start, length) := zeroRun groups
  if length = 0 then [colon].intercalate (groups.map showGroup)
  else [colon].intercalate
    (sideOf (groups.take start) ++ [] :: sideOf (groups.drop (start + length)))

/-- `IP.String`. -/
def IP.text (ip : IP) : Bytes :=
  match ip.to4 with
  | some (high, low) => show4 high low
  | none => show6 ip.groups

theorem digitValue_digitByte : ∀ d < 16, digitValue (digitByte d) = some d := by decide

theorem mapM_map_eq {α β γ : Type} {f : β → Option γ} {g : α → β} {h : α → γ} {l : List α}
    (hf : ∀ x ∈ l, f (g x) = some (h x)) : (l.map g).mapM f = some (l.map h) := by
  induction l with
  | nil => rfl
  | cons x l ih =>
    rw [List.map_cons, List.mapM_cons, hf x List.mem_cons_self,
      ih fun y hy => hf y (List.mem_cons_of_mem _ hy)]
    rfl

section Numbers
variable {base n : ℕ}

theorem digitsValue_number (hbase : 1 < base) (hbase' : base ≤ 16) :
    digitsValue base (number base n) = some n := by
  unfold number
  split_ifs with hn
  · subst hn
    simp [digitsValue, digitValue, show 0 < base by omega]
  · have hdigit : ∀ d ∈ (Nat.digits base n).reverse,
        ((digitValue (digitByte d)).filter (· < base)) = some (id d) := by
      intro d hd
      have hlt : d < base := Nat.digits_lt_base hbase (List.mem_reverse.mp hd)
      rw [digitValue_digitByte d (by omega), Option.filter_some, if_pos (decide_eq_true hlt)]
      rfl
    have hmapM :=
      mapM_map_eq (f := fun c => (digitValue c).filter (· < base)) (g := digitByte) hdigit
    rw [digitsValue, hmapM, List.map_id, Option.map_some, List.reverse_reverse,
      Nat.ofDigits_digits]

theorem number_ne_nil (base n : ℕ) : number base n ≠ [] := by
  unfold number
  split_ifs with h
  · exact List.cons_ne_nil _ _
  · simpa [Nat.digits_eq_nil_iff_eq_zero] using h

theorem length_number (hbase : 1 < base) (hn : n < base ^ 4) : (number base n).length ≤ 4 := by
  unfold number
  split_ifs with h
  · simp
  · rw [List.length_map, List.length_reverse]
    exact (Nat.digits_length_le_iff hbase n).mpr hn

/-- The bytes of the digits. -/
def hexByte (c : UInt8) : Bool := (digitValue c).isSome

theorem hexByte_number (hbase : 1 < base) (hbase' : base ≤ 16) :
    ∀ c ∈ number base n, hexByte c = true := by
  intro c hc
  unfold number at hc
  split_ifs at hc with h
  · rw [List.mem_singleton.mp hc]
    rfl
  · obtain ⟨d, hd, rfl⟩ := List.mem_map.mp hc
    have hlt : d < base := Nat.digits_lt_base hbase (List.mem_reverse.mp hd)
    rw [hexByte, digitValue_digitByte d (by omega), Option.isSome_some]

end Numbers

theorem octet_number : ∀ n < 256, octet (number 10 n) = some n := by decide +kernel

theorem hexGroup_showGroup (group : UInt16) : hexGroup (showGroup group) = some group := by
  have hlt : group.toNat < 16 ^ 4 := group.toNat_lt
  rw [hexGroup, showGroup, if_pos ⟨number_ne_nil 16 _, length_number (by decide) hlt⟩,
    digitsValue_number (by decide) le_rfl, Option.map_some, UInt16.ofNat_toNat]

theorem notMem_showGroup {c : UInt8} (hc : hexByte c = false) (group : UInt16) :
    c ∉ showGroup group := by
  intro hmem
  rw [hexByte_number (by decide) le_rfl c hmem] at hc
  cases hc

theorem showGroup_ne_nil (group : UInt16) : showGroup group ≠ [] := number_ne_nil 16 _

theorem parse4_show4 (high low : UInt16) : parse4 (show4 high low) = some (high, low) := by
  have hplain : ∀ piece ∈ [number 10 (high.toNat / 256), number 10 (high.toNat % 256),
      number 10 (low.toNat / 256), number 10 (low.toNat % 256)], dot ∉ piece := by
    simp only [List.forall_mem_cons, List.not_mem_nil, false_imp_iff, implies_true, and_true]
    refine ⟨?_, ?_, ?_, ?_⟩ <;>
      exact fun h => absurd (hexByte_number (by decide) (by decide) _ h) (by decide)
  have hhigh := high.toNat_lt
  have hlow := low.toNat_lt
  rw [parse4, show4, List.splitOn_intercalate dot hplain (List.cons_ne_nil _ _)]
  simp only [octet_number _ (show high.toNat / 256 < 256 by omega),
    octet_number _ (show high.toNat % 256 < 256 by omega),
    octet_number _ (show low.toNat / 256 < 256 by omega),
    octet_number _ (show low.toNat % 256 < 256 by omega), Option.bind_some, Option.map_some,
    Nat.div_add_mod', UInt16.ofNat_toNat]

theorem groupsOf_showGroup {groups : List UInt16} (h : groups ≠ []) :
    groupsOf (groups.map showGroup) = some groups := by
  induction groups with
  | nil => exact absurd rfl h
  | cons group groups ih =>
    cases groups with
    | nil =>
      rw [List.map_singleton, groupsOf, if_neg (notMem_showGroup (by decide) group),
        hexGroup_showGroup, Option.map_some]
    | cons next groups =>
      rw [List.map_cons, List.map_cons, groupsOf, hexGroup_showGroup, Option.bind_some,
        ← List.map_cons, ih (List.cons_ne_nil _ _), Option.map_some]
      simp

theorem zeros_at (groups : List UInt16) (i : ℕ) :
    groups = groups.take i ++ List.replicate ((groups.drop i).takeWhile (· = 0)).length 0 ++
      groups.drop (i + ((groups.drop i).takeWhile (· = 0)).length) := by
  have hzeros : (groups.drop i).takeWhile (· = 0) =
      List.replicate ((groups.drop i).takeWhile (· = 0)).length 0 :=
    List.eq_replicate_of_mem fun g hg => by simpa using List.mem_takeWhile_imp hg
  have hrest : (groups.drop i).drop ((groups.drop i).takeWhile (· = 0)).length =
      (groups.drop i).dropWhile (· = 0) := by
    have hsplit := @List.takeWhile_append_dropWhile _ (· = 0) (groups.drop i)
    exact (congrArg (List.drop _) hsplit.symm).trans List.drop_left
  rw [← List.drop_drop, hrest, ← hzeros, List.append_assoc, List.takeWhile_append_dropWhile,
    List.take_append_drop]

/-- The run is empty, or at least two zero groups inside the address. -/
def IsZeroRun (groups : List UInt16) (run : ℕ × ℕ) : Prop :=
  run.2 = 0 ∨ 2 ≤ run.2 ∧
    groups = groups.take run.1 ++ List.replicate run.2 0 ++ groups.drop (run.1 + run.2)

theorem isZeroRun_zeroRun (groups : List UInt16) : IsZeroRun groups (zeroRun groups) := by
  refine List.foldlRecOn (motive := IsZeroRun groups) _ _ (Or.inl rfl) fun best hbest i hi => ?_
  dsimp only
  split_ifs with h
  · exact Or.inr ⟨h.1, zeros_at groups i⟩
  · exact hbest

theorem notMem_sideOf {c : UInt8} (hc : hexByte c = false) {groups : List UInt16} :
    ∀ piece ∈ sideOf groups, c ∉ piece := by
  unfold sideOf
  split_ifs
  · simp
  · intro piece hpiece
    obtain ⟨group, -, rfl⟩ := List.mem_map.mp hpiece
    exact notMem_showGroup hc group

theorem right_sideOf (groups : List UInt16) :
    (if sideOf groups = [[]] then some [] else groupsOf (sideOf groups)) = some groups := by
  cases groups with
  | nil => rfl
  | cons group groups =>
    have hside : sideOf (group :: groups) = (group :: groups).map showGroup := rfl
    have hne : (group :: groups).map showGroup ≠ [[]] := by
      intro h
      exact showGroup_ne_nil group (List.cons.inj h).1
    rw [hside, if_neg hne, groupsOf_showGroup (List.cons_ne_nil _ _)]

theorem expand_showGroup {groups left right : List UInt16} {n : ℕ} (hn : 2 ≤ n)
    (hgroups : groups = left ++ List.replicate n 0 ++ right) (hlength : groups.length = 8) :
    expand (left.map showGroup) (sideOf right) = some ⟨groups, hlength⟩ := by
  subst hgroups
  have hleft : (left.map showGroup).mapM hexGroup = some (left.map id) :=
    mapM_map_eq fun group _ => hexGroup_showGroup group
  have hlength' := hlength
  simp only [List.length_append, List.length_replicate] at hlength'
  have hrest : 8 - (left.length + right.length) = n := by omega
  rw [expand, hleft, List.map_id, Option.bind_some, right_sideOf, Option.bind_some,
    if_pos (by omega), hrest, ofGroups, dif_pos hlength]

theorem parse6_compressed (left right : List UInt16) :
    parse6 ([colon].intercalate (sideOf left ++ [] :: sideOf right)) =
      expand (left.map showGroup) (sideOf right) := by
  have hplain : ∀ piece ∈ sideOf left ++ [] :: sideOf right, colon ∉ piece := by
    simp only [List.forall_mem_append, List.forall_mem_cons]
    exact ⟨notMem_sideOf (by decide), List.not_mem_nil, notMem_sideOf (by decide)⟩
  rw [parse6, List.splitOn_intercalate colon hplain (by simp)]
  cases left with
  | nil => rfl
  | cons group left =>
    have hside : sideOf (group :: left) = (group :: left).map showGroup := rfl
    have hcut : cutFirst [] (sideOf (group :: left) ++ [] :: sideOf right) =
        some ((group :: left).map showGroup, sideOf right) := by
      rw [hside]
      refine cutFirst_append fun hmem => ?_
      obtain ⟨group, -, hnil⟩ := List.mem_map.mp hmem
      exact showGroup_ne_nil group hnil
    rw [hcut]
    rfl

theorem parse6_full {groups : List UInt16} (hlength : groups.length = 8) :
    parse6 ([colon].intercalate (groups.map showGroup)) = some ⟨groups, hlength⟩ := by
  have hne : groups ≠ [] := List.ne_nil_of_length_pos (by omega)
  have hsplit : ([colon].intercalate (groups.map showGroup)).splitOn colon =
      groups.map showGroup := by
    refine List.splitOn_intercalate colon (fun piece hpiece => ?_) (by simpa using hne)
    obtain ⟨group, -, rfl⟩ := List.mem_map.mp hpiece
    exact notMem_showGroup (by decide) group
  have hcut : cutFirst [] (groups.map showGroup) = none := by
    refine cutFirst_eq_none fun hmem => ?_
    obtain ⟨group, -, hnil⟩ := List.mem_map.mp hmem
    exact showGroup_ne_nil group hnil
  rw [parse6, hsplit, hcut]
  simp only [groupsOf_showGroup hne, Option.bind_some, ofGroups, hlength, dif_pos]

theorem parse6_show6 {groups : List UInt16} (hlength : groups.length = 8) :
    parse6 (show6 groups) = some ⟨groups, hlength⟩ := by
  unfold show6
  dsimp only
  rcases isZeroRun_zeroRun groups with hzero | ⟨htwo, hgroups⟩
  · rw [if_pos hzero, parse6_full hlength]
  · rw [if_neg (by omega), parse6_compressed, expand_showGroup htwo hgroups hlength]

theorem mem_intercalate {α : Type} {x y : α} {ls : List (List α)} (h : y ∈ [x].intercalate ls) :
    y = x ∨ ∃ l ∈ ls, y ∈ l := by
  induction ls with
  | nil => cases h
  | cons l ls ih =>
    cases ls with
    | nil =>
      rw [List.intercalate_singleton] at h
      exact Or.inr ⟨l, List.mem_cons_self, h⟩
    | cons m ls =>
      rw [List.intercalate_cons_cons, List.append_assoc, List.mem_append, List.mem_append,
        List.mem_singleton] at h
      rcases h with h | h | h
      · exact Or.inr ⟨l, List.mem_cons_self, h⟩
      · exact Or.inl h
      · rcases ih h with h | ⟨k, hk, h⟩
        · exact Or.inl h
        · exact Or.inr ⟨k, List.mem_cons_of_mem _ hk, h⟩

theorem separator_mem_intercalate {α : Type} {x : α} {ls : List (List α)} (h : 2 ≤ ls.length) :
    x ∈ [x].intercalate ls := by
  match ls, h with
  | l :: m :: ls, _ => simp [List.intercalate_cons_cons]

def addressByte (c : UInt8) : Bool := hexByte c || c == colon || c == dot

theorem IP.to4_eq_some_iff {ip : IP} {high low : UInt16} :
    ip.to4 = some (high, low) ↔ ip = .ofIPv4 high low := by
  obtain ⟨groups, hlength⟩ := ip
  match groups, hlength with
  | [a, b, c, d, e, f, g, h], hlength =>
    simp only [IP.to4, IP.ofIPv4, IP.mk.injEq, List.take_succ_cons, List.take_zero,
      List.drop_succ_cons, List.drop_zero, List.cons.injEq, and_true]
    split_ifs with hmapped
    · obtain ⟨rfl, rfl, rfl, rfl, rfl, rfl⟩ := hmapped
      simp
    · simp only [false_iff]
      tauto

theorem bytes_show4 (high low : UInt16) : ∀ c ∈ show4 high low, hexByte c = true ∨ c = dot := by
  intro c hc
  rcases mem_intercalate hc with hc | ⟨piece, hpiece, hc⟩
  · exact Or.inr hc
  · simp only [List.mem_cons, List.not_mem_nil, or_false] at hpiece
    rcases hpiece with rfl | rfl | rfl | rfl <;>
      exact Or.inl (hexByte_number (by decide) (by decide) c hc)

theorem hexByte_sideOf {groups : List UInt16} :
    ∀ piece ∈ sideOf groups, ∀ c ∈ piece, hexByte c = true := by
  unfold sideOf
  split_ifs
  · simp
  · intro piece hpiece c hc
    obtain ⟨group, -, rfl⟩ := List.mem_map.mp hpiece
    exact hexByte_number (by decide) le_rfl c hc

theorem bytes_show6 (groups : List UInt16) : ∀ c ∈ show6 groups, hexByte c = true ∨ c = colon := by
  intro c hc
  unfold show6 at hc
  dsimp only at hc
  split_ifs at hc
  · rcases mem_intercalate hc with hc | ⟨piece, hpiece, hc⟩
    · exact Or.inr hc
    · obtain ⟨group, -, rfl⟩ := List.mem_map.mp hpiece
      exact Or.inl (hexByte_number (by decide) le_rfl c hc)
  · rcases mem_intercalate hc with hc | ⟨piece, hpiece, hc⟩
    · exact Or.inr hc
    · rcases List.mem_append.mp hpiece with hpiece | hpiece
      · exact Or.inl (hexByte_sideOf piece hpiece c hc)
      · rcases List.mem_cons.mp hpiece with rfl | hpiece
        · cases hc
        · exact Or.inl (hexByte_sideOf piece hpiece c hc)

theorem colon_mem_show6 {groups : List UInt16} (hlength : groups.length = 8) :
    colon ∈ show6 groups := by
  have hside (groups : List UInt16) : 1 ≤ (sideOf groups).length := by
    unfold sideOf
    split_ifs with h
    · exact le_rfl
    · rw [List.length_map]
      exact List.length_pos_of_ne_nil h
  unfold show6
  dsimp only
  split_ifs
  · exact separator_mem_intercalate (by rw [List.length_map, hlength]; decide)
  · refine separator_mem_intercalate ?_
    have hleft := hside (groups.take (zeroRun groups).1)
    rw [List.length_append, List.length_cons]
    omega

theorem parse_text (ip : IP) : parse ip.text = some ip := by
  unfold IP.text
  split
  · next high low h4 =>
    have hcolon : colon ∉ show4 high low := by
      intro hmem
      exact absurd (bytes_show4 high low colon hmem) (by decide)
    rw [parse, if_neg hcolon, parse4_show4, Option.map_some, IP.to4_eq_some_iff.mp h4]
  · rw [parse, if_pos (colon_mem_show6 ip.length), parse6_show6 ip.length]

theorem dot_mem_text_iff (ip : IP) : dot ∈ ip.text ↔ ip.to4.isSome := by
  unfold IP.text
  split
  · next high low h4 =>
    rw [h4]
    simp only [Option.isSome_some, iff_true]
    exact separator_mem_intercalate (Nat.le_add_left 2 2)
  · next h4 =>
    rw [h4]
    simp only [Option.isSome_none, Bool.false_eq_true, iff_false]
    intro hmem
    exact absurd (bytes_show6 ip.groups dot hmem) (by decide)

theorem addressByte_text (ip : IP) : ∀ c ∈ ip.text, addressByte c = true := by
  intro c hc
  unfold IP.text at hc
  split at hc
  · next high low _ =>
    rcases bytes_show4 high low c hc with h | rfl
    · simp [addressByte, h]
    · rfl
  · rcases bytes_show6 ip.groups c hc with h | rfl
    · simp [addressByte, h]
    · rfl

def Spelled (text : Bytes) : Prop := ∀ c ∈ text, addressByte c = true

theorem addressByte_of_hexByte {c : UInt8} (h : hexByte c = true) : addressByte c = true := by
  rw [addressByte, h]
  rfl

theorem isSome_of_mapM {α β : Type} {f : α → Option β} {l : List α} {r : List β}
    (h : l.mapM f = some r) : ∀ x ∈ l, (f x).isSome = true := by
  induction l generalizing r with
  | nil => simp
  | cons x l ih =>
    rw [List.mapM_cons] at h
    obtain ⟨y, hy, h⟩ := Option.bind_eq_some_iff.mp h
    obtain ⟨ys, hys, -⟩ := Option.bind_eq_some_iff.mp h
    refine List.forall_mem_cons.mpr ⟨by rw [hy, Option.isSome_some], ih hys⟩

theorem spelled_of_digitsValue {base n : ℕ} {text : Bytes} (h : digitsValue base text = some n) :
    Spelled text := by
  intro c hc
  obtain ⟨digits, hdigits, -⟩ := Option.map_eq_some_iff.mp h
  obtain ⟨d, hd⟩ := Option.isSome_iff_exists.mp (isSome_of_mapM hdigits c hc)
  apply addressByte_of_hexByte
  rw [hexByte, (Option.filter_eq_some_iff.mp hd).1, Option.isSome_some]

theorem spelled_of_hexGroup {text : Bytes} {group : UInt16} (h : hexGroup text = some group) :
    Spelled text := by
  obtain ⟨-, h⟩ := Option.ite_none_right_eq_some.mp h
  obtain ⟨n, hn, -⟩ := Option.map_eq_some_iff.mp h
  exact spelled_of_digitsValue hn

theorem spelled_of_octet {text : Bytes} {n : ℕ} (h : octet text = some n) : Spelled text := by
  obtain ⟨-, h⟩ := Option.ite_none_right_eq_some.mp h
  exact spelled_of_digitsValue (Option.filter_eq_some_iff.mp h).1

/-- A text is spelled with address bytes if its pieces at a colon or dot are. -/
theorem spelled_of_splitOn {x : UInt8} (hx : addressByte x = true) {text : Bytes}
    (h : ∀ piece ∈ text.splitOn x, Spelled piece) : Spelled text := by
  intro c hc
  have hjoin : [x].intercalate (text.splitOn x) = text := List.intercalate_splitOn x
  rw [← hjoin] at hc
  rcases mem_intercalate hc with rfl | ⟨piece, hpiece, hc⟩
  · exact hx
  · exact h piece hpiece c hc

theorem parse4_eq_some {text : Bytes} {r : UInt16 × UInt16} (h : parse4 text = some r) :
    ∃ a b c d, text.splitOn dot = [a, b, c, d] ∧ Spelled a ∧ Spelled b ∧ Spelled c ∧ Spelled d := by
  unfold parse4 at h
  split at h
  · next a b c d hsplit =>
    obtain ⟨na, ha, h⟩ := Option.bind_eq_some_iff.mp h
    obtain ⟨nb, hb, h⟩ := Option.bind_eq_some_iff.mp h
    obtain ⟨nc, hc, h⟩ := Option.bind_eq_some_iff.mp h
    obtain ⟨nd, hd, -⟩ := Option.map_eq_some_iff.mp h
    exact ⟨a, b, c, d, hsplit, spelled_of_octet ha, spelled_of_octet hb, spelled_of_octet hc,
      spelled_of_octet hd⟩
  · cases h

theorem spelled_of_parse4 {text : Bytes} {r : UInt16 × UInt16} (h : parse4 text = some r) :
    Spelled text := by
  obtain ⟨a, b, c, d, hsplit, ha, hb, hc, hd⟩ := parse4_eq_some h
  refine @spelled_of_splitOn dot rfl text ?_
  rw [hsplit]
  simp [ha, hb, hc, hd]

theorem dot_mem_of_parse4 {text : Bytes} {r : UInt16 × UInt16} (h : parse4 text = some r) :
    dot ∈ text := by
  obtain ⟨a, b, c, d, hsplit, -⟩ := parse4_eq_some h
  have hjoin : [dot].intercalate (text.splitOn dot) = text := List.intercalate_splitOn dot
  rw [← hjoin, hsplit]
  exact separator_mem_intercalate (Nat.le_add_left 2 2)

theorem spelled_of_groupsOf {pieces : List Bytes} {groups : List UInt16}
    (h : groupsOf pieces = some groups) : ∀ piece ∈ pieces, Spelled piece := by
  induction pieces generalizing groups with
  | nil => cases h
  | cons piece rest ih =>
    cases rest with
    | nil =>
      rw [groupsOf] at h
      refine List.forall_mem_singleton.mpr ?_
      split_ifs at h with hdot
      · obtain ⟨r, hr, -⟩ := Option.map_eq_some_iff.mp h
        exact spelled_of_parse4 hr
      · obtain ⟨group, hgroup, -⟩ := Option.map_eq_some_iff.mp h
        exact spelled_of_hexGroup hgroup
    | cons next rest =>
      rw [groupsOf] at h
      · obtain ⟨group, hgroup, h⟩ := Option.bind_eq_some_iff.mp h
        obtain ⟨groups', hrest, -⟩ := Option.map_eq_some_iff.mp h
        exact List.forall_mem_cons.mpr ⟨spelled_of_hexGroup hgroup, ih hrest⟩
      · simp

theorem spelled_of_expand {left right : List Bytes} {ip : IP} (h : expand left right = some ip) :
    (∀ piece ∈ left, Spelled piece) ∧ ∀ piece ∈ right, Spelled piece := by
  obtain ⟨leftGroups, hleft, h⟩ := Option.bind_eq_some_iff.mp h
  obtain ⟨rightGroups, hright, -⟩ := Option.bind_eq_some_iff.mp h
  constructor
  · intro piece hpiece
    obtain ⟨group, hgroup⟩ := Option.isSome_iff_exists.mp (isSome_of_mapM hleft piece hpiece)
    exact spelled_of_hexGroup hgroup
  · split_ifs at hright with hempty
    · rw [hempty]
      exact List.forall_mem_singleton.mpr fun c hc => absurd hc List.not_mem_nil
    · exact spelled_of_groupsOf hright

theorem spelled_of_parse6 {text : Bytes} {ip : IP} (h : parse6 text = some ip) : Spelled text := by
  refine @spelled_of_splitOn colon rfl text ?_
  have hnil : Spelled [] := fun c hc => absurd hc List.not_mem_nil
  unfold parse6 at h
  split at h
  · obtain ⟨groups, hgroups, -⟩ := Option.bind_eq_some_iff.mp h
    exact spelled_of_groupsOf hgroups
  · next right hcut =>
    rw [(cutFirst_eq_some_iff.mp hcut).1]
    simp only [List.nil_append, List.forall_mem_cons]
    exact ⟨hnil, hnil, (spelled_of_expand h).2⟩
  · cases h
  · next left right _ _ hcut =>
    rw [(cutFirst_eq_some_iff.mp hcut).1]
    simp only [List.forall_mem_append, List.forall_mem_cons]
    exact ⟨(spelled_of_expand h).1, hnil, (spelled_of_expand h).2⟩

theorem spelled_of_parse {text : Bytes} {ip : IP} (h : parse text = some ip) : Spelled text := by
  unfold parse at h
  split_ifs at h
  · exact spelled_of_parse6 h
  · obtain ⟨r, hr, -⟩ := Option.map_eq_some_iff.mp h
    exact spelled_of_parse4 hr

theorem colon_or_dot_of_parse {text : Bytes} {ip : IP} (h : parse text = some ip) :
    colon ∈ text ∨ dot ∈ text := by
  unfold parse at h
  split_ifs at h with hcolon
  · exact Or.inl hcolon
  · obtain ⟨r, hr, -⟩ := Option.map_eq_some_iff.mp h
    exact Or.inr (dot_mem_of_parse4 hr)

theorem length_groupsOf {pieces : List Bytes} {groups : List UInt16}
    (h : groupsOf pieces = some groups) : groups.length ≤ pieces.length + 1 := by
  induction pieces generalizing groups with
  | nil => cases h
  | cons piece rest ih =>
    cases rest with
    | nil =>
      rw [groupsOf] at h
      split_ifs at h
      · obtain ⟨r, -, rfl⟩ := Option.map_eq_some_iff.mp h
        exact le_rfl
      · obtain ⟨group, -, rfl⟩ := Option.map_eq_some_iff.mp h
        exact Nat.le_add_left 1 1
    | cons next rest =>
      rw [groupsOf] at h
      · obtain ⟨group, -, h⟩ := Option.bind_eq_some_iff.mp h
        obtain ⟨groups', hrest, rfl⟩ := Option.map_eq_some_iff.mp h
        have := ih hrest
        simp only [List.length_cons] at this ⊢
        omega
      · simp

theorem expand_nil (left : List Bytes) : expand left [] = none := by
  rw [expand, if_neg (by simp), groupsOf]
  cases left.mapM hexGroup <;> rfl

/-- One colon does not make an address. -/
theorem parse_one_colon {s t : Bytes} (hs : colon ∉ s) (ht : colon ∉ t) :
    parse (s ++ colon :: t) = none := by
  have hsplit : (s ++ colon :: t).splitOn colon = [s, t] := by
    have hplain : ∀ piece ∈ [s, t], colon ∉ piece := by simp [hs, ht]
    simpa using List.splitOn_intercalate colon hplain (List.cons_ne_nil _ _)
  rw [parse, if_pos (by simp), parse6, hsplit]
  by_cases hs' : s = []
  · subst hs'
    cases t with
    | nil => exact expand_nil []
    | cons c t => rfl
  · by_cases ht' : t = []
    · subst ht'
      have hcut : cutFirst [] [s, []] = some ([s], []) :=
        @cutFirst_append _ _ [] [s] [] (by simpa using Ne.symm hs')
      rw [hcut]
      exact expand_nil [s]
    · have hcut : cutFirst [] [s, t] = none :=
        cutFirst_eq_none (by simp [Ne.symm hs', Ne.symm ht'])
      rw [hcut]
      dsimp only
      cases hgroups : groupsOf [s, t] with
      | none => rfl
      | some groups =>
        have := length_groupsOf hgroups
        rw [Option.bind_some, ofGroups, dif_neg (by simp at this; omega)]

end IPText
