import Gaoming.WebUrl

/-!
# What the escapes of a text stand for

A text that `decodeURIComponent` accepts is a sequence of characters, each written as it is
or by escapes. Where no escape stands for a delimiter of a path, the text and what it is
decoded to have the same segments, one spelt with escapes and one without; dot segments are
recognised in both.
-/

namespace Web

/-- A hexadecimal digit and its value. -/
def HexDigit (c : Char) (n : ℕ) : Prop := c.toNat < 0x80 ∧ hexValue (unit c) = some n

/-- What a character is written as: itself, an escape, or the escapes of its bytes. -/
inductive Spelling : List Char → Char → Prop
  | plain {c : Char} (hc : c ≠ '%') : Spelling [c] c
  | octet {a b : Char} {high low : ℕ} (ha : HexDigit a high) (hb : HexDigit b low)
      (h : 16 * high + low < 0x80) : Spelling ['%', a, b] (Char.ofNat (16 * high + low))
  | octets {a b : Char} {high low : ℕ} {more : List Char} {c : Char} (ha : HexDigit a high)
      (hb : HexDigit b low) (h : 0x80 ≤ 16 * high + low)
      (hmore : ∀ x ∈ more, x = '%' ∨ ∃ n, HexDigit x n) (hc : 0x80 ≤ c.toNat) :
      Spelling ('%' :: a :: b :: more) c

/-- The first text is written for the second. -/
inductive Reads : List Char → List Char → Prop
  | nil : Reads [] []
  | cons {raw : List Char} {c : Char} {r d : List Char} (hc : Spelling raw c) (h : Reads r d) :
      Reads (raw ++ r) (c :: d)

theorem Reads.cons_plain {c : Char} {r d : List Char} (hc : c ≠ '%') (h : Reads r d) :
    Reads (c :: r) (c :: d) :=
  .cons (.plain hc) h

theorem Reads.uncons {c : Char} {r y : List Char} (hc : c ≠ '%') (h : Reads (c :: r) y) :
    ∃ d, y = c :: d ∧ Reads r d := by
  generalize hr : c :: r = text at h
  cases h with
  | nil => cases hr
  | cons hspelling hrest =>
    cases hspelling with
    | plain =>
      obtain ⟨rfl, rfl⟩ := List.cons.inj hr
      exact ⟨_, rfl, hrest⟩
    | octet => exact absurd (List.cons.inj hr).1 hc
    | octets => exact absurd (List.cons.inj hr).1 hc

theorem Reads.append {x y r d : List Char} (h : Reads x y) (hr : Reads r d) :
    Reads (x ++ r) (y ++ d) := by
  induction h with
  | nil => exact hr
  | cons hc _ ih =>
    rw [List.append_assoc]
    exact .cons hc ih

section Units
variable {s d : JsString} {u v : UInt16} {ts : List Token} {b : UInt8}

theorem scalars_low (hv : 0xDC00 ≤ v.toNat) : scalars (v :: s) = scalar v :: scalars s := by
  cases s with
  | nil => rfl
  | cons w s => rw [scalars, if_neg (by omega)]

/-- No character begins with the second half of a pair. -/
theorem scalars_cons_unitsOf (u : UInt16) (c : Char) (s : JsString) :
    scalars (u :: (unitsOf c ++ s)) = scalar u :: c :: scalars s := by
  have hvalid := toNat_cases c
  rw [← scalars_unitsOf_append, unitsOf]
  split_ifs with hsmall
  · have htoNat : (UInt16.ofNat c.toNat).toNat = c.toNat := by
      rw [UInt16.toNat_ofNat']
      omega
    rw [List.singleton_append, scalars, if_neg (by omega)]
  · have hhigh : (UInt16.ofNat (0xD800 + (c.toNat - 0x10000) / 0x400)).toNat =
        0xD800 + (c.toNat - 0x10000) / 0x400 := by
      rw [UInt16.toNat_ofNat']
      omega
    rw [List.cons_append, scalars, if_neg (by omega)]

theorem tokens_unit (h : tokens s = some (.unit u :: ts)) :
    ∃ s', s = u :: s' ∧ u ≠ unit '%' ∧ tokens s' = some ts := by
  rw [tokens.eq_def] at h
  split at h
  · cases h
  · split_ifs at h with hpercent
    · split at h
      · simp only [Option.bind_eq_bind, Option.pure_def, Option.bind_eq_some_iff] at h
        obtain ⟨_, -, _, -, _, -, h⟩ := h
        cases h
      · cases h
    · obtain ⟨more, hmore, heq⟩ := Option.map_eq_some_iff.mp h
      cases heq
      exact ⟨_, rfl, hpercent, hmore⟩

theorem tokens_octet (h : tokens s = some (.octet b :: ts)) :
    ∃ x y high low s', s = unit '%' :: x :: y :: s' ∧ hexValue x = some high ∧
      hexValue y = some low ∧ b = UInt8.ofNat (16 * high + low) ∧ tokens s' = some ts := by
  rw [tokens.eq_def] at h
  split at h
  · cases h
  · split_ifs at h with hpercent
    · split at h
      · simp only [Option.bind_eq_bind, Option.pure_def, Option.bind_eq_some_iff] at h
        obtain ⟨high, hhigh, low, hlow, more, hmore, heq⟩ := h
        cases heq
        exact ⟨_, _, high, low, _, by rw [hpercent], hhigh, hlow, rfl, hmore⟩
      · cases h
    · obtain ⟨more, hmore, heq⟩ := Option.map_eq_some_iff.mp h
      cases heq

theorem tokens_nil (h : tokens s = some []) : s = [] := by
  rw [tokens.eq_def] at h
  split at h
  · rfl
  · split_ifs at h
    · split at h
      · simp only [Option.bind_eq_bind, Option.pure_def, Option.bind_eq_some_iff] at h
        obtain ⟨_, -, _, -, _, -, h⟩ := h
        cases h
      · cases h
    · obtain ⟨more, -, heq⟩ := Option.map_eq_some_iff.mp h
      cases heq

theorem toNat_of_hexValue {n : ℕ} (h : hexValue u = some n) : u.toNat < 0x80 ∧ n < 16 := by
  simp only [hexValue] at h
  split_ifs at h <;> (cases h; omega)

/-- A digit of a string is one character of it. -/
theorem scalars_hexDigit {n : ℕ} (h : hexValue u = some n) :
    ∃ c, HexDigit c n ∧ scalars (u :: s) = c :: scalars s := by
  have hsmall := (toNat_of_hexValue h).1
  have htoNat : (Char.ofNat u.toNat).toNat = u.toNat := by
    rw [Char.toNat_ofNat, if_pos (.inl (by omega))]
  refine ⟨Char.ofNat u.toNat, ⟨by omega, ?_⟩, scalars_cons (.inl (by omega)) s⟩
  rw [unit, htoNat, UInt16.ofNat_toNat, h]

theorem scalars_octet {x y : UInt16} {high low : ℕ} (hx : hexValue x = some high)
    (hy : hexValue y = some low) : ∃ a b, HexDigit a high ∧ HexDigit b low ∧
      scalars (unit '%' :: x :: y :: s) = '%' :: a :: b :: scalars s := by
  obtain ⟨b, hb, hsb⟩ := scalars_hexDigit (s := s) hy
  obtain ⟨a, ha, hsa⟩ := scalars_hexDigit (s := y :: s) hx
  refine ⟨a, b, ha, hb, ?_⟩
  rw [scalars_cons (.inl (by decide)), hsa, hsb]
  rfl

/-- Octets are written with percent signs and digits. -/
theorem scalars_octets {bytes : List UInt8} (h : tokens s = some (bytes.map .octet ++ ts)) :
    ∃ raw s', scalars s = raw ++ scalars s' ∧ (∀ x ∈ raw, x = '%' ∨ ∃ n, HexDigit x n) ∧
      tokens s' = some ts := by
  induction bytes generalizing s with
  | nil => exact ⟨[], s, rfl, by simp, h⟩
  | cons byte bytes ih =>
    obtain ⟨x, y, high, low, s', rfl, hx, hy, -, hs'⟩ := tokens_octet h
    obtain ⟨a, b, ha, hb, hscalars⟩ := scalars_octet (s := s') hx hy
    obtain ⟨raw, s'', hraw, hhex, hts⟩ := ih hs'
    refine ⟨'%' :: a :: b :: raw, s'', by rw [hscalars, hraw]; rfl, ?_, hts⟩
    intro x hx
    simp only [List.mem_cons] at hx
    obtain rfl | rfl | rfl | hx := hx
    · exact .inl rfl
    · exact .inr ⟨high, ha⟩
    · exact .inr ⟨low, hb⟩
    · exact hhex x hx

theorem le_toNat_of_utf8Char {bytes : List UInt8} {c : Char} (h : utf8Char bytes = some c)
    (hlen : 1 < bytes.length) : 0x80 ≤ c.toNat := by
  have hsize := (Option.filter_eq_some_iff.mp h).2
  by_contra hsmall
  have hone : c.utf8Size = 1 := by
    rw [Char.utf8Size_eq_one_iff, UInt32.le_iff_toNat_le]
    change c.toNat ≤ 127
    omega
  rw [hone, beq_iff_eq] at hsize
  omega

theorem unitsOf_ofNat {n : ℕ} (h : n < 0x80) : unitsOf (Char.ofNat n) = [UInt16.ofNat n] := by
  have htoNat : (Char.ofNat n).toNat = n := by
    rw [Char.toNat_ofNat, if_pos (.inl (by omega))]
  rw [unitsOf, htoNat, if_pos (by omega)]

/-- The first octet says how many more a character takes. -/
theorem decodeTokens_octet (h : decodeTokens (.octet b :: ts) = some d) :
    ∃ c more ts' d', ts = more.map .octet ++ ts' ∧ d = unitsOf c ++ d' ∧
      decodeTokens ts' = some d' ∧
      (b.toNat < 0x80 ∧ more = [] ∧ c = Char.ofNat b.toNat ∨
        0x80 ≤ b.toNat ∧ 0x80 ≤ c.toNat) := by
  have hlater : ∀ (more : List UInt8) {ts' : List Token},
      (do let c ← utf8Char (b :: more)
          let rest ← decodeTokens ts'
          pure (unitsOf c ++ rest)) = some d → more ≠ [] →
      ∃ c d', d = unitsOf c ++ d' ∧ decodeTokens ts' = some d' ∧ 0x80 ≤ c.toNat := by
    intro more ts' hd hne
    simp only [Option.bind_eq_bind, Option.pure_def, Option.bind_eq_some_iff] at hd
    obtain ⟨c, hc, d', hd', heq⟩ := hd
    refine ⟨c, d', (Option.some.inj heq).symm, hd', le_toNat_of_utf8Char hc ?_⟩
    simpa using List.length_pos_iff.mpr hne
  rw [decodeTokens.eq_def] at h
  dsimp only at h
  split_ifs at h with hsmall htwo hthree hfour
  · obtain ⟨d', hd', rfl⟩ := Option.map_eq_some_iff.mp h
    exact ⟨Char.ofNat b.toNat, [], ts, d', rfl, by rw [unitsOf_ofNat hsmall]; rfl, hd',
      .inl ⟨hsmall, rfl, rfl⟩⟩
  · split at h
    · next b₁ ts' =>
      obtain ⟨c, d', hd, hd', hc⟩ := hlater [b₁] h (by simp)
      exact ⟨c, [b₁], ts', d', rfl, hd, hd', .inr ⟨by omega, hc⟩⟩
    · cases h
  · split at h
    · next b₁ b₂ ts' =>
      obtain ⟨c, d', hd, hd', hc⟩ := hlater [b₁, b₂] h (by simp)
      exact ⟨c, [b₁, b₂], ts', d', rfl, hd, hd', .inr ⟨by omega, hc⟩⟩
    · cases h
  · split at h
    · next b₁ b₂ b₃ ts' =>
      obtain ⟨c, d', hd, hd', hc⟩ := hlater [b₁, b₂, b₃] h (by simp)
      exact ⟨c, [b₁, b₂, b₃], ts', d', rfl, hd, hd', .inr ⟨by omega, hc⟩⟩
    · cases h

theorem scalar_ne_percent (hu : u ≠ unit '%') : scalar u ≠ '%' := by
  intro h
  have := unit_scalar (u := u) (by rw [h]; decide)
  rw [h] at this
  exact hu this.symm

/-- Halves of a pair are both written as they are, and stay together. -/
theorem reads_cons_unit (hu : u ≠ unit '%') (hs : tokens s = some ts)
    (hd : decodeTokens ts = some d) (h : Reads (scalars s) (scalars d)) :
    Reads (scalars (u :: s)) (scalars (u :: d)) := by
  cases ts with
  | nil =>
    obtain rfl := tokens_nil hs
    cases hd
    exact .cons_plain (scalar_ne_percent hu) .nil
  | cons t ts =>
    cases t with
    | unit v =>
      obtain ⟨s', rfl, hv, -⟩ := tokens_unit hs
      obtain ⟨d', -, rfl⟩ := Option.map_eq_some_iff.mp hd
      by_cases hpair : 0xD800 ≤ u.toNat ∧ u.toNat ≤ 0xDBFF ∧ 0xDC00 ≤ v.toNat ∧ v.toNat ≤ 0xDFFF
      · rw [scalars_low hpair.2.2.1, scalars_low hpair.2.2.1] at h
        rw [scalars, if_pos hpair, scalars, if_pos hpair]
        obtain ⟨d'', hd'', h⟩ := h.uncons (scalar_ne_percent hv)
        rw [(List.cons.inj hd'').2]
        refine .cons_plain ?_ h
        intro heq
        have hlarge := le_toNat_ofNat
          (n := 0x10000 + (u.toNat - 0xD800) * 0x400 + (v.toNat - 0xDC00)) (by omega) (by omega)
        rw [heq] at hlarge
        exact absurd hlarge (by decide)
      · rw [scalars, if_neg hpair, scalars, if_neg hpair]
        exact .cons_plain (scalar_ne_percent hu) h
    | octet b =>
      obtain ⟨x, y, -, -, s', rfl, -⟩ := tokens_octet hs
      obtain ⟨c, -, -, d', -, rfl, -⟩ := decodeTokens_octet hd
      have hpercent : (unit '%').toNat = 37 := by decide
      rw [scalars_cons_unitsOf, ← scalars_unitsOf_append, scalars, if_neg (by omega)]
      exact .cons_plain (scalar_ne_percent hu) h

theorem reads_of_tokens (hs : tokens s = some ts) (hd : decodeTokens ts = some d) :
    Reads (scalars s) (scalars d) := by
  induction hn : ts.length using Nat.strong_induction_on generalizing ts s d with
  | _ n ih =>
    subst hn
    cases ts with
    | nil =>
      obtain rfl := tokens_nil hs
      cases hd
      exact .nil
    | cons t ts =>
      cases t with
      | unit u =>
        obtain ⟨s', rfl, hu, hs'⟩ := tokens_unit hs
        obtain ⟨d', hd', rfl⟩ := Option.map_eq_some_iff.mp hd
        exact reads_cons_unit hu hs' hd' (ih _ (by simp) hs' hd' rfl)
      | octet b =>
        obtain ⟨x, y, high, low, s', rfl, hx, hy, hb, hs'⟩ := tokens_octet hs
        obtain ⟨c, more, ts', d', rfl, rfl, hd', hfirst⟩ := decodeTokens_octet hd
        obtain ⟨a, a', ha, ha', hscalars⟩ := scalars_octet (s := s') hx hy
        have hbyte : b.toNat = 16 * high + low := by
          have := (toNat_of_hexValue hx).2
          have := (toNat_of_hexValue hy).2
          rw [hb, UInt8.toNat_ofNat']
          omega
        rw [hscalars, scalars_unitsOf_append]
        rcases hfirst with ⟨hsmall, rfl, rfl⟩ | ⟨hlarge, hc⟩
        · rw [hbyte] at hsmall ⊢
          exact .cons (.octet ha ha' hsmall) (ih _ (by simp) hs' hd' rfl)
        · obtain ⟨raw, s'', hraw, hhex, hts⟩ := scalars_octets hs'
          rw [hbyte] at hlarge
          rw [hraw]
          exact .cons (.octets ha ha' hlarge hhex hc) (ih ts'.length (by simp) hts hd' rfl)

theorem reads_decodeURIComponent (h : decodeURIComponent s = some d) :
    Reads (scalars s) (scalars d) := by
  obtain ⟨ts, hts, hd⟩ := Option.bind_eq_some_iff.mp h
  exact reads_of_tokens hts hd

end Units

/-- The escape of a character of one byte, in lower case. -/
def escapeOf (c : Char) : List Char :=
  ['%', (hexDigit (c.toNat / 16)).toLower, (hexDigit (c.toNat % 16)).toLower]

/-- No escape is written with such a character. -/
def Outside (p : Char → Bool) : Prop :=
  p '%' = false ∧ ∀ c n, HexDigit c n → p c = false

def hexDigits : List (Char × ℕ) :=
  [('0', 0), ('1', 1), ('2', 2), ('3', 3), ('4', 4), ('5', 5), ('6', 6), ('7', 7), ('8', 8),
    ('9', 9), ('a', 10), ('b', 11), ('c', 12), ('d', 13), ('e', 14), ('f', 15), ('A', 10),
    ('B', 11), ('C', 12), ('D', 13), ('E', 14), ('F', 15)]

section Digits
variable {c : Char} {n : ℕ}

theorem HexDigit.mem (h : HexDigit c n) : (c, n) ∈ hexDigits := by
  have hall : ∀ k : Fin 0x80, (hexValue (unit (Char.ofNat k))).all
      (fun n => decide ((Char.ofNat k, n) ∈ hexDigits)) = true := by decide +kernel
  have := hall ⟨c.toNat, h.1⟩
  simp only [Char.ofNat_toNat] at this
  rw [h.2, Option.all_some] at this
  exact of_decide_eq_true this

theorem HexDigit.lt (h : HexDigit c n) : n < 16 := (toNat_of_hexValue h.2).2

theorem HexDigit.toLower_eq (h : HexDigit c n) : c.toLower = (hexDigit n).toLower :=
  have hall : ∀ x ∈ hexDigits, x.1.toLower = (hexDigit x.2).toLower :=
    List.all_iff_forall_prop.mp (by decide)
  hall _ h.mem

theorem outside_of_digits {p : Char → Bool} (hpercent : p '%' = false)
    (h : hexDigits.all (fun x => !p x.1) = true) : Outside p :=
  ⟨hpercent, fun _ _ hc => by simpa using List.all_eq_true.mp h _ hc.mem⟩

theorem outside_isOuterBlank : Outside isOuterBlank := outside_of_digits (by decide) (by decide)

theorem outside_isTabOrNewline : Outside isTabOrNewline :=
  outside_of_digits (by decide) (by decide)

theorem outside_inPathSet : Outside inPathSet := outside_of_digits (by decide) (by decide)

theorem hexDigit_hexDigit (hn : n < 16) : HexDigit (hexDigit n) n := by
  have hall : ∀ k : Fin 16, HexDigit (hexDigit k) k := by
    unfold HexDigit
    decide
  exact hall ⟨n, hn⟩

theorem toNat_ofNat_ascii (hn : n < 0x80) : (Char.ofNat n).toNat = n := by
  rw [Char.toNat_ofNat, if_pos (.inl (by omega))]

end Digits

/-- A character is written as it is, or with percent signs and digits only. -/
theorem Spelling.plain_or_escape {raw : List Char} {c : Char} (h : Spelling raw c) :
    raw = [c] ∧ c ≠ '%' ∨ (∀ p, Outside p → ∀ x ∈ raw, p x = false) ∧
      (c.toNat < 0x80 → raw.map Char.toLower = escapeOf c) := by
  cases h with
  | plain hc => exact .inl ⟨rfl, hc⟩
  | @octet a b high low ha hb h =>
    refine .inr ⟨fun p hp x hx => ?_, fun _ => ?_⟩
    · simp only [List.mem_cons, List.not_mem_nil, or_false] at hx
      obtain rfl | rfl | rfl := hx
      · exact hp.1
      · exact hp.2 _ _ ha
      · exact hp.2 _ _ hb
    · have hlow := hb.lt
      rw [escapeOf, toNat_ofNat_ascii h, show (16 * high + low) / 16 = high by omega,
        show (16 * high + low) % 16 = low by omega, ← ha.toLower_eq, ← hb.toLower_eq]
      rfl
  | octets ha hb h hmore hc =>
    refine .inr ⟨fun p hp x hx => ?_, fun hsmall => by omega⟩
    simp only [List.mem_cons] at hx
    obtain rfl | rfl | rfl | hx := hx
    · exact hp.1
    · exact hp.2 _ _ ha
    · exact hp.2 _ _ hb
    · obtain rfl | ⟨n, hn⟩ := hmore x hx
      · exact hp.1
      · exact hp.2 _ _ hn

theorem Spelling.ne_nil {raw : List Char} {c : Char} (h : Spelling raw c) : raw ≠ [] := by
  cases h <;> simp

section Delimiters
variable {r d : List Char} {p : Char → Bool}

/-- Nothing that stands for a delimiter is written as an escape. -/
def Unescaped (p : Char → Bool) (r d : List Char) : Prop :=
  ∀ c ∈ d, p c = true → c.toNat < 0x80 ∧ ¬escapeOf c <:+: r.map Char.toLower

theorem Unescaped.tail {raw : List Char} {c : Char} (h : Unescaped p (raw ++ r) (c :: d)) :
    Unescaped p r d := by
  intro x hx hp
  obtain ⟨hsmall, hnot⟩ := h x (List.mem_cons_of_mem c hx) hp
  refine ⟨hsmall, fun hpart => hnot (hpart.trans ?_)⟩
  rw [List.map_append]
  exact (List.suffix_append _ _).isInfix

theorem Unescaped.head {raw : List Char} {c : Char} (hu : Unescaped p (raw ++ r) (c :: d))
    (h : c.toNat < 0x80 → raw.map Char.toLower = escapeOf c) : p c = false := by
  rw [Bool.eq_false_iff]
  intro hp
  obtain ⟨hsmall, hnot⟩ := hu c List.mem_cons_self hp
  rw [← h hsmall, List.map_append] at hnot
  exact hnot (List.prefix_append _ _).isInfix

theorem Reads.mem (hp : Outside p) (h : Reads r d) {c : Char} (hc : c ∈ r) (hpc : p c = true) :
    c ∈ d := by
  induction h with
  | nil => exact absurd hc List.not_mem_nil
  | @cons raw x r d hx _ ih =>
    obtain hc | hc := List.mem_append.mp hc
    · obtain ⟨rfl, -⟩ | ⟨hraw, -⟩ := hx.plain_or_escape
      · exact List.mem_cons.mpr (.inl (List.mem_singleton.mp hc))
      · rw [hraw p hp c hc] at hpc
        cases hpc
    · exact List.mem_cons_of_mem x (ih hc)

theorem Reads.takeWhile (hp : Outside p) (h : Reads r d)
    (hu : Unescaped p (r.takeWhile fun c => !p c) d) :
    Reads (r.takeWhile fun c => !p c) (d.takeWhile fun c => !p c) := by
  induction h with
  | nil => exact .nil
  | @cons raw c r d hc _ ih =>
    obtain ⟨rfl, hpercent⟩ | ⟨hraw, hescape⟩ := hc.plain_or_escape
    · by_cases hpc : p c = true
      · simp [hpc, Reads.nil]
      · rw [List.singleton_append, List.takeWhile_cons_of_pos (by simpa using hpc)] at hu ⊢
        rw [List.takeWhile_cons_of_pos (by simpa using hpc)]
        exact .cons_plain hpercent (ih (@Unescaped.tail _ _ p [c] c hu))
    · rw [List.takeWhile_append_of_pos fun x hx => by rw [hraw p hp x hx]; rfl] at hu ⊢
      rw [List.takeWhile_cons_of_pos (by rw [hu.head hescape]; rfl)]
      exact .cons hc (ih hu.tail)

theorem splitOnP_append {raw : List Char} (h : ∀ x ∈ raw, p x = false) (r : List Char) :
    (raw ++ r).splitOnP p = (r.splitOnP p).modifyHead (raw ++ ·) := by
  induction raw with
  | nil =>
    rw [List.nil_append]
    cases r.splitOnP p <;> rfl
  | cons c raw ih =>
    rw [List.cons_append, List.splitOnP_cons_eq_if_modifyHead,
      if_neg (by simp [h c List.mem_cons_self]), ih fun x hx => h x (List.mem_cons_of_mem c hx),
      List.modifyHead_modifyHead]
    rfl

theorem forall₂_modifyHead {α β : Type*} {R : α → β → Prop} {f : α → α} {g : β → β} {l : List α}
    {m : List β} (h : List.Forall₂ R l m) (hfg : ∀ a b, R a b → R (f a) (g b)) :
    List.Forall₂ R (l.modifyHead f) (m.modifyHead g) := by
  cases h with
  | nil => exact .nil
  | cons hab hrest => exact .cons (hfg _ _ hab) hrest

theorem Reads.splitOnP (hp : Outside p) (h : Reads r d) (hu : Unescaped p r d) :
    List.Forall₂ Reads (r.splitOnP p) (d.splitOnP p) := by
  induction h with
  | nil => exact .cons .nil .nil
  | @cons raw c r d hc _ ih =>
    have hrest := ih hu.tail
    obtain ⟨rfl, hpercent⟩ | ⟨hraw, hescape⟩ := hc.plain_or_escape
    · rw [List.singleton_append, List.splitOnP_cons_eq_if_modifyHead,
        List.splitOnP_cons_eq_if_modifyHead]
      split_ifs
      · exact .cons .nil hrest
      · exact forall₂_modifyHead hrest fun _ _ => .cons_plain hpercent
    · rw [splitOnP_append fun x hx => hraw p hp x hx, List.splitOnP_cons_eq_if_modifyHead,
        if_neg (by simp [hu.head hescape])]
      exact forall₂_modifyHead hrest fun _ _ => .cons hc

end Delimiters

section Blanks
variable {r d : List Char} {p : Char → Bool}

theorem rdropWhile_append (l r : List Char) :
    (l ++ r).rdropWhile p =
      if r.rdropWhile p = [] then l.rdropWhile p else l ++ r.rdropWhile p := by
  induction r using List.reverseRecOn with
  | nil => simp
  | append_singleton r c ih =>
    by_cases hc : p c = true
    · rw [← List.append_assoc, List.rdropWhile_concat_pos _ _ _ hc, ih,
        List.rdropWhile_concat_pos _ _ _ hc]
    · rw [← List.append_assoc, List.rdropWhile_concat_neg _ _ _ hc,
        List.rdropWhile_concat_neg _ _ _ hc, if_neg (by simp), List.append_assoc]

theorem Reads.eq_nil_iff (h : Reads r d) : r = [] ↔ d = [] := by
  cases h with
  | nil => exact ⟨fun _ => rfl, fun _ => rfl⟩
  | cons hc _ => simp [hc.ne_nil]

theorem Spelling.rdropWhile {raw : List Char} {c : Char} (hc : Spelling raw c)
    (hblank : isOuterBlank c = true → c = ' ')
    (hend : ¬escapeOf ' ' <:+ (raw.rdropWhile isOuterBlank).map Char.toLower) :
    Reads (raw.rdropWhile isOuterBlank) ([c].rdropWhile isOuterBlank) := by
  obtain ⟨rfl, hpercent⟩ | ⟨hraw, hescape⟩ := hc.plain_or_escape
  · by_cases hb : isOuterBlank c = true
    · simp [List.rdropWhile, hb, Reads.nil]
    · simpa [List.rdropWhile, hb] using Reads.cons_plain hpercent .nil
  · have hlast : raw.rdropWhile isOuterBlank = raw := by
      rw [List.rdropWhile_eq_self_iff]
      intro hne
      rw [hraw _ outside_isOuterBlank _ (List.getLast_mem hne)]
      exact Bool.false_ne_true
    have hb : isOuterBlank c = false := by
      rw [Bool.eq_false_iff]
      intro hb
      obtain rfl := hblank hb
      rw [hlast, hescape (by decide)] at hend
      exact hend List.suffix_rfl
    rw [hlast]
    simpa [List.rdropWhile, hb] using Reads.cons hc .nil

theorem Reads.rdropWhile (h : Reads r d) (hblank : ∀ c ∈ d, isOuterBlank c = true → c = ' ')
    (hend : ¬escapeOf ' ' <:+ (r.rdropWhile isOuterBlank).map Char.toLower) :
    Reads (r.rdropWhile isOuterBlank) (d.rdropWhile isOuterBlank) := by
  induction h with
  | nil => exact .nil
  | @cons raw c r d hc _ ih =>
    have hd : (c :: d).rdropWhile isOuterBlank = if d.rdropWhile isOuterBlank = [] then
        [c].rdropWhile isOuterBlank else c :: d.rdropWhile isOuterBlank :=
      rdropWhile_append [c] d
    have htail := fun x hx => hblank x (List.mem_cons_of_mem c hx)
    rw [rdropWhile_append] at hend ⊢
    rw [hd]
    by_cases hr : r.rdropWhile isOuterBlank = []
    · have hrest := ih htail (by rw [hr]; simp [escapeOf])
      rw [if_pos hr] at hend ⊢
      rw [if_pos (hrest.eq_nil_iff.mp hr)]
      exact hc.rdropWhile (hblank c List.mem_cons_self) hend
    · have hsuffix : ¬escapeOf ' ' <:+ (r.rdropWhile isOuterBlank).map Char.toLower := by
        rw [if_neg hr, List.map_append] at hend
        exact fun h => hend (h.trans (List.suffix_append _ _))
      have hrest := ih htail hsuffix
      rw [if_neg hr, if_neg fun h => hr (hrest.eq_nil_iff.mpr h)]
      exact .cons hc hrest

end Blanks

section Dots
variable {x y f : List Char}

theorem Spelling.dot {raw : List Char} (h : Spelling raw '.') :
    raw.map Char.toLower = ['.'] ∨ raw.map Char.toLower = escapeOf '.' := by
  obtain ⟨rfl, -⟩ | ⟨-, hescape⟩ := h.plain_or_escape
  · exact .inl (by decide)
  · exact .inr (hescape (by decide))

end Dots

section Segments
variable {x y : List Char}

theorem reads_self (h : '%' ∉ x) : Reads x x := by
  induction x with
  | nil => exact .nil
  | cons c x ih =>
    obtain ⟨hc, hx⟩ := not_or.mp (mt List.mem_cons.mpr h)
    exact .cons_plain (Ne.symm hc) (ih hx)

theorem utf8EncodeChar_cons (c : Char) : ∃ b bytes, String.utf8EncodeChar c = b :: bytes ∧
    (c.toNat < 0x80 ∧ b.toNat = c.toNat ∧ bytes = [] ∨ 0x80 ≤ c.toNat ∧ 0x80 ≤ b.toNat) := by
  change ∃ b bytes, (if c.toNat ≤ 127 then _ else if c.toNat ≤ 2047 then _
    else if c.toNat ≤ 65535 then _ else _) = b :: bytes ∧ _
  have hval : c.val.toNat = c.toNat := rfl
  split_ifs
  · exact ⟨_, _, rfl, .inl ⟨by omega, by rw [UInt8.toNat_ofNat']; omega, rfl⟩⟩
  all_goals exact ⟨_, _, rfl, .inr ⟨by omega, by rw [UInt8.toNat_ofNat']; omega⟩⟩

theorem spelling_percentEncode (c : Char) : Spelling (percentEncode c) c := by
  have hdigits : ∀ b : UInt8, HexDigit (hexDigit (b.toNat / 16)) (b.toNat / 16) ∧
      HexDigit (hexDigit (b.toNat % 16)) (b.toNat % 16) := by
    intro b
    have := b.toNat_lt
    exact ⟨hexDigit_hexDigit (by omega), hexDigit_hexDigit (by omega)⟩
  obtain ⟨b, bytes, hbytes, ⟨hsmall, hb, rfl⟩ | ⟨hlarge, hb⟩⟩ := utf8EncodeChar_cons c
  · have hc : c = Char.ofNat (16 * (b.toNat / 16) + b.toNat % 16) := by
      rw [Nat.div_add_mod, hb, Char.ofNat_toNat]
    have hspelling := Spelling.octet (hdigits b).1 (hdigits b).2 (by omega)
    rw [← hc] at hspelling
    rw [percentEncode, hbytes]
    exact hspelling
  · rw [percentEncode, hbytes]
    refine .octets (hdigits b).1 (hdigits b).2 (by omega) (fun x hx => ?_) hlarge
    obtain ⟨b', -, hx⟩ := List.mem_flatMap.mp hx
    simp only [List.mem_cons, List.not_mem_nil, or_false] at hx
    obtain rfl | rfl | rfl := hx
    · exact .inl rfl
    · exact .inr ⟨_, (hdigits b').1⟩
    · exact .inr ⟨_, (hdigits b').2⟩

theorem Reads.encodeSegment (h : Reads x y) : Reads (encodeSegment x) y := by
  induction h with
  | nil => exact .nil
  | @cons raw c r d hc _ ih =>
    rw [Web.encodeSegment, List.flatMap_append]
    refine .cons ?_ ih
    obtain ⟨rfl, hpercent⟩ | ⟨hraw, -⟩ := hc.plain_or_escape
    · rw [List.flatMap_singleton]
      split_ifs
      · exact spelling_percentEncode c
      · exact .plain hpercent
    · have hsame : (raw.flatMap fun c => if inPathSet c then percentEncode c else [c]) =
          raw.flatMap fun c => [c] := by
        apply List.flatMap_congr
        intro x hx
        rw [if_neg (by simp [hraw _ outside_inPathSet x hx])]
      rw [hsame, List.flatMap_singleton']
      exact hc

/-- A segment as it is written, and the segment of the text that it stands for. -/
def SameSegment (a b : List Char) : Prop := ∃ y, '%' ∉ y ∧ Reads a y ∧ b = Web.encodeSegment y

theorem SameSegment.reads {a b : List Char} (h : SameSegment a b) : ∃ y, Reads a y ∧ Reads b y := by
  obtain ⟨y, hy, ha, rfl⟩ := h
  exact ⟨y, ha, (reads_self hy).encodeSegment⟩

end Segments

end Web
