import Gaoming.FloatInteger

/-!
# The exact value of a binary64, and columns it may not fit

Every finite `Float` stands for a rational number. Over these numbers the conversion
to an integer cuts the fraction off, and a decimal column of a given precision
and scale rounds half away from zero and refuses what is then too large. Both
have plain bounds on the value itself.
-/

namespace FloatExact
open Float.Model Float.Model.UnpackedFloat

/-- The number that a finite float stands for; zero for the others. -/
def value (f : Float) : ℚ :=
  match f.toModel.unpack with
  | .finite s m e _ => (s.apply m : ℤ) * (2 : ℚ) ^ e
  | _ => 0

def truncate (q : ℚ) : ℤ := if 0 ≤ q then ⌊q⌋ else ⌈q⌉

theorem truncate_of_nonneg {q : ℚ} (h : 0 ≤ q) : truncate q = ⌊q⌋ := if_pos h

theorem truncate_neg (q : ℚ) : truncate (-q) = -truncate q := by
  rcases lt_trichotomy q 0 with h | rfl | h
  · rw [truncate_of_nonneg (by linarith), truncate, if_neg (not_le.mpr h), Int.floor_neg]
  · simp [truncate]
  · rw [truncate_of_nonneg h.le, truncate, if_neg (by linarith), Int.ceil_neg]

theorem truncate_mem_iff {a b : ℤ} (ha : 0 ≤ a) (hb : 0 < b) (q : ℚ) :
    (-a ≤ truncate q ∧ truncate q < b) ↔ (-(a : ℚ) - 1 < q ∧ q < b) := by
  have ha' : (0 : ℚ) ≤ a := by exact_mod_cast ha
  have hb' : (0 : ℚ) < b := by exact_mod_cast hb
  rw [truncate]
  split_ifs with h
  · have hfloor : 0 ≤ ⌊q⌋ := Int.floor_nonneg.mpr h
    rw [Int.floor_lt]
    constructor
    · rintro ⟨-, hlt⟩
      exact ⟨by linarith, hlt⟩
    · rintro ⟨-, hlt⟩
      exact ⟨by omega, hlt⟩
  · have hceil : ⌈q⌉ ≤ 0 := Int.ceil_le.mpr (by push_cast; linarith)
    have hlow : -a ≤ ⌈q⌉ ↔ -(a : ℚ) - 1 < q := by
      rw [← Int.sub_one_lt_iff, Int.lt_ceil]
      push_cast
      exact Iff.rfl
    rw [hlow]
    constructor
    · rintro ⟨hgt, -⟩
      exact ⟨hgt, by linarith⟩
    · rintro ⟨hgt, -⟩
      exact ⟨hgt, by omega⟩

theorem floor_mantissa (m : ℕ) (e : ℤ) :
    ⌊(m : ℚ) * 2 ^ e⌋ = ((m * 2 ^ e.toNat / 2 ^ (-e).toNat : ℕ) : ℤ) := by
  rcases le_total 0 e with h | h
  · have hdown : (-e).toNat = 0 := by omega
    have hcast : (m : ℚ) * 2 ^ e = ((m * 2 ^ e.toNat : ℕ) : ℚ) := by
      conv_lhs => rw [← Int.toNat_of_nonneg h]
      push_cast
      rw [zpow_natCast]
    rw [hdown, pow_zero, Nat.div_one, hcast, Int.floor_natCast]
  · have hup : e.toNat = 0 := by omega
    have hcast : (m : ℚ) * 2 ^ e = (m : ℤ) / ((2 ^ (-e).toNat : ℕ) : ℚ) := by
      have he : e = -((-e).toNat : ℤ) := by omega
      conv_lhs => rw [he]
      rw [zpow_neg, zpow_natCast, ← div_eq_mul_inv]
      push_cast
      rfl
    rw [hup, pow_zero, Nat.mul_one, hcast, Rat.floor_intCast_div_natCast]
    exact_mod_cast rfl

theorem roundToInt_eq (s : Sign) (m : ℕ) (e : ℤ) :
    roundToInt s m e = truncate ((s.apply m : ℤ) * (2 : ℚ) ^ e) := by
  have hpos : (0 : ℚ) ≤ (m : ℚ) * 2 ^ e := by positivity
  have hround : roundToInt s m e = s.apply (m * 2 ^ e.toNat / 2 ^ (-e).toNat : ℕ) := by
    have hdown : ((0 : ℤ) - (e - (e.toNat : ℤ))).toNat = (-e).toNat := by omega
    have hup : (e - 0).toNat = e.toNat := by omega
    simp only [roundToInt, decreaseExponent, shiftToExponent, FloatInteger.shiftRight_mantissa,
      ExtendedMantissa.ofMantissaAndAccuracy, Nat.shiftLeft_eq, hup, hdown]
  rw [hround]
  cases s with
  | positive =>
    rw [Sign.apply, Sign.apply, ← floor_mantissa, Int.cast_natCast, truncate_of_nonneg hpos]
  | negative =>
    rw [Sign.apply, Sign.apply, ← floor_mantissa, Int.cast_neg, Int.cast_natCast, neg_mul,
      truncate_neg, truncate_of_nonneg hpos]

section Finite
variable {f : Float}

theorem toInt_eq_truncate (hnan : f.isNaN = false) (hinf : f.isInf = false) (a b : ℤ) :
    f.toModel.unpack.toInt a b = truncate (value f) := by
  have hnan' : f.toModel.unpack.isNaN = false := hnan
  have hinf' : f.toModel.unpack.isInf = false := hinf
  rw [value]
  cases hf : f.toModel.unpack with
  | notANumber =>
    rw [hf] at hnan'
    cases hnan'
  | infinity s =>
    rw [hf] at hinf'
    cases hinf'
  | zero s => simp [UnpackedFloat.toInt, truncate]
  | finite s m e hm => exact roundToInt_eq s m e

theorem toInt64_of_mem (hnan : f.isNaN = false) (hinf : f.isInf = false)
    (h : -2 ^ 63 ≤ truncate (value f) ∧ truncate (value f) < 2 ^ 63) :
    (FloatInteger.toInt64 f).toInt = truncate (value f) := by
  rw [FloatInteger.toInt64, toInt_eq_truncate hnan hinf, hnan, if_neg (by decide)]
  rw [if_pos h]
  exact Int64.toInt_ofInt_of_le (by omega) (by omega)

end Finite

/-- The nearest multiple of `10 ^ -scale`, ties away from zero. -/
def roundTo (scale : ℕ) (q : ℚ) : ℚ :=
  (if 0 ≤ q then (⌊|q| * 10 ^ scale + 1 / 2⌋ : ℚ)
    else -(⌊|q| * 10 ^ scale + 1 / 2⌋ : ℚ)) / 10 ^ scale

/-- A value in a column of `precision` digits, `scale` of them after the point. -/
def numeric (precision scale : ℕ) (q : ℚ) : Option ℚ :=
  if |roundTo scale q| < 10 ^ (precision - scale) then some (roundTo scale q) else none

theorem abs_roundTo (scale : ℕ) (q : ℚ) :
    |roundTo scale q| = (⌊|q| * 10 ^ scale + 1 / 2⌋ : ℚ) / 10 ^ scale := by
  have hfloor : (0 : ℚ) ≤ (⌊|q| * 10 ^ scale + 1 / 2⌋ : ℚ) := by
    exact_mod_cast Int.floor_nonneg.mpr (by positivity)
  rw [roundTo, abs_div, abs_of_pos (by positivity : (0 : ℚ) < 10 ^ scale)]
  split_ifs
  · rw [abs_of_nonneg hfloor]
  · rw [abs_neg, abs_of_nonneg hfloor]

theorem numeric_isSome_iff {precision scale : ℕ} (h : scale ≤ precision) (q : ℚ) :
    (numeric precision scale q).isSome = true ↔
      |q| < 10 ^ (precision - scale) - 1 / (2 * 10 ^ scale) := by
  have hunit : (0 : ℚ) < 10 ^ scale := by positivity
  have hsplit : (10 : ℚ) ^ precision = 10 ^ (precision - scale) * 10 ^ scale := by
    rw [← pow_add, Nat.sub_add_cancel h]
  have hsome : (numeric precision scale q).isSome = true ↔
      |roundTo scale q| < 10 ^ (precision - scale) := by
    unfold numeric
    split_ifs with hlt
    · simp [hlt]
    · simp [hlt]
  have hcast : ((10 ^ precision : ℤ) : ℚ) = 10 ^ precision := by push_cast; rfl
  rw [hsome, abs_roundTo, div_lt_iff₀ hunit, ← hsplit, ← hcast, Int.cast_lt, Int.floor_lt, hcast,
    hsplit, lt_sub_iff_add_lt]
  have hscale : |q| * 10 ^ scale + 1 / 2 = (|q| + 1 / (2 * 10 ^ scale)) * 10 ^ scale := by
    field_simp
  rw [hscale, mul_lt_mul_iff_of_pos_right hunit]

end FloatExact
