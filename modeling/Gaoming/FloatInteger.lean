import Mathlib

/-!
# Integers through binary64

`float64(n)` and `int64(f)` of Go, over the logical model of `Float`. The
conversion to a float rounds to nearest even; the one back cuts the fraction
off, and gives the smallest integer for a value that no `int64` can hold, as the
amd64 instruction does. Integers below `2 ^ 53` in magnitude come back
unchanged, and every integer becomes a finite number.
-/

namespace FloatInteger
open Float.Model Float.Model.UnpackedFloat

def ofInt64 (n : Int64) : Float := ⟨Float.Model.ofInt64 n⟩

def toInt64 (f : Float) : Int64 :=
  let n := f.toModel.unpack.toInt (2 ^ 63) (2 ^ 63)
  if f.isNaN then Int64.minValue
  else if -2 ^ 63 ≤ n ∧ n < 2 ^ 63 then Int64.ofInt n
  else Int64.minValue

theorem shiftRight_mantissa (em : ExtendedMantissa) (k : ℕ) :
    (em >>> k).mantissa = em.mantissa / 2 ^ k := by
  change (k.repeat ExtendedMantissa.shiftRightOne em).mantissa = _
  induction k with
  | zero => simp [Nat.repeat]
  | succ k ih =>
    simp only [Nat.repeat, ExtendedMantissa.shiftRightOne, ih]
    rw [Nat.div_div_eq_div_mul, pow_succ]

theorem shiftToExponent_self (m : ℕ) (e : ℤ) :
    shiftToExponent m e .exact e = (⟨m, false, false⟩, e) := by
  simp [shiftToExponent, ExtendedMantissa.ofMantissaAndAccuracy]
  rfl

/-- The mantissa with its leading bit moved to position 52. -/
def scaled (m : ℕ) : ℕ := m * 2 ^ (52 - m.log2)

section Scaled
variable {m : ℕ} (hm : m ≠ 0) (hlt : m < 2 ^ 53)
include hm hlt

theorem log2_le : m.log2 ≤ 52 := by
  have := (Nat.log2_lt hm).mpr hlt
  omega

theorem scaled_bounds : 2 ^ 52 ≤ scaled m ∧ scaled m < 2 ^ 53 := by
  have hle := log2_le hm hlt
  have hlow : 2 ^ m.log2 ≤ m := Nat.log2_self_le hm
  have hhigh : m < 2 ^ (m.log2 + 1) := Nat.lt_log2_self
  have h52 : 2 ^ m.log2 * 2 ^ (52 - m.log2) = 2 ^ 52 := by
    rw [← pow_add, Nat.add_sub_cancel' hle]
  have h53 : 2 ^ (m.log2 + 1) * 2 ^ (52 - m.log2) = 2 ^ 53 := by
    rw [← pow_add]
    congr 1
    omega
  refine ⟨?_, ?_⟩
  · rw [← h52]
    exact Nat.mul_le_mul_right _ hlow
  · rw [← h53]
    exact Nat.mul_lt_mul_of_pos_right hhigh (by positivity)

theorem log2_scaled : (scaled m).log2 = 52 := by
  obtain ⟨hlow, hhigh⟩ := scaled_bounds hm hlt
  have hne : scaled m ≠ 0 := by omega
  refine Nat.le_antisymm ?_ ?_
  · have := (Nat.log2_lt hne).mpr hhigh
    omega
  · exact (Nat.le_log2 hne).mpr hlow

theorem targetExponent_scaled : Format.binary64.targetExponent
    (totalExponent (scaled m) (m.log2 - 52)) = m.log2 - 52 := by
  have hle := log2_le hm hlt
  simp only [Format.targetExponent, totalExponent, log2_scaled hm hlt, Format.mantissaBits,
    Format.minExponent]
  omega

theorem round_of_lt (s : Sign) : round Format.binary64 s m 0 =
    .finite s (scaled m) (m.log2 - 52) (by have := (scaled_bounds hm hlt).1; omega) := by
  have hle := log2_le hm hlt
  have htarget : Format.binary64.targetExponent (totalExponent m 0) = m.log2 - 52 := by
    simp only [Format.targetExponent, totalExponent, Format.mantissaBits, Format.minExponent]
    omega
  have hdecrease : decreaseExponent m 0 (m.log2 - 52) = (scaled m, (m.log2 : ℤ) - 52) := by
    have hshift : ((0 : ℤ) - (m.log2 - 52)).toNat = 52 - m.log2 := by omega
    simp only [decreaseExponent, hshift, scaled, Nat.shiftLeft_eq, Prod.mk.injEq, true_and]
    omega
  have hne : scaled m ≠ 0 := by
    have := (scaled_bounds hm hlt).1
    omega
  simp only [UnpackedFloat.round, htarget, hdecrease, roundWithAccuracy, shiftToTargetExponent,
    targetExponent_scaled hm hlt, shiftToExponent_self, ExtendedMantissa.roundedMantissa,
    ExtendedMantissa.accuracy, Accuracy.roundToNearestEven, hne, dif_neg, not_false_eq_true]

end Scaled

theorem sign_of_components {spec : Format} {sign : Sign} {e : BitVec spec.exponentBits}
    {m : BitVec spec.mantissaBitsWithoutImplicit} :
    unpackSign (packComponents spec sign e m) = sign.toBitVec := by
  ext i hi
  have hi0 : i = 0 := by omega
  subst hi0
  simp [unpackSign, packComponents, BitVec.getLsbD_append, BitVec.getElem_append]

theorem sign_roundtrip (s : Sign) : Sign.ofBitVec s.toBitVec = s := by
  cases s <;> rfl

/-- Packing and unpacking keeps a normal number. -/
theorem unpack_pack_of_normal (s : Sign) {m : ℕ} {e : ℤ} (hm : 0 < m) (hlow : 2 ^ 52 ≤ m)
    (hhigh : m < 2 ^ 53) (hlog : m.log2 = 52) (he : -52 ≤ e) (he' : e ≤ 0) :
    (Float.Model.pack (.finite s m e hm)).unpack = .finite s m e hm := by
  obtain ⟨b, hb⟩ : ∃ b : ℕ, (b : ℤ) = e + 1075 := ⟨(e + 1075).toNat, by omega⟩
  have hbiased : (e + (Format.binary64.exponentBias : ℤ) +
      (Format.binary64.mantissaBitsWithoutImplicit : ℤ)).toNat = b := by
    simp only [Format.exponentBias]
    omega
  have hpack : UnpackedFloat.pack Format.binary64 (.finite s m e hm) =
      packComponents Format.binary64 s (BitVec.ofNat 11 b) (BitVec.ofNat 52 m) := by
    simp only [UnpackedFloat.pack, hbiased, hlog]
    rw [if_neg (by simp only [not_le]; omega), if_pos (by simp [Format.mantissaBits])]
  have hones : BitVec.ofNat 11 b ≠ -1#11 := by
    intro h
    have := congrArg BitVec.toNat h
    simp at this
    omega
  have hzero : BitVec.ofNat 11 b ≠ 0#11 := by
    intro h
    have := congrArg BitVec.toNat h
    simp at this
    omega
  have hmant : (1#1 ++ BitVec.ofNat 52 m).toNat = m := by
    rw [BitVec.toNat_append]
    simp only [BitVec.toNat_ofNat]
    rw [← Nat.shiftLeft_add_eq_or_of_lt (Nat.mod_lt _ (by decide))]
    rw [Nat.shiftLeft_eq]
    omega
  have hexp : ((BitVec.ofNat 11 b).toNat : ℤ) - (Format.binary64.exponentBias +
      Format.binary64.mantissaBitsWithoutImplicit : ℕ) = e := by
    simp only [BitVec.toNat_ofNat, Format.exponentBias]
    omega
  have hunpack : (Float.Model.pack (.finite s m e hm)).unpack =
      UnpackedFloat.unpack Format.binary64
        (packComponents Format.binary64 s (BitVec.ofNat 11 b) (BitVec.ofNat 52 m)) := by
    rw [← hpack]
    rfl
  rw [hunpack]
  simp only [UnpackedFloat.unpack, unpackMantissa_packComponents, unpackExponent_packComponents,
    sign_of_components, sign_roundtrip, hones, hzero, if_false]
  rw [UnpackedFloat.finite.injEq]
  exact ⟨rfl, hmant, hexp⟩

/-- Truncation undoes the scaling. -/
theorem roundToInt_scaled (s : Sign) {m : ℕ} (hm : m ≠ 0) (hlt : m < 2 ^ 53) :
    roundToInt s (scaled m) (m.log2 - 52) = s.apply m := by
  have hle := log2_le hm hlt
  have hup : ((m.log2 : ℤ) - 52).toNat = 0 := by omega
  have hdown : ((0 : ℤ) - (m.log2 - 52)).toNat = 52 - m.log2 := by omega
  have hdecrease : decreaseExponent (scaled m) (m.log2 - 52) 0 = (scaled m, (m.log2 : ℤ) - 52) := by
    simp [decreaseExponent, hup]
  simp only [roundToInt, hdecrease, shiftToExponent, hdown, shiftRight_mantissa,
    ExtendedMantissa.ofMantissaAndAccuracy]
  rw [scaled, Nat.mul_div_cancel _ (by positivity)]

theorem toInt_round (s : Sign) {m : ℕ} (hm : m ≠ 0) (hlt : m < 2 ^ 53) :
    (Float.Model.pack (round Format.binary64 s m 0)).unpack.toInt (2 ^ 63) (2 ^ 63) =
      s.apply m ∧ (Float.Model.pack (round Format.binary64 s m 0)).unpack.isNaN = false := by
  obtain ⟨hlow, hhigh⟩ := scaled_bounds hm hlt
  have hle := log2_le hm hlt
  rw [round_of_lt hm hlt, unpack_pack_of_normal s _ hlow hhigh (log2_scaled hm hlt)
    (by omega) (by omega)]
  exact ⟨roundToInt_scaled s hm hlt, rfl⟩

/-- What `float64(n)` holds, when nothing is rounded. -/
theorem toInt_ofInt64 {n : Int64} (h : n.toInt.natAbs < 2 ^ 53) :
    (Float.Model.ofInt64 n).unpack.toInt (2 ^ 63) (2 ^ 63) = n.toInt ∧
      (Float.Model.ofInt64 n).unpack.isNaN = false := by
  change
    (Float.Model.pack (.normalize Format.binary64 n.toInt 0 .positive)).unpack.toInt _ _ = _ ∧
    (Float.Model.pack (.normalize Format.binary64 n.toInt 0 .positive)).unpack.isNaN = false
  rcases lt_trichotomy n.toInt 0 with hneg | hzero | hpos
  · have hc : compare n.toInt 0 = .lt := compare_lt_iff_lt.mpr hneg
    have hnat : (-n.toInt).toNat ≠ 0 := by omega
    simp only [UnpackedFloat.normalize, hc]
    obtain ⟨hint, hnan⟩ := toInt_round .negative hnat (by omega)
    refine ⟨hint.trans ?_, hnan⟩
    simp only [Sign.apply]
    omega
  · rw [hzero]
    decide
  · have hc : compare n.toInt 0 = .gt := compare_gt_iff_gt.mpr hpos
    have hnat : n.toInt.toNat ≠ 0 := by omega
    simp only [UnpackedFloat.normalize, hc]
    obtain ⟨hint, hnan⟩ := toInt_round .positive hnat (by omega)
    refine ⟨hint.trans ?_, hnan⟩
    simp only [Sign.apply]
    omega

theorem toInt64_ofInt64 {n : Int64} (h : n.toInt.natAbs < 2 ^ 53) : toInt64 (ofInt64 n) = n := by
  obtain ⟨hint, hnan⟩ := toInt_ofInt64 h
  have hnan' : ({ toModel := Float.Model.ofInt64 n } : Float).isNaN = false := hnan
  have hbounds : -2 ^ 63 ≤ n.toInt ∧ n.toInt < 2 ^ 63 := by omega
  simp only [toInt64, ofInt64, hnan', Bool.false_eq_true, if_false, hint, hbounds, and_self,
    if_true, Int64.ofInt_toInt]

theorem exponent_shiftToTarget (m : ℕ) (e : ℤ) (acc : Accuracy) :
    (shiftToTargetExponent Format.binary64 m e acc).2 ≤ max (e + m.log2) (-1074) := by
  simp only [shiftToTargetExponent, shiftToExponent, Format.targetExponent, totalExponent,
    Format.mantissaBits, Format.minExponent]
  omega

theorem roundedMantissa_le (em : ExtendedMantissa) : em.roundedMantissa ≤ em.mantissa + 1 := by
  unfold ExtendedMantissa.roundedMantissa Accuracy.roundToNearestEven
  split <;> omega

theorem log2_lt_of_lt {m k : ℕ} (h : m < 2 ^ (k + 1)) : m.log2 ≤ k := by
  rcases Nat.eq_zero_or_pos m with rfl | hm
  · simp
  · exact Nat.lt_succ_iff.mp ((Nat.log2_lt hm.ne').mpr h)

/-- A number that packs without overflow is finite. -/
theorem finite_pack (s : Sign) {m : ℕ} {e : ℤ} (hm : 0 < m) (he : e ≤ 900) :
    (Float.Model.pack (.finite s m e hm)).unpack.isNaN = false ∧
      (Float.Model.pack (.finite s m e hm)).unpack.isInf = false := by
  have hcomponents : ∀ (b : BitVec 11) (t : BitVec 52), b ≠ -1#11 →
      (UnpackedFloat.unpack Format.binary64 (packComponents Format.binary64 s b t)).isNaN = false ∧
        (UnpackedFloat.unpack Format.binary64 (packComponents Format.binary64 s b t)).isInf =
          false := by
    intro b t hb
    simp only [UnpackedFloat.unpack, unpackMantissa_packComponents, unpackExponent_packComponents]
    rw [if_neg hb]
    split_ifs <;> exact ⟨rfl, rfl⟩
  change (UnpackedFloat.unpack Format.binary64 (UnpackedFloat.pack Format.binary64 _)).isNaN =
    false ∧
    (UnpackedFloat.unpack Format.binary64 (UnpackedFloat.pack Format.binary64 _)).isInf = false
  obtain ⟨b, hb⟩ : ∃ b : ℕ, (e + (Format.binary64.exponentBias : ℤ) +
      (Format.binary64.mantissaBitsWithoutImplicit : ℤ)).toNat = b := ⟨_, rfl⟩
  have hle : b ≤ 2000 := by
    simp only [Format.exponentBias] at hb
    omega
  have hsmall : ¬ 2 ^ Format.binary64.exponentBits ≤ b + 1 := by
    change ¬ 2048 ≤ _
    omega
  simp only [UnpackedFloat.pack, hb, if_neg hsmall]
  split_ifs
  · refine hcomponents _ _ fun h => ?_
    have := congrArg BitVec.toNat h
    simp at this
    omega
  · exact hcomponents _ _ (by decide)

theorem finite_round (s : Sign) {m : ℕ} (h : m < 2 ^ 64) :
    (Float.Model.pack (round Format.binary64 s m 0)).unpack.isNaN = false ∧
      (Float.Model.pack (round Format.binary64 s m 0)).unpack.isInf = false := by
  -- The mantissa after the shift to the left still has at most 64 bits.
  obtain ⟨k, hk⟩ :
      ∃ k : ℕ, ((0 : ℤ) - Format.binary64.targetExponent (totalExponent m 0)).toNat = k :=
    ⟨_, rfl⟩
  have hshift : m <<< k < 2 ^ 64 := by
    have hm : m < 2 ^ (m.log2 + 1) := Nat.lt_log2_self
    have hbits : m.log2 + 1 + k ≤ 64 ∨ k = 0 := by
      simp only [Format.targetExponent, totalExponent, Format.mantissaBits,
        Format.minExponent] at hk
      omega
    rcases hbits with hbits | rfl
    · calc m <<< k = m * 2 ^ k := Nat.shiftLeft_eq m k
        _ < 2 ^ (m.log2 + 1) * 2 ^ k := Nat.mul_lt_mul_of_pos_right hm (by positivity)
        _ = 2 ^ (m.log2 + 1 + k) := (pow_add 2 _ _).symm
        _ ≤ 2 ^ 64 := Nat.pow_le_pow_right (by decide) hbits
    · simpa using h
  have hround : round Format.binary64 s m 0 =
      roundWithAccuracy Format.binary64 s (m <<< k) (0 - k) .exact := by
    simp only [UnpackedFloat.round, decreaseExponent, hk]
  rw [hround, roundWithAccuracy]
  generalize m <<< k = m' at hshift
  have hfirst := exponent_shiftToTarget m' (0 - k) .exact
  have hlog : m'.log2 ≤ 63 := log2_lt_of_lt hshift
  have hmant : (shiftToTargetExponent Format.binary64 m' (0 - k) .exact).1.mantissa ≤ m' := by
    simp only [shiftToTargetExponent, shiftToExponent, shiftRight_mantissa,
      ExtendedMantissa.ofMantissaAndAccuracy]
    exact Nat.div_le_self _ _
  generalize shiftToTargetExponent Format.binary64 m' (0 - k) .exact = first at hfirst hmant
  obtain ⟨em, e₁⟩ := first
  have hrounded := roundedMantissa_le em
  have hsecond := exponent_shiftToTarget em.roundedMantissa e₁ .exact
  have hlog' : em.roundedMantissa.log2 ≤ 64 := log2_lt_of_lt (by dsimp only at hmant; omega)
  dsimp only at hfirst ⊢
  split_ifs with hzero
  · cases s <;> decide
  · exact finite_pack s _ (by omega)

theorem finite_ofInt64 (n : Int64) : (ofInt64 n).isNaN = false ∧ (ofInt64 n).isInf = false := by
  have hlow : -2 ^ 63 ≤ n.toInt := Int64.le_toInt n
  have hhigh : n.toInt < 2 ^ 63 := Int64.toInt_lt n
  change
    (Float.Model.pack (.normalize Format.binary64 n.toInt 0 .positive)).unpack.isNaN = false ∧
    (Float.Model.pack (.normalize Format.binary64 n.toInt 0 .positive)).unpack.isInf = false
  rw [UnpackedFloat.normalize]
  split
  · exact finite_round .negative (by omega)
  · decide
  · exact finite_round .positive (by omega)

end FloatInteger
