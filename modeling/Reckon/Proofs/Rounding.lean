import Reckon.Proofs.Comparison

/-!
The error of rounding. A number that is not tiny is changed by at most one part in `2 ^ 53`, so one
that stays away from the largest double by more than that is rounded to a double, and one that is
past it by as much is rounded to infinity.
-/
namespace Reckon

namespace Nearest

open Float.Model Float.Model.UnpackedFloat

variable {q v : ℚ} {m : ℕ} {e : ℤ}

/-- The nearest whole number is at most a half away. -/
theorem abs_roundedMantissa_sub_le (hq : 0 ≤ q) :
    |((extended q).roundedMantissa : ℚ) - q| ≤ 1 / 2 := by
  have hhalf : ⌊q⌋₊ = ⌊2 * q⌋₊ / 2 := by
    rw [← floor_half]
    congr 1
    ring
  have hle : (⌊2 * q⌋₊ : ℚ) ≤ 2 * q := Nat.floor_le (by positivity)
  have hlt : 2 * q < ⌊2 * q⌋₊ + 1 := Nat.lt_floor_add_one _
  simp only [extended, hhalf, ExtendedMantissa.roundedMantissa]
  generalize ⌊2 * q⌋₊ = t at hle hlt
  rw [abs_le]
  obtain ⟨k, rfl | rfl⟩ : ∃ k, t = 2 * k ∨ t = 2 * k + 1 := ⟨t / 2, by omega⟩
  · have hk : 2 * k / 2 = k := by omega
    have hround : 2 * k % 2 ≠ 1 := by omega
    push_cast at hle hlt
    by_cases hexact : ((2 * k : ℕ) : ℚ) = 2 * q <;>
      simp only [hk, hround, hexact, ne_eq, not_true, not_false_eq_true, decide_true, decide_false,
        ExtendedMantissa.accuracy, Accuracy.roundToNearestEven]
    all_goals constructor <;> linarith
  · have hk : (2 * k + 1) / 2 = k := by omega
    have hround : (2 * k + 1) % 2 = 1 := by omega
    push_cast at hle hlt
    by_cases hexact : ((2 * k + 1 : ℕ) : ℚ) = 2 * q
    · have hparity : ((k % 2 : ℕ) : ℚ) = 0 ∨ ((k % 2 : ℕ) : ℚ) = 1 := by
        rcases Nat.mod_two_eq_zero_or_one k with h | h <;> simp [h]
      simp only [hk, hround, hexact, ne_eq, not_true, decide_true, decide_false,
        ExtendedMantissa.accuracy, Accuracy.roundToNearestEven]
      push_cast at hexact ⊢
      rcases hparity with h | h <;> rw [h] <;> constructor <;> linarith
    · simp only [hk, hround, hexact, ne_eq, not_false_eq_true, decide_true,
        ExtendedMantissa.accuracy, Accuracy.roundToNearestEven]
      push_cast
      constructor <;> linarith

/-- A digit too many becomes one more in the exponent. -/
theorem settle_two_pow (he : -1074 ≤ e) :
    settle (2 ^ 53) e = .finite .positive (2 ^ 52) (e + 1) (by decide) := by
  have hshift : (Format.binary64.targetExponent (totalExponent (2 ^ 53) e) - e).toNat = 1 := by
    simp only [Format.targetExponent, totalExponent, Nat.log2_two_pow, Format.mantissaBits,
      Format.minExponent]
    norm_num
    omega
  have heq : shiftToTargetExponent .binary64 (2 ^ 53) e .exact =
      (⟨2 ^ 52, false, false⟩, e + 1) := by
    rw [shiftToTargetExponent, shiftToExponent, hshift]
    rfl
  rw [settle, heq]
  rfl

/-- Settling does not change the number. -/
theorem exists_settle (hlow : 2 ^ 52 ≤ m) (hhigh : m ≤ 2 ^ 53) (he : -1074 ≤ e) :
    ∃ m' e', ∃ hc : Canonical m' e', 2 ^ 52 ≤ m' ∧ settle m e = .finite .positive m' e' hc.pos ∧
      (m' : ℚ) * 2 ^ e' = m * 2 ^ e := by
  rcases hhigh.lt_or_eq with hlt | rfl
  · have hc : Canonical m e := ⟨by omega, hlt, he, .inl hlow⟩
    exact ⟨m, e, hc, hlow, hc.settle_eq, rfl⟩
  · have hc : Canonical (2 ^ 52) (e + 1) := ⟨by decide, by decide, by omega, .inl le_rfl⟩
    refine ⟨2 ^ 52, e + 1, hc, le_rfl, settle_two_pow he, ?_⟩
    rw [zpow_add_one₀ two_ne_zero]
    push_cast
    ring

/-- In units of the last digit, all digits stand before the point. -/
theorem scaled_bounds (hv : 1 / 2 ≤ v) : 2 ^ 52 ≤ v / 2 ^ unit v ∧ v / 2 ^ unit v < 2 ^ 53 := by
  have hpos : 0 < v := by linarith
  have hlog : -1 ≤ Int.log 2 v := by
    apply (Int.zpow_le_iff_le_log one_lt_two hpos).mp
    norm_num
    linarith
  have hunit : Int.log 2 v = 52 + unit v := by
    rw [unit, max_eq_left (by omega)]
    ring
  have hlow : ((2 : ℕ) : ℚ) ^ Int.log 2 v ≤ v := Int.zpow_log_le_self one_lt_two hpos
  have hhigh : v < ((2 : ℕ) : ℚ) ^ (Int.log 2 v + 1) := Int.lt_zpow_succ_log_self one_lt_two v
  rw [hunit, Nat.cast_ofNat] at hlow hhigh
  rw [zpow_add₀ two_ne_zero] at hlow
  rw [add_right_comm, zpow_add₀ two_ne_zero] at hhigh
  rw [le_div_iff₀ (by positivity), div_lt_iff₀ (by positivity)]
  exact ⟨by exact_mod_cast hlow, by exact_mod_cast hhigh⟩

/-- The nearest double is at most one part in `2 ^ 53` away. -/
theorem exists_nearest (hv : 1 / 2 ≤ v) : ∃ m e, ∃ hc : Canonical m e, 2 ^ 52 ≤ m ∧
    nearest v = .finite .positive m e hc.pos ∧ |(m : ℚ) * 2 ^ e - v| ≤ v / 2 ^ 53 := by
  obtain ⟨hqlow, hqhigh⟩ := scaled_bounds hv
  have hu : -1074 ≤ unit v := le_max_right _ _
  rw [nearest]
  generalize unit v = u at hqlow hqhigh hu
  have htwo : (0 : ℚ) < 2 ^ u := by positivity
  obtain ⟨q, rfl⟩ : ∃ q, v = q * 2 ^ u := ⟨v / 2 ^ u, by field_simp⟩
  rw [mul_div_cancel_right₀ _ htwo.ne'] at hqlow hqhigh ⊢
  have herror := abs_roundedMantissa_sub_le (q := q) (by linarith)
  generalize (extended q).roundedMantissa = m at herror
  have hm := abs_le.mp herror
  have hlow : 2 ^ 52 ≤ m := by
    have h : ((2 ^ 52 : ℕ) : ℚ) < (m + 1 : ℕ) := by
      push_cast
      linarith
    exact Nat.lt_succ_iff.mp (Nat.cast_lt.mp h)
  have hhigh : m ≤ 2 ^ 53 := by
    have h : (m : ℚ) < (2 ^ 53 + 1 : ℕ) := by
      push_cast
      linarith
    exact Nat.lt_succ_iff.mp (Nat.cast_lt.mp h)
  obtain ⟨m', e', hc, hfull, hsettle, hvalue⟩ := exists_settle hlow hhigh hu
  refine ⟨m', e', hc, hfull, hsettle, ?_⟩
  have hhalf : (1 : ℚ) / 2 ≤ q / 2 ^ 53 := by
    rw [div_le_div_iff₀ two_pos (by positivity)]
    linarith
  calc |(m' : ℚ) * 2 ^ e' - q * 2 ^ u| = |(m : ℚ) - q| * 2 ^ u := by
        rw [hvalue, ← sub_mul, abs_mul, abs_of_pos htwo]
    _ ≤ q / 2 ^ 53 * 2 ^ u := by
        gcongr
        exact herror.trans hhalf
    _ = q * 2 ^ u / 2 ^ 53 := by ring

end Nearest

namespace Bits

open Float.Model Float.Model.UnpackedFloat Nearest

variable {x y : Float} {v a b : ℚ} {m n : ℕ} {e : ℤ}

/-- A number that has all its digits and is not past the largest double is packed as it is. -/
theorem unpack_pack_of_le (hc : Canonical m e) (hfull : 2 ^ 52 ≤ m) (he : e ≤ 971) :
    (Float.Model.pack (.finite .positive m e hc.pos)).unpack = .finite .positive m e hc.pos := by
  have hlow := hc.le
  have hlt := hc.lt
  have hlog : m.log2 = 52 := (Nat.log2_eq_iff hc.pos.ne').mpr ⟨hfull, hlt⟩
  obtain ⟨k, hk⟩ : ∃ k : ℕ, e + 1075 = k := Int.eq_ofNat_of_zero_le (by omega)
  obtain rfl : e = k - 1075 := by omega
  have hpack : UnpackedFloat.pack .binary64 (.finite .positive m (k - 1075) hc.pos) =
      packComponents .binary64 .positive (BitVec.ofNat 11 k) (BitVec.ofNat 52 m) := by
    have hbiased : ((k : ℤ) - 1075 + Format.binary64.exponentBias +
        Format.binary64.mantissaBitsWithoutImplicit).toNat = k := by
      simp only [Format.exponentBias]
      norm_num
      omega
    have hroom : ¬ 2 ^ Format.binary64.exponentBits ≤ k + 1 := by
      norm_num
      omega
    simp only [UnpackedFloat.pack, hbiased, hroom, if_false, hlog]
    rfl
  have hexponent : (BitVec.ofNat 11 k).toNat = k := by
    rw [BitVec.toNat_ofNat]
    omega
  have hne : ∀ b : BitVec 11, b.toNat ≠ k → BitVec.ofNat 11 k ≠ b := by
    rintro b hb rfl
    exact hb hexponent
  have hones : BitVec.ofNat 11 k ≠ -1#11 := hne _ (by simp; omega)
  have hzero : BitVec.ofNat 11 k ≠ 0#11 := hne _ (by simp; omega)
  have hmantissa : (1#1 ++ BitVec.ofNat 52 m).toNat = m := by
    rw [toNat_one_append, BitVec.toNat_ofNat]
    omega
  change UnpackedFloat.unpack .binary64 (UnpackedFloat.pack .binary64 _) = _
  rw [hpack]
  simp only [UnpackedFloat.unpack, unpackExponent_packComponents, unpackMantissa_packComponents,
    unpackSign_packComponents, Sign.ofBitVec_toBitVec, hones, hzero, if_false, hmantissa, hexponent]
  congr 1

theorem isInf_pack (he : 972 ≤ e) (hm : 0 < m) :
    (Float.ofModel (.pack (.finite .positive m e hm))).isInf := by
  have hbiased : 2 ^ Format.binary64.exponentBits ≤ (e + Format.binary64.exponentBias +
      Format.binary64.mantissaBitsWithoutImplicit).toNat + 1 := by
    simp [Format.exponentBias]
    omega
  have hpack : Float.Model.pack (.finite .positive m e hm) = .pack (.infinity .positive) := by
    simp only [Float.Model.pack, UnpackedFloat.pack, hbiased, if_true]
  rw [hpack]
  decide

/-- The double nearest to a number. -/
def rounded (v : ℚ) : Float :=
  .ofModel (.pack (nearest v))

/-- The double is this number, without a sign and with all its digits. -/
def Represents (x : Float) (w : ℚ) : Prop :=
  ∃ m e, ∃ hc : Canonical m e, 2 ^ 52 ≤ m ∧ view x = .finite .positive m e hc.pos ∧ w = m * 2 ^ e

/-- Short of the first power of two that has no double, a number is rounded to one. -/
theorem exists_rounded (hv : 1 / 2 ≤ v) (h : v + v / 2 ^ 53 < 2 ^ 1024) :
    ∃ w, Represents (rounded v) w ∧ |w - v| ≤ v / 2 ^ 53 := by
  obtain ⟨m, e, hc, hfull, hnearest, herror⟩ := exists_nearest hv
  refine ⟨m * 2 ^ e, ⟨m, e, hc, hfull, ?_, rfl⟩, herror⟩
  have hlt : (2 : ℚ) ^ (52 + e) < 2 ^ (1024 : ℤ) := by
    have hm : (2 : ℚ) ^ 52 ≤ m := by exact_mod_cast hfull
    calc (2 : ℚ) ^ (52 + e) = 2 ^ 52 * 2 ^ e := by
          rw [zpow_add₀ two_ne_zero]
          norm_cast
      _ ≤ m * 2 ^ e := by gcongr
      _ ≤ v + v / 2 ^ 53 := by linarith [(abs_le.mp herror).2]
      _ < 2 ^ (1024 : ℤ) := by exact_mod_cast h
  have he : 52 + e < 1024 := (zpow_lt_zpow_iff_right₀ one_lt_two).mp hlt
  change (Float.Model.pack (nearest v)).unpack = _
  rw [hnearest]
  exact unpack_pack_of_le hc hfull (by omega)

/-- From that power of two onwards it is rounded to infinity. -/
theorem isInf_rounded (hv : 1 / 2 ≤ v) (h : 2 ^ 1024 ≤ v - v / 2 ^ 53) : (rounded v).isInf := by
  obtain ⟨m, e, hc, hfull, hnearest, herror⟩ := exists_nearest hv
  have hlt : (2 : ℚ) ^ (1024 : ℤ) < 2 ^ (53 + e) := by
    have hm : (m : ℚ) < 2 ^ 53 := by exact_mod_cast hc.lt
    calc (2 : ℚ) ^ (1024 : ℤ) ≤ v - v / 2 ^ 53 := by exact_mod_cast h
      _ ≤ m * 2 ^ e := by linarith [(abs_le.mp herror).1]
      _ < 2 ^ 53 * 2 ^ e := by gcongr
      _ = 2 ^ (53 + e) := by
          rw [zpow_add₀ two_ne_zero]
          norm_cast
  have he : 1024 < 53 + e := (zpow_lt_zpow_iff_right₀ one_lt_two).mp hlt
  rw [rounded, hnearest]
  exact isInf_pack (by omega) hc.pos

theorem Represents.isInf (h : Represents x a) : x.isInf = false := by
  obtain ⟨m, e, hc, -, hx, -⟩ := h
  exact isInf_of_finite hx

/-- A product is rounded once. -/
theorem Represents.mul (hx : Represents x a) (hy : Represents y b) : x * y = rounded (a * b) := by
  obtain ⟨m, e, hm, hfull, hview, rfl⟩ := hx
  obtain ⟨n, k, hn, hfull', hview', rfl⟩ := hy
  have hA : 2 ^ 52 ≤ m * n / 1 := by
    rw [Nat.div_one]
    nlinarith [hn.pos]
  have h := roundWithAccuracy_eq_nearest (e := e + k) (Nat.mul_pos hm.pos hn.pos) one_pos (.inl hA)
  have hvalue : ((m * n : ℕ) : ℚ) / (1 : ℕ) * 2 ^ (e + k) = m * 2 ^ e * (n * 2 ^ k) := by
    rw [zpow_add₀ two_ne_zero]
    push_cast
    ring
  rw [hvalue, Nat.div_one, Nat.mod_one] at h
  change Float.ofModel (.pack (UnpackedFloat.mul .binary64 (view x) (view y))) = _
  rw [hview, hview', rounded, ← h]
  rfl

/-- Whole numbers of at most 53 binary digits are doubles. -/
theorem represents_natCast (hm : 0 < m) (h : m < 2 ^ 53) : Represents (rounded m) m := by
  have hlog : m.log2 ≤ 52 := Nat.lt_succ_iff.mp ((Nat.log2_lt hm.ne').mpr h)
  obtain ⟨k, hk⟩ : ∃ k, m.log2 + k = 52 := ⟨52 - m.log2, by omega⟩
  have hlow : 2 ^ 52 ≤ m * 2 ^ k := by
    rw [← hk, pow_add]
    gcongr
    exact Nat.log2_self_le hm.ne'
  have hhigh : m * 2 ^ k < 2 ^ 53 := by
    have hsplit : 53 = m.log2 + 1 + k := by omega
    rw [hsplit, pow_add _ _ k]
    gcongr
    exact Nat.lt_log2_self
  have hc : Canonical (m * 2 ^ k) (-k) := ⟨by positivity, hhigh, by omega, .inl hlow⟩
  have hvalue : (m : ℚ) = (m * 2 ^ k : ℕ) * 2 ^ (-(k : ℤ)) := by
    rw [zpow_neg, zpow_natCast]
    push_cast
    field_simp
  refine ⟨m * 2 ^ k, -k, hc, hlow, ?_, hvalue⟩
  rw [hvalue, rounded, hc.nearest_eq]
  exact unpack_pack_of_le hc hlow (by omega)

/-- The shift makes room for all binary digits. -/
theorem round_eq_nearest (hm : 0 < m) :
    UnpackedFloat.round .binary64 .positive m 0 = nearest m := by
  obtain ⟨k, hk⟩ : ∃ k, (0 - Format.binary64.targetExponent (totalExponent m 0)).toNat = k :=
    ⟨_, rfl⟩
  have hlow : 2 ^ 52 ≤ m <<< k / 1 := by
    have hlog : 52 ≤ m.log2 + k := by
      simp only [Format.targetExponent, totalExponent, Format.mantissaBits, Format.minExponent] at hk
      norm_num at hk
      omega
    calc 2 ^ 52 ≤ 2 ^ (m.log2 + k) := Nat.pow_le_pow_right two_pos hlog
      _ ≤ m * 2 ^ k := by
          rw [pow_add]
          gcongr
          exact Nat.log2_self_le hm.ne'
      _ = m <<< k / 1 := by rw [Nat.div_one, Nat.shiftLeft_eq]
  have hpos : 0 < m <<< k := by
    rw [Nat.shiftLeft_eq]
    positivity
  have h := roundWithAccuracy_eq_nearest (e := -k) hpos one_pos (.inl hlow)
  have hvalue : ((m <<< k : ℕ) : ℚ) / (1 : ℕ) * 2 ^ (-(k : ℤ)) = m := by
    rw [Nat.shiftLeft_eq, zpow_neg, zpow_natCast]
    push_cast
    field_simp
  rw [hvalue, Nat.div_one, Nat.mod_one] at h
  rw [UnpackedFloat.round, ← h]
  simp only [decreaseExponent, hk]
  rw [zero_sub]
  rfl

theorem toFloat_toUInt64 (hm : 0 < m) (h : m < 2 ^ 64) : m.toUInt64.toFloat = rounded m := by
  have hsize : m.toUInt64.toNat = m := Nat.mod_eq_of_lt h
  have hcompare : compare (m : ℤ) 0 = .gt := Int.compare_eq_gt.mpr (by omega)
  have hnearest : UnpackedFloat.ofUInt64 .binary64 m.toUInt64 = nearest m := by
    simp only [UnpackedFloat.ofUInt64, hsize, UnpackedFloat.ofNat, UnpackedFloat.ofInt,
      UnpackedFloat.normalize, hcompare, Int.toNat_natCast, round_eq_nearest hm]
  rw [UInt64.toFloat, Float.Model.ofUInt64, hnearest, rounded]

theorem ofModel_ofScientific (hm : 0 < m) (he : n ≤ 2048) :
    Float.ofModel (.ofScientific m n) = rounded (m * 10 ^ n) := by
  have h := ofScientific_eq_nearest hm (e := n) (by omega) (by omega)
  rw [zpow_natCast] at h
  rw [Float.Model.ofScientific, h, rounded]

/-- Small numbers are multiplied by a power of ten from a table, which for whole numbers is one. -/
theorem ofNat_eq_rounded (hm : 0 < m) : Float.ofNat m = rounded m := by
  change Float.ofScientific m false 0 = _
  by_cases h : m < 2 ^ 53
  · have hone : Float.exactlyRepresentablePowersOfTen[0] = rounded (1 : ℕ) := by
      rw [← toFloat_toUInt64 one_pos (by decide)]
      decide +kernel
    have hproduct : Float.ofScientific m false 0 =
        m.toUInt64.toFloat * Float.exactlyRepresentablePowersOfTen[0] := by
      rw [Float.ofScientific, dif_pos ⟨h, by decide⟩]
      rfl
    have hm' := represents_natCast hm h
    have hone' := represents_natCast one_pos (by decide)
    rw [hproduct, hone, toFloat_toUInt64 hm (by omega), hm'.mul hone', Nat.cast_one, mul_one]
  · have hscientific : Float.ofScientific m false 0 = .ofModel (.ofScientific m (0 : ℕ)) := by
      rw [Float.ofScientific, dif_neg fun hfast => h hfast.1]
      rfl
    rw [hscientific, ofModel_ofScientific hm (by decide), pow_zero, mul_one]

end Bits

end Reckon
