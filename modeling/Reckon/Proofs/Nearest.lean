import Mathlib
import Reckon.Number.Decimal

/-!
The double that a decimal reads as is the one nearest to its value: it depends on nothing but the
value, and a value that is a double reads as that one.
-/
namespace Reckon.Nearest

open Float.Model Float.Model.UnpackedFloat

variable {q v : ℚ} {A D m n : ℕ} {e : ℤ}

/-- A number cut off at the point, with the next binary digit and whether more of them follow. -/
def extended (q : ℚ) : ExtendedMantissa where
  mantissa := ⌊q⌋₊
  roundBit := decide (⌊2 * q⌋₊ % 2 = 1)
  stickyBit := decide ((⌊2 * q⌋₊ : ℚ) ≠ 2 * q)

theorem floor_half (q : ℚ) : ⌊q / 2⌋₊ = ⌊q⌋₊ / 2 :=
  Nat.floor_div_ofNat q 2

theorem shiftRightOne_extended (q : ℚ) : (extended q).shiftRightOne = extended (q / 2) := by
  have htwice : 2 * (q / 2) = q := by ring
  have hfloor : ⌊q⌋₊ = ⌊2 * q⌋₊ / 2 := by
    rw [← floor_half]
    congr 1
    ring
  have hwhole : ((⌊q⌋₊ : ℚ) = q) ↔ ⌊2 * q⌋₊ % 2 = 0 ∧ (⌊2 * q⌋₊ : ℚ) = 2 * q := by
    constructor
    · intro h
      have h2 : ⌊2 * q⌋₊ = 2 * ⌊q⌋₊ := by
        rw [← h]
        exact_mod_cast Nat.floor_natCast (R := ℚ) (2 * ⌊q⌋₊)
      refine ⟨by omega, ?_⟩
      rw [h2]
      push_cast
      rw [h]
    · rintro ⟨heven, h⟩
      have h2 : ⌊2 * q⌋₊ = 2 * ⌊q⌋₊ := by omega
      rw [h2] at h
      push_cast at h
      linarith
  have hsticky : (⌊q⌋₊ : ℚ) ≠ q ↔ ⌊2 * q⌋₊ % 2 = 1 ∨ (⌊2 * q⌋₊ : ℚ) ≠ 2 * q := by
    rw [ne_eq, hwhole, not_and_or, Nat.mod_two_not_eq_zero]
  have hround : (⌊q⌋₊ % 2 != 0) = decide (⌊q⌋₊ % 2 = 1) := by
    rw [Bool.eq_iff_iff]
    simp
  simp only [ExtendedMantissa.shiftRightOne, extended, floor_half, htwice, hround, hsticky,
    Bool.decide_or]

theorem shiftRight_extended (q : ℚ) (n : ℕ) : extended q >>> n = extended (q / 2 ^ n) := by
  change n.repeat ExtendedMantissa.shiftRightOne (extended q) = _
  induction n with
  | zero => simp [Nat.repeat]
  | succ n ih => rw [Nat.repeat, ih, shiftRightOne_extended, div_div, pow_succ]

theorem extended_natCast (m : ℕ) : extended m = ⟨m, false, false⟩ := by
  have h : ⌊2 * (m : ℚ)⌋₊ = 2 * m := by exact_mod_cast Nat.floor_natCast (R := ℚ) (2 * m)
  simp [extended, h]

/-- The quotient and remainder of a division say all that there is to say about the fraction. -/
theorem extended_div (A : ℕ) (hD : 0 < D) :
    ExtendedMantissa.ofMantissaAndAccuracy (A / D) (accuracyOfFraction (A % D) D) =
      extended (A / D) := by
  have hD' : (D : ℚ) ≠ 0 := by positivity
  have htwice : 2 * ((A : ℚ) / D) = (2 * A : ℕ) / D := by
    push_cast
    ring
  have hr := Nat.mod_lt A hD
  have hA := Nat.mod_add_div A D
  generalize A % D = r at hr hA ⊢
  generalize hm : A / D = m at hA ⊢
  have hfloor : ⌊2 * ((A : ℚ) / D)⌋₊ = 2 * A / D := by
    rw [htwice, Nat.floor_div_eq_div]
  have hsticky : ((2 * A / D : ℕ) : ℚ) ≠ 2 * ((A : ℚ) / D) ↔ 2 * A / D * D ≠ 2 * A := by
    rw [htwice, ne_eq, eq_div_iff hD']
    norm_cast
  simp only [extended, hfloor, hsticky, Nat.floor_div_eq_div, hm]
  rcases lt_or_ge (2 * r) D with hlt | hge
  · have hdigit : 2 * A / D = 2 * m := by
      apply Nat.div_eq_of_lt_le <;> nlinarith
    have hexact : 2 * m * D ≠ 2 * A ↔ r ≠ 0 := by
      rw [← hA]
      constructor <;> intro h h' <;> apply h <;> nlinarith
    have hcompare : compare (2 * r) D = .lt := Nat.compare_eq_lt.mpr hlt
    by_cases h0 : r = 0 <;>
      simp [accuracyOfFraction, ExtendedMantissa.ofMantissaAndAccuracy, hdigit, hexact, h0,
        hcompare]
  · have hdigit : 2 * A / D = 2 * m + 1 := by
      apply Nat.div_eq_of_lt_le <;> nlinarith
    have hexact : (2 * m + 1) * D ≠ 2 * A ↔ 2 * r ≠ D := by
      rw [← hA]
      constructor <;> intro h h' <;> apply h <;> nlinarith
    have h0 : r ≠ 0 := by omega
    rcases hge.eq_or_lt with heq | hgt
    · simp [accuracyOfFraction, ExtendedMantissa.ofMantissaAndAccuracy, hdigit, hexact, h0,
        heq.symm]
    · have hcompare : compare (2 * r) D = .gt := Nat.compare_eq_gt.mpr hgt
      simp [accuracyOfFraction, ExtendedMantissa.ofMantissaAndAccuracy, hdigit, hexact, h0,
        hcompare, hgt.ne']

/-- The exponent of the last binary digit that a double near `v` has room for. -/
def unit (v : ℚ) : ℤ :=
  max (Int.log 2 v - 52) (-1074)

theorem log_eq (hv : 0 < v) (hlow : (2 : ℚ) ^ e ≤ v) (hhigh : v < 2 ^ (e + 1)) :
    Int.log 2 v = e := by
  have hle : e ≤ Int.log 2 v := (Int.zpow_le_iff_le_log one_lt_two hv).mp (by exact_mod_cast hlow)
  have hlt : Int.log 2 v < e + 1 :=
    (Int.lt_zpow_iff_log_lt one_lt_two hv).mp (by exact_mod_cast hhigh)
  omega

/-- The exponent that rounding aims at, if the fraction has a whole part or is too small for one. -/
theorem targetExponent_div (hA : 0 < A) (hD : 0 < D) (h : 0 < A / D ∨ e ≤ -1022) :
    Format.binary64.targetExponent (totalExponent (A / D) e) = unit ((A : ℚ) / D * 2 ^ e) := by
  have htarget : Format.binary64.targetExponent (totalExponent (A / D) e) =
      max ((A / D).log2 + e - 52) (-1074) := by
    simp only [Format.targetExponent, totalExponent, Format.mantissaBits, Format.minExponent]
    norm_num
    omega
  have hA' : (0 : ℚ) < A := Nat.cast_pos.mpr hA
  have hD' : (0 : ℚ) < D := Nat.cast_pos.mpr hD
  have hv : 0 < (A : ℚ) / D * 2 ^ e := by positivity
  have hfloor : ((A / D : ℕ) : ℚ) ≤ A / D := by
    rw [le_div_iff₀ hD']
    exact_mod_cast Nat.div_mul_le_self A D
  have hceil : (A : ℚ) / D < (A / D : ℕ) + 1 := by
    rw [div_lt_iff₀ hD']
    exact_mod_cast Nat.lt_mul_of_div_lt (Nat.lt_succ_self (A / D)) hD
  rw [htarget, unit]
  by_cases hpos : 0 < A / D
  · have hlow : (2 : ℚ) ^ (A / D).log2 ≤ (A / D : ℕ) := by
      exact_mod_cast Nat.log2_self_le hpos.ne'
    have hhigh : ((A / D : ℕ) : ℚ) + 1 ≤ 2 ^ ((A / D).log2 + 1) := by
      exact_mod_cast Nat.lt_log2_self
    have hlog : Int.log 2 ((A : ℚ) / D * 2 ^ e) = (A / D).log2 + e := by
      apply log_eq hv
      · rw [zpow_add₀ two_ne_zero, zpow_natCast]
        gcongr
        exact hlow.trans hfloor
      · rw [add_right_comm, zpow_add₀ two_ne_zero]
        gcongr
        exact_mod_cast hceil.trans_le hhigh
    rw [hlog]
  · have he : e ≤ -1022 := h.resolve_left hpos
    have hzero : A / D = 0 := Nat.eq_zero_of_not_pos hpos
    have hlog : Int.log 2 ((A : ℚ) / D * 2 ^ e) < e := by
      apply (Int.lt_zpow_iff_log_lt one_lt_two hv).mp
      have hsmall : (A : ℚ) / D < 1 := by simpa [hzero] using hceil
      have he' : (0 : ℚ) < 2 ^ e := by positivity
      push_cast
      nlinarith
    rw [hzero, Nat.log2_zero, Nat.cast_zero]
    omega

/-- A rounded mantissa, which may have become one digit too long. -/
def settle (m : ℕ) (e : ℤ) : UnpackedFloat :=
  let (em, e) := shiftToTargetExponent .binary64 m e .exact
  if h : em.mantissa = 0 then .zero .positive
  else .finite .positive em.mantissa e (Nat.pos_of_ne_zero h)

/-- The double nearest to a positive number, a half going to the even neighbour. -/
def nearest (v : ℚ) : UnpackedFloat :=
  settle (extended (v / 2 ^ unit v)).roundedMantissa (unit v)

/-- Enough binary digits of the quotient leave room for what is rounded away. -/
theorem le_unit (hA : 0 < A) (hD : 0 < D) (h : 2 ^ 52 ≤ A / D ∨ e ≤ -1074) :
    e ≤ unit ((A : ℚ) / D * 2 ^ e) := by
  rcases h with h | h
  · have hpos : 0 < A / D := Nat.lt_of_lt_of_le (by decide) h
    rw [← targetExponent_div hA hD (.inl hpos)]
    have hlog : 52 ≤ (A / D).log2 := (Nat.le_log2 hpos.ne').mpr h
    simp only [Format.targetExponent, totalExponent, Format.mantissaBits]
    omega
  · exact h.trans (le_max_right _ _)

theorem roundWithAccuracy_eq_nearest (hA : 0 < A) (hD : 0 < D)
    (h : 2 ^ 52 ≤ A / D ∨ e ≤ -1074) :
    roundWithAccuracy .binary64 .positive (A / D) e (accuracyOfFraction (A % D) D) =
      nearest (A / D * 2 ^ e) := by
  have he := le_unit hA hD h
  have htarget : Format.binary64.targetExponent (totalExponent (A / D) e) =
      unit ((A : ℚ) / D * 2 ^ e) := by
    apply targetExponent_div hA hD
    rcases h with h | h
    · exact .inl (Nat.lt_of_lt_of_le (by decide) h)
    · exact .inr (by omega)
  have hshift : shiftToTargetExponent .binary64 (A / D) e (accuracyOfFraction (A % D) D) =
      (extended (A / D * 2 ^ e / 2 ^ unit (A / D * 2 ^ e)), unit (A / D * 2 ^ e)) := by
    rw [shiftToTargetExponent, htarget, shiftToExponent, extended_div A hD]
    generalize unit ((A : ℚ) / D * 2 ^ e) = t at he
    obtain ⟨n, rfl⟩ := Int.le.dest he
    simp only [add_sub_cancel_left, Int.toNat_natCast, shiftRight_extended]
    congr 2
    rw [zpow_add₀ two_ne_zero, zpow_natCast]
    field_simp
  simp only [roundWithAccuracy, hshift, nearest, settle]

theorem mul_eq_nearest (hm : 0 < m) (n : ℕ) (h₁ h₂) :
    mul .binary64 (.finite .positive (m <<< 53) (-53) h₁) (.finite .positive (10 ^ n) 0 h₂) =
      nearest (m * 10 ^ n) := by
  have hA : 2 ^ 52 ≤ m <<< 53 * 10 ^ n / 1 := by
    have hten : 1 ≤ 10 ^ n := Nat.one_le_pow _ _ (by decide)
    rw [Nat.div_one, Nat.shiftLeft_eq]
    nlinarith
  have h := roundWithAccuracy_eq_nearest (e := -53) (Nat.mul_pos h₁ h₂) one_pos (.inl hA)
  have hvalue : ((m <<< 53 * 10 ^ n : ℕ) : ℚ) / (1 : ℕ) * 2 ^ (-53 : ℤ) = m * 10 ^ n := by
    have hpow : (2 : ℚ) ^ 53 * 2 ^ (-53 : ℤ) = 1 := by norm_num
    rw [Nat.shiftLeft_eq, Nat.cast_one, div_one, Nat.cast_mul, Nat.cast_mul, mul_right_comm,
      Nat.cast_pow, Nat.cast_ofNat, mul_assoc (m : ℚ), hpow, mul_one, Nat.cast_pow, Nat.cast_ofNat]
  rw [hvalue, Nat.div_one, Nat.mod_one] at h
  exact h

/-- The dividend is shifted so far that the quotient has enough digits. -/
theorem div_eq_nearest (hm : 0 < m) (hD : 0 < D) (h₁ h₂) :
    div .binary64 (.finite .positive m 0 h₁) (.finite .positive D 0 h₂) = nearest (m / D) := by
  obtain ⟨t, ht⟩ : ∃ t : ℤ, t = min 0 (max ((m.log2 : ℤ) - D.log2 - 53) (-1074)) := ⟨_, rfl⟩
  have hcore : divCore .binary64 m 0 D 0 =
      (m <<< (-t).toNat / D, t, accuracyOfFraction (m <<< (-t).toNat % D) D) := by
    have htarget : min ((0 : ℤ) - 0) (Format.binary64.targetExponent
        (totalExponent m 0 - totalExponent D 0)) = t := by
      simp only [ht, Format.targetExponent, totalExponent, Format.mantissaBits,
        Format.minExponent]
      norm_num
    rw [sub_zero] at htarget
    simp only [divCore, sub_zero (0 : ℤ), htarget, zero_sub]
  have hA : 2 ^ 52 ≤ m <<< (-t).toNat / D ∨ t ≤ -1074 := by
    by_cases hlow : t ≤ -1074
    · exact .inr hlow
    · left
      have hshift : D.log2 + 53 ≤ m.log2 + (-t).toNat := by omega
      rw [Nat.le_div_iff_mul_le hD, Nat.shiftLeft_eq]
      calc 2 ^ 52 * D ≤ 2 ^ 52 * 2 ^ (D.log2 + 1) := by
            gcongr
            exact Nat.lt_log2_self.le
        _ = 2 ^ (D.log2 + 53) := by ring
        _ ≤ 2 ^ (m.log2 + (-t).toNat) := Nat.pow_le_pow_right two_pos hshift
        _ ≤ m * 2 ^ (-t).toNat := by
            rw [pow_add]
            gcongr
            exact Nat.log2_self_le hm.ne'
  have h0 : 0 < m <<< (-t).toNat := by
    rw [Nat.shiftLeft_eq]
    positivity
  have hvalue : ((m <<< (-t).toNat : ℕ) : ℚ) / D * 2 ^ t = m / D := by
    have hcast : ((-t).toNat : ℤ) = -t := Int.toNat_of_nonneg (by omega)
    rw [Nat.shiftLeft_eq]
    push_cast
    rw [← zpow_natCast, hcast, zpow_neg]
    field_simp
  have h := roundWithAccuracy_eq_nearest h0 hD hA
  rw [hvalue] at h
  simp only [UnpackedFloat.div, hcore]
  exact h

/-- Exponents so large that any double has been left behind, either way, are cut short. -/
theorem ofScientific_eq_nearest (hm : 0 < m) (hlow : -(2048 + m.log2) ≤ e) (hhigh : e ≤ 2048) :
    UnpackedFloat.ofScientific .binary64 m e = nearest (m * 10 ^ e) := by
  have hm' : ¬ m = 0 := hm.ne'
  have hhigh' : ¬ e > 2 ^ Format.binary64.exponentBits := by
    norm_num
    exact hhigh
  have hlow' : ¬ e < -((2 ^ Format.binary64.exponentBits : ℤ) + m.log2) := by
    norm_num
    omega
  rw [UnpackedFloat.ofScientific, dif_neg hm', if_neg hhigh', if_neg hlow']
  split
  · rename_i h
    obtain ⟨n, rfl⟩ := Int.eq_ofNat_of_zero_le h
    exact_mod_cast mul_eq_nearest hm n _ _
  · rename_i h
    obtain ⟨n, hn⟩ := Int.eq_ofNat_of_zero_le (show 0 ≤ -e by omega)
    obtain rfl : e = -n := by omega
    have hten : ((10 ^ n : ℕ) : ℚ)⁻¹ = 10 ^ (-(n : ℤ)) := by
      rw [zpow_neg, zpow_natCast, Nat.cast_pow, Nat.cast_ofNat]
    rw [← hten, ← div_eq_mul_inv]
    simp only [neg_neg, Int.toNat_natCast]
    exact div_eq_nearest hm (by positivity) _ _

/-- The mantissa and exponent of a double: all digits are there, or the exponent is the least. -/
structure Canonical (m : ℕ) (e : ℤ) : Prop where
  pos : 0 < m
  lt : m < 2 ^ 53
  le : -1074 ≤ e
  full : 2 ^ 52 ≤ m ∨ e = -1074

theorem Canonical.unit_eq (h : Canonical m e) : unit (m * 2 ^ e) = e := by
  have hm : (0 : ℚ) < m := Nat.cast_pos.mpr h.pos
  have hv : 0 < (m : ℚ) * 2 ^ e := by positivity
  have hlt : (m : ℚ) < 2 ^ 53 := by exact_mod_cast h.lt
  have hhigh : (m : ℚ) * 2 ^ e < 2 ^ (e + 52 + 1) := by
    rw [add_assoc, add_comm, zpow_add₀ two_ne_zero]
    gcongr
    exact_mod_cast hlt
  rw [unit]
  by_cases hfull : 2 ^ 52 ≤ m
  · have hle : (2 : ℚ) ^ 52 ≤ m := by exact_mod_cast hfull
    have hlow : (2 : ℚ) ^ (e + 52) ≤ m * 2 ^ e := by
      rw [add_comm, zpow_add₀ two_ne_zero]
      gcongr
      exact_mod_cast hle
    rw [log_eq hv hlow hhigh, add_sub_cancel_right]
    exact max_eq_left h.le
  · have he : e = -1074 := h.full.resolve_left hfull
    have hlog : Int.log 2 ((m : ℚ) * 2 ^ e) < e + 52 + 1 :=
      (Int.lt_zpow_iff_log_lt one_lt_two hv).mp (by exact_mod_cast hhigh)
    omega

theorem Canonical.settle_eq (h : Canonical m e) : settle m e = .finite .positive m e h.pos := by
  have hlog : m.log2 < 53 := (Nat.log2_lt h.pos.ne').mpr h.lt
  have hshift : shiftToTargetExponent .binary64 m e .exact = (extended m, e) := by
    have htarget : (Format.binary64.targetExponent (totalExponent m e) - e).toNat = 0 := by
      have hle := h.le
      simp only [Format.targetExponent, totalExponent, Format.mantissaBits, Format.minExponent]
      norm_num
      omega
    rw [shiftToTargetExponent, shiftToExponent, htarget, extended_natCast]
    simp [ExtendedMantissa.ofMantissaAndAccuracy, HShiftRight.hShiftRight, Nat.repeat]
  simp [settle, hshift, extended_natCast, h.pos.ne']

/-- The double nearest to a double is that one. -/
theorem Canonical.nearest_eq (h : Canonical m e) :
    nearest (m * 2 ^ e) = .finite .positive m e h.pos := by
  have hround : (extended ((m : ℚ) * 2 ^ e / 2 ^ e)).roundedMantissa = m := by
    rw [mul_div_cancel_right₀ _ (by positivity), extended_natCast]
    rfl
  rw [nearest, h.unit_eq, hround, h.settle_eq]

end Reckon.Nearest
