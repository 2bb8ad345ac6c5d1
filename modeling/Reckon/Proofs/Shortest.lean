import Reckon.Proofs.Bits

/-! The shortest decimal of a double reads back as that double. -/
namespace Reckon

open Float.Model Float.Model.UnpackedFloat Bits

variable {x : Float} {d : Decimal} {m : ℕ} {e : ℤ}

namespace Decimal

theorem abs_roundWithAccuracy (m : ℕ) (e : ℤ) (a : Accuracy) :
    (roundWithAccuracy .binary64 .positive m e a).abs =
      roundWithAccuracy .binary64 .positive m e a := by
  simp only [roundWithAccuracy]
  split <;> rfl

/-- A decimal bears no sign, and neither does the double that it reads as. -/
theorem unsigned_toFloat (d : Decimal) : Unsigned d.toFloat := by
  apply unsigned_pack
  rw [UnpackedFloat.ofScientific]
  split
  · rfl
  · split
    · rfl
    · split
      · rfl
      · split
        · exact abs_roundWithAccuracy _ _ _
        · exact abs_roundWithAccuracy _ _ _

theorem toFloat_eq_nearest (hc : 0 < d.coefficient) (hlow : -2048 ≤ d.exponent)
    (hhigh : d.exponent ≤ 2048) :
    d.toFloat = .ofModel (.pack (Nearest.nearest (d.coefficient * 10 ^ d.exponent))) := by
  have hlow' : -(2048 + d.coefficient.log2) ≤ d.exponent := by omega
  rw [toFloat, Float.Model.ofScientific, Nearest.ofScientific_eq_nearest hc hlow' hhigh]

end Decimal

theorem Ratio.ofFloat_eq {s h} (hx : x.toModel.unpack = .finite s m e h) :
    Ratio.ofFloat x = ⟨m * 2 ^ e.toNat, 2 ^ (-e).toNat⟩ := by
  let b : Word := x.toBits.toBitVec
  have hm : (unpackMantissa b).toNat = x.toBits.toNat % 2 ^ 52 := toNat_unpackMantissa b
  have he : (unpackExponent b).toNat = x.toBits.toNat / 2 ^ 52 % 2 ^ 11 := toNat_unpackExponent b
  have hb : UnpackedFloat.unpack .binary64 b = .finite s m e h := hx
  have hparts : e = ((unpackExponent b).toNat - 1 : ℕ) - 1074 ∧
      m = if (unpackExponent b).toNat = 0 then (unpackMantissa b).toNat
        else (unpackMantissa b).toNat + 2 ^ 52 := by
    simp only [UnpackedFloat.unpack] at hb
    split at hb
    · split at hb <;> cases hb
    · split at hb
      · split at hb
        · cases hb
        · rename_i he0 _
          have he0' : (unpackExponent b).toNat = 0 := congrArg BitVec.toNat he0
          obtain ⟨-, rfl, rfl⟩ := UnpackedFloat.finite.inj hb
          rw [if_pos he0', he0']
          exact ⟨rfl, rfl⟩
      · rename_i he0
        have he0' : (unpackExponent b).toNat ≠ 0 := fun h => he0 (BitVec.eq_of_toNat_eq h)
        obtain ⟨-, rfl, rfl⟩ := UnpackedFloat.finite.inj hb
        have hfull : (1#1 ++ unpackMantissa b).toNat = (unpackMantissa b).toNat + 2 ^ 52 :=
          (toNat_one_append _).trans (Nat.add_comm _ _)
        rw [if_neg he0']
        refine ⟨?_, hfull⟩
        simp only [Format.exponentBias]
        omega
  have hnum : (unpackExponent b).toNat - 1 - 1074 = e.toNat := by omega
  have hden : 1074 - ((unpackExponent b).toNat - 1) = (-e).toNat := by omega
  simp only [Ratio.ofFloat, Nat.pow_eq, ← hm, ← he]
  rw [hnum, hden, ← hparts.2]

namespace Shortest

variable {tie : HalfWay} {r : Ratio} {k : ℤ}

/-- What is found on a grid reads back as the number looked for. -/
theorem toFloat_of_onGrid (hx : Unsigned x) (h : onGrid? tie x r k = some d) : d.toFloat = x := by
  unfold onGrid? at h
  extract_lets num den below above rest preferAbove at h
  generalize (if preferAbove = true then (above, below) else (below, above)) = order at h
  obtain ⟨first, second⟩ := order
  dsimp only at h
  by_cases hfirst : (first.toFloat == x) = true
  · rw [if_pos hfirst] at h
    obtain rfl : first = d := Option.some.inj h
    exact first.unsigned_toFloat.eq_of_beq hx hfirst
  · rw [if_neg hfirst] at h
    by_cases hsecond : (second.toFloat == x) = true
    · rw [if_pos hsecond] at h
      obtain rfl : second = d := Option.some.inj h
      exact second.unsigned_toFloat.eq_of_beq hx hsecond
    · rw [if_neg hsecond] at h
      cases h

/-- The last resort is the number itself. -/
theorem toFloat_exact (hc : Nearest.Canonical m e)
    (hu : x.toModel.unpack = .finite .positive m e hc.pos) {n : ℕ} (hn : (-e).toNat ≤ n)
    (hn' : n ≤ 2048) :
    (⟨m * 2 ^ e.toNat * 10 ^ n / 2 ^ (-e).toNat, -n⟩ : Decimal).toFloat = x := by
  have hdvd : 2 ^ (-e).toNat ∣ m * 2 ^ e.toNat * 10 ^ n := by
    apply Nat.dvd_mul_left_of_dvd
    exact (Nat.pow_dvd_pow 2 hn).trans (pow_dvd_pow_of_dvd (by decide) n)
  have hpos : 0 < m * 2 ^ e.toNat * 10 ^ n / 2 ^ (-e).toNat := by
    have hm := hc.pos
    exact Nat.div_pos (Nat.le_of_dvd (by positivity) hdvd) (by positivity)
  have hsplit : (2 : ℚ) ^ e = 2 ^ e.toNat / 2 ^ (-e).toNat := by
    have he : e = e.toNat - (-e).toNat := by omega
    rw [← zpow_natCast, ← zpow_natCast, ← zpow_sub₀ two_ne_zero, ← he]
  have hvalue : ((m * 2 ^ e.toNat * 10 ^ n / 2 ^ (-e).toNat : ℕ) : ℚ) * 10 ^ (-(n : ℤ)) =
      m * 2 ^ e := by
    rw [Nat.cast_div hdvd (by positivity), hsplit, zpow_neg, zpow_natCast]
    push_cast
    field_simp
  have hlow : -2048 ≤ -(n : ℤ) := by omega
  have hhigh : -(n : ℤ) ≤ 2048 := by omega
  rw [Decimal.toFloat_eq_nearest hpos hlow hhigh, hvalue, hc.nearest_eq, ← hu, pack_unpack]

theorem toFloat_search (hx : Unsigned x) (hc : Nearest.Canonical m e)
    (hu : x.toModel.unpack = .finite .positive m e hc.pos) (steps : ℕ) (k : ℤ) :
    (search tie x (Ratio.ofFloat x) steps k).toFloat = x := by
  induction steps generalizing k with
  | zero =>
    rw [search, Ratio.ofFloat_eq hu]
    have hle := hc.le
    have hexponent : (-1074 : ℤ) = -(1074 : ℕ) := rfl
    rw [hexponent]
    generalize hn : 1074 = n
    exact toFloat_exact hc hu (by omega) (by omega)
  | succ steps ih =>
    rw [search]
    cases hg : onGrid? tie x (Ratio.ofFloat x) k with
    | none => exact ih (k - 1)
    | some d => exact toFloat_of_onGrid hx hg

end Shortest

theorem toFloat_shortest (hx : Unsigned x) (hc : Nearest.Canonical m e)
    (hu : x.toModel.unpack = .finite .positive m e hc.pos) (tie : HalfWay) :
    (shortest tie x).toFloat = x := by
  rw [shortest, hx.abs_eq]
  exact Shortest.toFloat_search hx hc hu _ _

end Reckon
