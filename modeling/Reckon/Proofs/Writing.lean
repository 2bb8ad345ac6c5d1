import Reckon.Number.Style
import Reckon.Proofs.Reading
import Reckon.Proofs.Shortest

/-! How numbers without a sign are written, and that what is written without exponent reads back. -/
namespace Reckon

open Bits

variable {x : Float} {d : Decimal} {s : NumberStyle} {m : ℕ} {e : ℤ}

namespace Decimal

theorem isDigit_of_mem_digits {c : Char} (h : c ∈ d.digits) : c.isDigit :=
  isDigit_of_mem_toDigits h

theorem digits_ne_nil (d : Decimal) : d.digits ≠ [] :=
  Nat.toDigits_ne_nil

theorem digitsValue_digits (d : Decimal) : digitsValue d.digits = d.coefficient :=
  digitsValue_toDigits _

/-- Zeros at the end of the coefficient can be had from the exponent, so long as the number is not
beyond all doubles. -/
theorem toFloat_shift {k : ℕ} (hk : d.exponent = k) (h : d.toFloat.isInf = false) :
    (⟨d.coefficient * 10 ^ (k + 1), -1⟩ : Decimal).toFloat = d.toFloat := by
  obtain ⟨c, e⟩ := d
  obtain rfl : e = k := hk
  rcases Nat.eq_zero_or_pos c with rfl | hc
  · rw [zero_mul]
    rfl
  · have hhigh : (k : ℤ) ≤ 2048 := by
      by_contra hhigh
      have hbig : (k : ℤ) > 2 ^ Float.Model.Format.binary64.exponentBits := by
        norm_num
        omega
      rw [toFloat, Float.Model.ofScientific, Float.Model.UnpackedFloat.ofScientific,
        dif_neg hc.ne', if_pos hbig] at h
      cases h
    have hlow : -2048 ≤ (k : ℤ) := by omega
    have hvalue : ((c * 10 ^ (k + 1) : ℕ) : ℚ) * 10 ^ (-1 : ℤ) = c * 10 ^ (k : ℤ) := by
      push_cast
      rw [zpow_natCast, pow_succ, zpow_neg_one]
      field_simp
    have hpos : 0 < c * 10 ^ (k + 1) := by positivity
    have hshifted : (⟨c * 10 ^ (k + 1), -1⟩ : Decimal).toFloat = _ :=
      toFloat_eq_nearest hpos (show -2048 ≤ (-1 : ℤ) by decide) (show (-1 : ℤ) ≤ 2048 by decide)
    rw [hshifted, hvalue, toFloat_eq_nearest hc hlow hhigh]

end Decimal

namespace NumberStyle

/-- Without exponent, a number is written as digits around a point that stand for it. -/
theorem exists_positional (hs : s.wholeEnding = ['.', '0']) (h : d.toFloat.isInf = false) :
    ∃ ds fs : List Char, ds ≠ [] ∧ (∀ c ∈ ds, c.isDigit) ∧ (∀ c ∈ fs, c.isDigit) ∧
      s.positional d.digits d.exponent = ds ++ '.' :: fs ∧
      (⟨digitsValue (ds ++ fs), -fs.length⟩ : Decimal).toFloat = d.toFloat := by
  have hzeros : ∀ n, ∀ c ∈ List.replicate n '0', c.isDigit := by
    intro n c hc
    rw [List.eq_of_mem_replicate hc]
    rfl
  have hlength : 0 < d.digits.length := List.length_pos_iff.mpr d.digits_ne_nil
  by_cases hk : 0 ≤ d.exponent
  · obtain ⟨n, hn⟩ := Int.eq_ofNat_of_zero_le hk
    refine ⟨d.digits ++ List.replicate n '0', ['0'], ?_, ?_, hzeros 1, ?_, ?_⟩
    · simp [d.digits_ne_nil]
    · intro c hc
      rcases List.mem_append.mp hc with hc | hc
      · exact d.isDigit_of_mem_digits hc
      · exact hzeros n c hc
    · simp [positional, hn, hs]
    · have hvalue : digitsValue (d.digits ++ List.replicate n '0' ++ ['0']) =
          d.coefficient * 10 ^ (n + 1) := by
        rw [digitsValue_append, digitsValue_append, d.digitsValue_digits,
          digitsValue_replicate_zero, List.length_replicate]
        simp [digitsValue, pow_succ, mul_assoc]
      rw [hvalue]
      exact d.toFloat_shift hn h
  · by_cases hw : 0 < d.digits.length + d.exponent
    · obtain ⟨w, hw'⟩ := Int.eq_ofNat_of_zero_le hw.le
      rw [hw'] at hw
      refine ⟨d.digits.take w, d.digits.drop w, ?_, ?_, ?_, ?_, ?_⟩
      · rw [ne_eq, List.take_eq_nil_iff]
        rintro (h0 | hnil)
        · omega
        · exact d.digits_ne_nil hnil
      · intro c hc
        exact d.isDigit_of_mem_digits (List.mem_of_mem_take hc)
      · intro c hc
        exact d.isDigit_of_mem_digits (List.mem_of_mem_drop hc)
      · simp only [positional, if_neg hk, hw', if_pos hw, Int.toNat_natCast]
      · have hexponent : -((d.digits.drop w).length : ℤ) = d.exponent := by
          rw [List.length_drop]
          omega
        rw [List.take_append_drop, d.digitsValue_digits, hexponent]
    · obtain ⟨z, hz⟩ := Int.eq_ofNat_of_zero_le (show 0 ≤ -(d.digits.length + d.exponent) by omega)
      refine ⟨['0'], List.replicate z '0' ++ d.digits, by simp, hzeros 1, ?_, ?_, ?_⟩
      · intro c hc
        rcases List.mem_append.mp hc with hc | hc
        · exact hzeros z c hc
        · exact d.isDigit_of_mem_digits hc
      · simp [positional, hk, hw, hz]
      · have hvalue : digitsValue (['0'] ++ (List.replicate z '0' ++ d.digits)) =
            d.coefficient := by
          rw [digitsValue_append, digitsValue_append, d.digitsValue_digits,
            digitsValue_replicate_zero]
          simp [digitsValue]
        have hexponent : -((List.replicate z '0' ++ d.digits).length : ℤ) = d.exponent := by
          rw [List.length_append, List.length_replicate]
          omega
        rw [hvalue, hexponent]

theorem write_finite (hx : Unsigned x) {hm} (hu : x.toModel.unpack = .finite .positive m e hm) :
    s.write x = String.ofList
      (if s.isPositional x then s.positional (shortest s.tie x).digits (shortest s.tie x).exponent
      else s.scientific (shortest s.tie x).digits (shortest s.tie x).exponent) := by
  have hn := isNaN_of_finite hu
  have hi := isInf_of_finite hu
  have hz : (x == 0) = false := by
    change x.toModel.unpack.beq (0 : Float).toModel.unpack = false
    rw [hu]
    rfl
  have hsign : (x.toBits >>> 63 == 1) = false := by
    rw [beq_eq_false_iff_ne]
    intro h
    have hone : x.toBits.toNat / 2 ^ 63 = 1 := by
      simpa [Nat.shiftRight_eq_div_pow] using congrArg UInt64.toNat h
    rw [Nat.div_eq_of_lt hx] at hone
    cases hone
  simp only [write, magnitude, hn, hi, hz, hsign]
  simp

/-- A number that is written without exponent reads back. -/
theorem read?_write (hs : s.wholeEnding = ['.', '0']) (hx : Unsigned x)
    (hc : Nearest.Canonical m e) (hu : x.toModel.unpack = .finite .positive m e hc.pos)
    (hp : s.isPositional x) :
    Lexer.IsNumber (s.write x).toList ∧ Numeral.read? (s.write x) = some x := by
  have hshortest := toFloat_shortest hx hc hu s.tie
  have hi : (shortest s.tie x).toFloat.isInf = false := by
    rw [hshortest]
    exact isInf_of_finite hu
  obtain ⟨ds, fs, hne, hd, hf, htext, hvalue⟩ := exists_positional hs hi
  rw [write_finite hx hu, if_pos hp, htext]
  constructor
  · rw [String.toList_ofList]
    exact .point hd hf (.inl hne)
  · rw [Numeral.read?_point hd hf (.inl hne), hvalue, hshortest]

end NumberStyle

end Reckon
