import Reckon.Proofs.Numerals
import Reckon.Proofs.Reading
import Reckon.Proofs.Rounding

/-!
Which numbers in JSON are read. Three roundings stand between a number and the double that it is read
as, besides the digits that are left out, so the exact number decides unless it is next to the largest
double.
-/
namespace Reckon

theorem digitsValue_lt {ds : List Char} (h : ∀ c ∈ ds, c.isDigit) :
    digitsValue ds < 10 ^ ds.length := by
  induction ds using List.reverseRecOn with
  | nil => simp [digitsValue]
  | append_singleton ds c ih =>
    have hds := ih fun b hb => h b (List.mem_append_left _ hb)
    have hc := Json.digitsValue_le_of_isDigit (h c (by simp))
    rw [digitsValue_append, List.length_append, pow_add]
    simp only [List.length_singleton]
    omega

namespace Json

open Bits (Represents rounded)

variable {ds : List Char} {m k : ℕ} {e : ℤ}

section Significand

theorem absorb_lt (hm : m < UInt64.size) (k : ℕ) (cs : List Char) :
    (absorb m k cs).1 < UInt64.size := by
  induction cs generalizing m k with
  | nil => exact hm
  | cons c cs ih =>
    simp only [absorb]
    split
    · rename_i hfits
      simp only [Bool.and_eq_true, decide_eq_true_eq] at hfits
      exact ih hfits.2 (k + 1)
    · exact hm

/-- Digits that are left over would not have fitted. -/
theorem absorb_spec (h : ∀ c ∈ ds, c.isDigit) (m k : ℕ) :
    ∃ kept left, ds = kept ++ left ∧
      absorb m k ds = (m * 10 ^ kept.length + digitsValue kept, k + kept.length, left) ∧
      (left ≠ [] → UInt64.size ≤ 10 * (m * 10 ^ kept.length + digitsValue kept) + 9) := by
  induction ds generalizing m k with
  | nil => exact ⟨[], [], rfl, by simp [absorb, digitsValue], by simp⟩
  | cons c cs ih =>
    have hc := h c List.mem_cons_self
    have hle := digitsValue_le_of_isDigit hc
    by_cases hfits : digitsValue [c] + 10 * m < UInt64.size
    · obtain ⟨kept, left, rfl, habsorb, hleft⟩ :=
        ih (fun b hb => h b (List.mem_cons_of_mem c hb)) (digitsValue [c] + 10 * m) (k + 1)
      have hvalue : (digitsValue [c] + 10 * m) * 10 ^ kept.length + digitsValue kept =
          m * 10 ^ (c :: kept).length + digitsValue (c :: kept) := by
        have hsplit : digitsValue (c :: kept) =
            digitsValue [c] * 10 ^ kept.length + digitsValue kept := digitsValue_append [c] kept
        rw [hsplit, List.length_cons, pow_succ]
        ring
      rw [hvalue] at habsorb hleft
      refine ⟨c :: kept, left, rfl, ?_, hleft⟩
      have hcount : k + 1 + kept.length = k + (c :: kept).length := by
        rw [List.length_cons]
        omega
      simp only [absorb, hc, hfits, decide_true, Bool.and_true, if_true, habsorb, hcount]
    · have hempty : digitsValue [] = 0 := rfl
      refine ⟨[], c :: cs, rfl, by simp [absorb, hfits, hempty], fun _ => ?_⟩
      rw [List.length_nil, pow_zero, mul_one, hempty, add_zero]
      omega

/-- Digits at the end, as a part of the unit before them. -/
theorem digitsValue_append_mul (ds fs : List Char) (e : ℤ) :
    (digitsValue (ds ++ fs) : ℚ) * 10 ^ (e - fs.length) =
      (digitsValue ds + digitsValue fs / 10 ^ fs.length) * 10 ^ e := by
  rw [digitsValue_append, zpow_sub₀ (by norm_num), zpow_natCast]
  push_cast
  field_simp

/-- After the same digits, if they are many, other digits make little difference. -/
theorem digitsValue_append_mul_le {base fs : List Char} (hds : ∀ c ∈ ds, c.isDigit)
    (h : ds = fs ∨ 2 ^ 60 ≤ digitsValue base) (e : ℤ) :
    (digitsValue (base ++ ds) : ℚ) * 10 ^ (e - ds.length) ≤
      (1 + 1 / 2 ^ 60) * (digitsValue (base ++ fs) * 10 ^ (e - fs.length)) := by
  rw [digitsValue_append_mul, digitsValue_append_mul, ← mul_assoc]
  have hfs : (0 : ℚ) ≤ digitsValue fs / 10 ^ fs.length := by positivity
  gcongr
  rcases h with rfl | h
  · linarith [Nat.cast_nonneg (α := ℚ) (digitsValue base)]
  · have hds : (digitsValue ds : ℚ) / 10 ^ ds.length < 1 := by
      rw [div_lt_one (by positivity)]
      exact_mod_cast digitsValue_lt hds
    have hbase : (2 : ℚ) ^ 60 ≤ digitsValue base := by exact_mod_cast h
    linarith

namespace Numeral

variable (n : Numeral)

/-- The digits that are kept, as a number. -/
def significand : ℕ :=
  (absorb (absorb 0 0 n.whole.chars).1 0 n.decimals).1

/-- The power of ten that the significand is read with. -/
def scale : ℤ :=
  n.exponent + (absorb 0 0 n.whole.chars).2.2.length -
    (absorb (absorb 0 0 n.whole.chars).1 0 n.decimals).2.1

theorem significand_lt : n.significand < UInt64.size :=
  absorb_lt (absorb_lt (by decide) 0 n.whole.chars) 0 n.decimals

theorem abs_exact : |n.exact| =
    digitsValue (n.whole.chars ++ n.decimals) * 10 ^ (n.exponent - n.decimals.length) := by
  have hpos : (0 : ℚ) ≤
      digitsValue (n.whole.chars ++ n.decimals) * 10 ^ (n.exponent - n.decimals.length) := by
    positivity
  rw [exact, abs_mul, abs_of_nonneg hpos]
  cases n.negative <;> simp

theorem isDigit_of_mem_decimals : ∀ c ∈ n.decimals, c.isDigit := by
  rw [decimals]
  cases n.fraction with
  | none => simp
  | some d => exact d.isDigit

/-- What is read and what is meant begin with the same digits, which are many if what follows them
is not the same. -/
theorem exists_common : ∃ (base ds fs : List Char) (e : ℤ),
    (∀ c ∈ ds, c.isDigit) ∧ (∀ c ∈ fs, c.isDigit) ∧ (ds = fs ∨ 2 ^ 60 ≤ digitsValue base) ∧
    |n.exact| = digitsValue (base ++ ds) * 10 ^ (e - ds.length) ∧
    (n.significand : ℚ) * 10 ^ n.scale = digitsValue (base ++ fs) * 10 ^ (e - fs.length) := by
  obtain ⟨kept, left, hwhole, habsorb, hleft⟩ := absorb_spec n.whole.isDigit 0 0
  rw [zero_mul, zero_add] at habsorb hleft
  obtain ⟨kept', left', hdecimals, habsorb', hleft'⟩ :=
    absorb_spec n.isDigit_of_mem_decimals (digitsValue kept) 0
  rw [← digitsValue_append] at habsorb' hleft'
  have hdigit : ∀ c ∈ left, c.isDigit := fun c hc =>
    n.whole.isDigit c (hwhole ▸ List.mem_append_right kept hc)
  have hdigit' : ∀ c ∈ kept' ++ left', c.isDigit := hdecimals ▸ n.isDigit_of_mem_decimals
  have hmany : ∀ {k}, UInt64.size ≤ 10 * k + 9 → 2 ^ 60 ≤ k := by
    intro k hk
    simp only [UInt64.size] at hk
    omega
  rw [abs_exact, significand, scale, habsorb]
  dsimp only
  rw [habsorb', hwhole, hdecimals]
  by_cases hnil : left = []
  · subst hnil
    refine ⟨kept ++ kept', left', [], n.exponent - kept'.length,
      fun c hc => hdigit' c (List.mem_append_right kept' hc), by simp, ?_, ?_, by simp⟩
    · by_cases hnil' : left' = []
      · exact .inl hnil'
      · exact .inr (hmany (hleft' hnil'))
    · rw [List.append_nil, List.append_assoc]
      congr 2
      simp only [List.length_append]
      push_cast
      ring
  · -- decimals may still fit where a digit of the whole part did not
    refine ⟨kept, left ++ (kept' ++ left'), kept', n.exponent + left.length,
      List.forall_mem_append.mpr ⟨hdigit, hdigit'⟩,
      fun c hc => hdigit' c (List.mem_append_left left' hc), .inr (hmany (hleft hnil)), ?_, by simp⟩
    rw [List.append_assoc]
    congr 2
    simp only [List.length_append]
    push_cast
    ring

end Numeral

end Significand

section Scaling

theorem powerOfTen_eq_rounded (hk : k ≤ 308) : powerOfTen k = rounded (10 ^ k) := by
  have hscientific : powerOfTen k = .ofModel (.ofScientific 1 k) := by
    by_cases hsmall : k ≤ 22
    · have htable : ∀ k ≤ 22, powerOfTen k = .ofModel (.ofScientific 1 k) := by decide +kernel
      exact htable k hsmall
    · rw [powerOfTen, Float.ofScientific, dif_neg fun hfast => hsmall hfast.2]
      rfl
  rw [hscientific, Bits.ofModel_ofScientific one_pos (by omega), Nat.cast_one, one_mul]

theorem two_pow_split : (2 : ℚ) ^ 1024 = 2 ^ 51 * 2 ^ 973 := by
  rw [← pow_add]

theorem ten_pow_lt : (10 : ℚ) ^ 308 + 10 ^ 308 / 2 ^ 53 < 2 ^ 1024 := by
  have h : ((10 ^ 308 * (2 ^ 53 + 1) : ℕ) : ℚ) < (2 ^ 1024 * 2 ^ 53 : ℕ) :=
    Nat.cast_lt.mpr (by decide +kernel)
  rw [Nat.cast_mul, Nat.cast_mul, Nat.cast_pow, Nat.cast_pow, Nat.cast_ofNat, Nat.cast_ofNat] at h
  generalize (10 : ℚ) ^ 308 = t, (2 : ℚ) ^ 1024 = b at h
  push_cast at h
  linarith

theorem lt_ten_pow : (2 : ℚ) ^ 1024 < 10 ^ 309 := by
  have h : ((2 ^ 1024 : ℕ) : ℚ) < (10 ^ 309 : ℕ) := Nat.cast_lt.mpr (by decide +kernel)
  rwa [Nat.cast_pow, Nat.cast_pow, Nat.cast_ofNat, Nat.cast_ofNat] at h

theorem exists_powerOfTen (hk : k ≤ 308) :
    ∃ p, Represents (powerOfTen k) p ∧ |p - 10 ^ k| ≤ 10 ^ k / 2 ^ 53 := by
  have hone : (1 : ℚ) ≤ 10 ^ k := one_le_pow₀ (by norm_num)
  have hle : (10 : ℚ) ^ k ≤ 10 ^ 308 := pow_le_pow_right₀ (by norm_num) hk
  rw [powerOfTen_eq_rounded hk]
  apply Bits.exists_rounded (by linarith)
  calc (10 : ℚ) ^ k + 10 ^ k / 2 ^ 53 ≤ 10 ^ 308 + 10 ^ 308 / 2 ^ 53 := by gcongr
    _ < 2 ^ 1024 := ten_pow_lt

theorem exists_ofNat (hm : 0 < m) (h : m < UInt64.size) :
    ∃ a, Represents (Float.ofNat m) a ∧ |a - m| ≤ m / 2 ^ 53 := by
  have hone : (1 : ℚ) ≤ m := by exact_mod_cast hm
  rw [Bits.ofNat_eq_rounded hm]
  apply Bits.exists_rounded (by linarith)
  have hlt : (m : ℚ) < 2 ^ 64 := by exact_mod_cast h
  calc (m : ℚ) + m / 2 ^ 53 ≤ 2 ^ 65 := by linarith
    _ < 2 ^ 1024 := pow_lt_pow_right₀ one_lt_two (by decide)

/-- The product is rounded after its factors were. -/
theorem exists_product (hm : 0 < m) (h : m < UInt64.size) (hk : k ≤ 308) : ∃ w : ℚ, 1 / 2 ≤ w ∧
    Float.ofNat m * powerOfTen k = rounded w ∧ (1 - 1 / 2 ^ 53) ^ 2 * (m * 10 ^ k) ≤ w ∧
    w ≤ (1 + 1 / 2 ^ 53) ^ 2 * (m * 10 ^ k) := by
  obtain ⟨a, ha, hm'⟩ := exists_ofNat hm h
  obtain ⟨p, hp, hk'⟩ := exists_powerOfTen hk
  obtain ⟨halow, hahigh⟩ := abs_le.mp hm'
  obtain ⟨hplow, hphigh⟩ := abs_le.mp hk'
  have hone : (1 : ℚ) ≤ m := by exact_mod_cast hm
  have hone' : (1 : ℚ) ≤ 10 ^ k := one_le_pow₀ (by norm_num)
  generalize (10 : ℚ) ^ k = t at hplow hphigh hone'
  have hlow : (1 - 1 / 2 ^ 53) ^ 2 * (m * t) ≤ a * p := by
    calc (1 - 1 / 2 ^ 53) ^ 2 * ((m : ℚ) * t) = (m - m / 2 ^ 53) * (t - t / 2 ^ 53) := by ring
      _ ≤ a * p := by
          apply mul_le_mul <;> linarith
  refine ⟨a * p, ?_, ha.mul hp, hlow, ?_⟩
  · have hmt : 1 ≤ (m : ℚ) * t := one_le_mul_of_one_le_of_one_le hone hone'
    linarith
  · calc a * p ≤ (m + m / 2 ^ 53) * (t + t / 2 ^ 53) := by
          apply mul_le_mul <;> linarith
      _ = (1 + 1 / 2 ^ 53) ^ 2 * (m * t) := by ring

theorem ofNat_beq_zero (hm : 0 < m) (h : m < UInt64.size) : (Float.ofNat m == 0) = false := by
  obtain ⟨-, ⟨m', e, hc, -, hview, -⟩, -⟩ := exists_ofNat hm h
  rw [Bool.eq_false_iff, ne_eq, Bits.beq_iff, hview]
  nofun

theorem scale?_natCast (hk : k ≤ 308) (x : Float) :
    scale? x k = (some (x * powerOfTen k)).filter (!·.isInf) := by
  rw [scale?, if_neg (by omega), if_neg (by omega), if_pos (by omega), Int.natAbs_natCast]

theorem isSome_scale?_of_neg (h : e < 0) (x : Float) : (scale? x e).isSome := by
  fun_induction scale? x e with
  | case1 => rfl
  | case2 x e hlow hx ih => exact ih (by omega)
  | case3 => rfl
  | case4 | case5 | case6 => omega

theorem isSome_scale?_zero (e : ℤ) : (scale? (Float.ofNat 0) e).isSome := by
  rcases lt_or_ge e 0 with hneg | hpos
  · exact isSome_scale?_of_neg hneg _
  obtain ⟨k, rfl⟩ := Int.eq_ofNat_of_zero_le hpos
  by_cases hk : k ≤ 308
  · obtain ⟨p, ⟨m, e, hc, -, hview, -⟩, -⟩ := exists_powerOfTen hk
    rw [scale?_natCast hk]
    have hzero : Bits.view (Float.ofNat 0) = .zero .positive := rfl
    have hproduct : Float.ofNat 0 * powerOfTen k = .ofModel (.pack (.zero .positive)) := by
      change Float.ofModel (.pack (.mul .binary64 (Bits.view _) (Bits.view _))) = _
      rw [hzero, hview]
      rfl
    rw [hproduct]
    decide
  · rw [scale?, if_neg (by omega), if_neg (by omega), if_neg (by omega), if_pos (by decide +kernel)]
    rfl

theorem isInf_product_of_le (hm : 0 < m) (h : m < UInt64.size) (hk : k ≤ 308)
    (hlarge : 2 ^ 1024 ≤ (1 - 1 / 2 ^ 53) ^ 3 * (m * 10 ^ k : ℚ)) :
    (Float.ofNat m * powerOfTen k).isInf := by
  obtain ⟨w, hw, hproduct, hlow, -⟩ := exists_product hm h hk
  rw [hproduct]
  apply Bits.isInf_rounded hw
  calc (2 : ℚ) ^ 1024 ≤ (1 - 1 / 2 ^ 53) * ((1 - 1 / 2 ^ 53) ^ 2 * (m * 10 ^ k)) := by
        rw [← mul_assoc, ← pow_succ']
        exact hlarge
    _ ≤ (1 - 1 / 2 ^ 53) * w := by gcongr
    _ = w - w / 2 ^ 53 := by ring

theorem isInf_product_of_lt (hm : 0 < m) (h : m < UInt64.size) (hk : k ≤ 308)
    (hsmall : (1 + 1 / 2 ^ 53) ^ 3 * (m * 10 ^ k : ℚ) < 2 ^ 1024) :
    (Float.ofNat m * powerOfTen k).isInf = false := by
  obtain ⟨w, hw, hproduct, -, hhigh⟩ := exists_product hm h hk
  have hlt : w + w / 2 ^ 53 < 2 ^ 1024 := by
    calc w + w / 2 ^ 53 = (1 + 1 / 2 ^ 53) * w := by ring
      _ ≤ (1 + 1 / 2 ^ 53) * ((1 + 1 / 2 ^ 53) ^ 2 * ((m : ℚ) * 10 ^ k)) := by gcongr
      _ = (1 + 1 / 2 ^ 53) ^ 3 * ((m : ℚ) * 10 ^ k) := by rw [← mul_assoc, ← pow_succ']
      _ < 2 ^ 1024 := hsmall
  obtain ⟨_, hrounded, -⟩ := Bits.exists_rounded hw hlt
  rw [hproduct]
  exact hrounded.isInf

end Scaling

namespace Numeral

variable {n : Numeral}

theorem magnitude?_eq (n : Numeral) :
    n.magnitude? = scale? (Float.ofNat n.significand) n.scale :=
  rfl

theorem significand_le (n : Numeral) :
    (n.significand : ℚ) * 10 ^ n.scale ≤ (1 + 1 / 2 ^ 60) * |n.exact| := by
  obtain ⟨base, ds, fs, e, -, hfs, h, hexact, hread⟩ := n.exists_common
  rw [hexact, hread]
  exact digitsValue_append_mul_le hfs (h.imp_left Eq.symm) e

theorem le_significand (n : Numeral) :
    |n.exact| ≤ (1 + 1 / 2 ^ 60) * (n.significand * 10 ^ n.scale) := by
  obtain ⟨base, ds, fs, e, hds, -, h, hexact, hread⟩ := n.exists_common
  rw [hexact, hread]
  exact digitsValue_append_mul_le hds h e

/-- Only a power of ten makes a number large. -/
theorem scale_nonneg (h : 2 ^ 64 ≤ (n.significand : ℚ) * 10 ^ n.scale) : 0 ≤ n.scale := by
  by_contra hneg
  have hpower : (10 : ℚ) ^ n.scale ≤ 1 := zpow_le_one_of_nonpos₀ (by norm_num) (by omega)
  have hlt : (n.significand : ℚ) < 2 ^ 64 := by exact_mod_cast n.significand_lt
  have hle := mul_le_of_le_one_right (Nat.cast_nonneg (α := ℚ) n.significand) hpower
  exact absurd (h.trans hle) hlt.not_ge

theorem scale_le (hm : 0 < n.significand) (h : (n.significand : ℚ) * 10 ^ n.scale < 2 ^ 1024) :
    n.scale ≤ 308 := by
  have hone : (1 : ℚ) ≤ n.significand := by exact_mod_cast hm
  have hlt : (10 : ℚ) ^ n.scale < 10 ^ (309 : ℤ) := by
    calc (10 : ℚ) ^ n.scale ≤ n.significand * 10 ^ n.scale :=
          le_mul_of_one_le_left (by positivity) hone
      _ < 2 ^ 1024 := h
      _ < 10 ^ (309 : ℤ) := by exact_mod_cast lt_ten_pow
  exact Int.lt_add_one_iff.mp ((zpow_lt_zpow_iff_right₀ (by norm_num)).mp hlt)

/-- Up to the largest double but a few, a number is read. -/
theorem isSome_read? (h : |n.exact| ≤ 2 ^ 1024 - 2 ^ 973) : n.read?.isSome := by
  rw [read?, Option.isSome_map, magnitude?_eq]
  rcases Nat.eq_zero_or_pos n.significand with hzero | hm
  · rw [hzero]
    exact isSome_scale?_zero _
  rcases lt_or_ge n.scale 0 with hneg | hpos
  · exact isSome_scale?_of_neg hneg _
  have hle := n.significand_le
  have hsmall : (1 + 1 / 2 ^ 53) ^ 3 * (n.significand * 10 ^ n.scale : ℚ) < 2 ^ 1024 := by
    rw [two_pow_split] at h ⊢
    have hpos : (0 : ℚ) < 2 ^ 973 := by positivity
    generalize (2 : ℚ) ^ 973 = b at h hpos ⊢
    linarith
  have hlt : (n.significand : ℚ) * 10 ^ n.scale < 2 ^ 1024 :=
    (le_mul_of_one_le_left (by positivity) (by norm_num)).trans_lt hsmall
  have hscale := scale_le hm hlt
  obtain ⟨k, hk⟩ := Int.eq_ofNat_of_zero_le hpos
  rw [hk] at hsmall hscale ⊢
  have hk308 : k ≤ 308 := by omega
  rw [scale?_natCast hk308, Option.filter_some,
    isInf_product_of_lt hm n.significand_lt hk308 (by exact_mod_cast hsmall)]
  rfl

/-- A little past the largest double, a number is refused. -/
theorem read?_eq_none (h : 2 ^ 1024 + 2 ^ 973 ≤ |n.exact|) : n.read? = none := by
  rw [read?, Option.map_eq_none_iff, magnitude?_eq]
  have hle := n.le_significand
  have hlarge : 2 ^ 1024 ≤ (1 - 1 / 2 ^ 53) ^ 3 * (n.significand * 10 ^ n.scale : ℚ) := by
    rw [two_pow_split] at h ⊢
    have hpos : (0 : ℚ) < 2 ^ 973 := by positivity
    generalize (2 : ℚ) ^ 973 = b at h hpos ⊢
    linarith
  have hge : (2 : ℚ) ^ 1024 ≤ n.significand * 10 ^ n.scale :=
    hlarge.trans (mul_le_of_le_one_left (by positivity) (by norm_num))
  have hm : 0 < n.significand := by
    apply Nat.pos_of_ne_zero
    intro hzero
    rw [hzero, Nat.cast_zero, zero_mul] at hge
    exact absurd hge (by positivity : (0 : ℚ) < 2 ^ 1024).not_ge
  have hpos : 0 ≤ n.scale := scale_nonneg ((pow_le_pow_right₀ one_le_two (by decide)).trans hge)
  obtain ⟨k, hk⟩ := Int.eq_ofNat_of_zero_le hpos
  rw [hk] at hlarge ⊢
  by_cases hk308 : k ≤ 308
  · rw [scale?_natCast hk308, Option.filter_some,
      isInf_product_of_le hm n.significand_lt hk308 (by exact_mod_cast hlarge)]
    rfl
  · rw [scale?, if_neg (by omega), if_neg (by omega), if_neg (by omega),
      ofNat_beq_zero hm n.significand_lt]
    rfl

end Numeral

end Json

end Reckon
