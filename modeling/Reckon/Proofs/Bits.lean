import Reckon.Number.Shortest
import Reckon.Proofs.Nearest

/-! A double as the number of its bits, whose digits are the sign, the exponent and the mantissa. -/
namespace Reckon.Bits

open Float.Model Float.Model.UnpackedFloat

abbrev Word := BitVec Format.binary64.numBits

variable {x y : Float} {b : Word}

theorem toNat_append {m n : ℕ} (x : BitVec m) (y : BitVec n) :
    (x ++ y).toNat = x.toNat * 2 ^ n + y.toNat := by
  rw [BitVec.toNat_append, ← Nat.shiftLeft_add_eq_or_of_lt y.isLt, Nat.shiftLeft_eq]

theorem toNat_one_append {n : ℕ} (x : BitVec n) : (1#1 ++ x).toNat = 2 ^ n + x.toNat := by
  rw [toNat_append]
  simp

theorem toNat_packComponents (s : Sign) (e : BitVec 11) (m : BitVec 52) :
    (packComponents .binary64 s e m).toNat =
      s.toBitVec.toNat * 2 ^ 63 + e.toNat * 2 ^ 52 + m.toNat := by
  calc (packComponents .binary64 s e m).toNat
      = (s.toBitVec ++ e).toNat * 2 ^ 52 + m.toNat := toNat_append _ m
    _ = s.toBitVec.toNat * 2 ^ 63 + e.toNat * 2 ^ 52 + m.toNat := by rw [toNat_append]; ring

theorem toNat_unpackMantissa (b : Word) : (unpackMantissa b).toNat = b.toNat % 2 ^ 52 := by
  simp [unpackMantissa]

theorem toNat_unpackExponent (b : Word) :
    (unpackExponent b).toNat = b.toNat / 2 ^ 52 % 2 ^ 11 := by
  simp [unpackExponent, Nat.shiftRight_eq_div_pow]

theorem toNat_unpackSign (b : Word) : (unpackSign b).toNat = b.toNat / 2 ^ 63 := by
  have hb : b.toNat < 2 ^ 64 := b.isLt
  simp [unpackSign, Nat.shiftRight_eq_div_pow]
  omega

theorem pack_unpack (f : Float.Model) : Float.Model.pack f.unpack = f := by
  obtain ⟨b, hb⟩ := f
  simp only [Float.Model.pack, Float.Model.unpack, pack_unpack_of_valid hb]

theorem eq_of_unpack_eq (h : x.toModel.unpack = y.toModel.unpack) : x = y := by
  obtain ⟨f⟩ := x
  obtain ⟨f'⟩ := y
  rw [← pack_unpack f, ← pack_unpack f']
  exact congrArg (fun u => Float.ofModel (.pack u)) h

/-- What a double can be if its sign bit is not set. -/
inductive Magnitude : UnpackedFloat → Prop where
  | notANumber : Magnitude .notANumber
  | infinity : Magnitude (.infinity .positive)
  | zero : Magnitude (.zero .positive)
  | finite {m : ℕ} {e : ℤ} (h : Nearest.Canonical m e) : Magnitude (.finite .positive m e h.pos)

def Unsigned (x : Float) : Prop :=
  x.toBits.toNat < 2 ^ 63

theorem magnitude_unpack (hb : b.toNat < 2 ^ 63) :
    Magnitude (UnpackedFloat.unpack .binary64 b) := by
  have hs : unpackSign b = 0#1 := by
    apply BitVec.eq_of_toNat_eq
    rw [toNat_unpackSign, Nat.div_eq_of_lt hb]
    rfl
  unfold UnpackedFloat.unpack
  extract_lets m e exponent s sign
  have hsign : sign = .positive := by
    simp [sign, s, hs, Sign.ofBitVec]
  have hm : m.toNat < 2 ^ 52 := m.isLt
  rw [hsign]
  split
  · split
    · exact .infinity
    · exact .notANumber
  · split
    · split
      · exact .zero
      · rename_i he hm0
        have hleast : exponent + 1 = -1074 := by
          simp [exponent, he, Format.exponentBias]
        have hpos : m.toNat ≠ 0 := fun h => hm0 (BitVec.eq_of_toNat_eq h)
        exact .finite ⟨by omega, by omega, by omega, .inr hleast⟩
    · rename_i he
      have hfull : (1#1 ++ m).toNat = 2 ^ 52 + m.toNat := toNat_one_append m
      have hpos : e.toNat ≠ 0 := fun h => he (BitVec.eq_of_toNat_eq h)
      have hleast : -1074 ≤ exponent := by
        simp only [exponent, Format.exponentBias]
        omega
      exact .finite ⟨by omega, by omega, hleast, .inl (by omega)⟩

theorem Unsigned.magnitude (h : Unsigned x) : Magnitude x.toModel.unpack :=
  magnitude_unpack h

theorem isNaN_of_finite {s m e h} (hx : x.toModel.unpack = .finite s m e h) :
    x.isNaN = false := by
  rw [Float.isNaN, Float.Model.isNaN, hx]
  rfl

theorem isInf_of_finite {s m e h} (hx : x.toModel.unpack = .finite s m e h) :
    x.isInf = false := by
  rw [Float.isInf, Float.Model.isInf, hx]
  rfl

theorem Unsigned.cases (h : Unsigned x) : x = 0 / 0 ∨ x = 1 / 0 ∨ x = 0 ∨
    ∃ (m : ℕ) (e : ℤ) (hc : Nearest.Canonical m e),
      x.toModel.unpack = .finite .positive m e hc.pos := by
  have hu := h.magnitude
  generalize hx : x.toModel.unpack = u at hu
  cases hu with
  | notANumber => exact .inl (eq_of_unpack_eq hx)
  | infinity => exact .inr (.inl (eq_of_unpack_eq hx))
  | zero => exact .inr (.inr (.inl (eq_of_unpack_eq hx)))
  | finite hc => exact .inr (.inr (.inr ⟨_, _, hc, rfl⟩))

theorem Unsigned.abs_eq (h : Unsigned x) : x.abs = x := by
  have habs : x.toModel.unpack.abs = x.toModel.unpack := by
    have hu := h.magnitude
    generalize x.toModel.unpack = u at hu
    cases hu <;> rfl
  rw [Float.abs, Float.Model.abs, habs, pack_unpack]

theorem toNat_packComponents_lt (e : BitVec 11) (m : BitVec 52) :
    (packComponents .binary64 .positive e m).toNat < 2 ^ 63 := by
  have he : e.toNat < 2 ^ 11 := e.isLt
  have hm : m.toNat < 2 ^ 52 := m.isLt
  rw [toNat_packComponents, Sign.toBitVec, BitVec.toNat_zero]
  omega

/-- Packing puts no sign on a number that has none. -/
theorem unsigned_pack {u : UnpackedFloat} (hu : u.abs = u) : Unsigned (.ofModel (.pack u)) := by
  change (UnpackedFloat.pack .binary64 u).toNat < 2 ^ 63
  cases u with
  | notANumber => exact toNat_packComponents_lt _ _
  | infinity s =>
    obtain rfl : Sign.positive = s := UnpackedFloat.infinity.inj hu
    exact toNat_packComponents_lt _ _
  | zero s =>
    obtain rfl : Sign.positive = s := UnpackedFloat.zero.inj hu
    exact toNat_packComponents_lt _ _
  | finite s m e hm =>
    obtain ⟨rfl, -⟩ := UnpackedFloat.finite.inj hu
    simp only [UnpackedFloat.pack]
    split
    · exact toNat_packComponents_lt _ _
    · split
      · exact toNat_packComponents_lt _ _
      · exact toNat_packComponents_lt _ _

/-- Without signs, numbers that are equal are the same. -/
theorem Unsigned.eq_of_beq (hx : Unsigned x) (hy : Unsigned y) (h : x == y) : x = y := by
  have hnegative : ¬ Unsigned (-0) := by
    rw [Unsigned]
    decide
  obtain ⟨-, -, rfl | ⟨-, rfl⟩ | ⟨rfl, -⟩⟩ := Float.beq_iff_ne_nan_and_eq.mp h
  · rfl
  · exact absurd hy hnegative
  · exact absurd hx hnegative

end Reckon.Bits
