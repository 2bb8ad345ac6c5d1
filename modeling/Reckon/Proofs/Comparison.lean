import Reckon.Proofs.Bits

/-!
How doubles compare: as what their bits say they are. A sign can be changed without any other
change, and of two doubles that are numbers one is at most the other.
-/
namespace Reckon.Bits

open Float.Model Float.Model.UnpackedFloat

variable {x y ε : Float} {u v : UnpackedFloat} {b : Word} {s : Sign}

/-- What the bits of a double say that it is. -/
abbrev view (x : Float) : UnpackedFloat :=
  x.toModel.unpack

section Signs

/-- The same with another sign. -/
def withSign (s : Sign) : UnpackedFloat → UnpackedFloat
  | .notANumber => .notANumber
  | .infinity _ => .infinity s
  | .zero _ => .zero s
  | .finite _ m e h => .finite s m e h

theorem abs_eq_withSign (u : UnpackedFloat) : u.abs = withSign .positive u := by
  cases u <;> rfl

theorem exists_neg_eq_withSign (u : UnpackedFloat) : ∃ s, u.neg = withSign s u := by
  cases u with
  | notANumber => exact ⟨.positive, rfl⟩
  | infinity s => exact ⟨-s, rfl⟩
  | zero s => exact ⟨-s, rfl⟩
  | finite s m e h => exact ⟨-s, rfl⟩

/-- Bits whose exponent and mantissa are those of `b` differ from it in the sign only. -/
theorem unpack_packComponents (s : Sign) (b : Word) :
    UnpackedFloat.unpack .binary64
        (packComponents .binary64 s (unpackExponent b) (unpackMantissa b)) =
      withSign s (UnpackedFloat.unpack .binary64 b) := by
  simp only [UnpackedFloat.unpack, unpackExponent_packComponents, unpackMantissa_packComponents,
    unpackSign_packComponents, Sign.ofBitVec_toBitVec]
  split
  · split <;> rfl
  · split
    · split <;> rfl
    · rfl

theorem valid_packComponents (s : Sign) (b : Word)
    (h : UnpackedFloat.unpack .binary64 b ≠ .notANumber) :
    Format.binary64.Valid
      (packComponents .binary64 s (unpackExponent b) (unpackMantissa b)) := by
  refine ⟨fun he hm => absurd ?_ h⟩
  rw [unpackExponent_packComponents] at he
  rw [unpackMantissa_packComponents] at hm
  simp [UnpackedFloat.unpack, he, hm]

theorem unpack_pack_withSign (f : Float.Model) (s : Sign) :
    (Float.Model.pack (withSign s f.unpack)).unpack = withSign s f.unpack := by
  let b : Word := f.toBits.toBitVec
  change UnpackedFloat.unpack .binary64 (UnpackedFloat.pack .binary64
    (withSign s (UnpackedFloat.unpack .binary64 b))) = _
  by_cases h : UnpackedFloat.unpack .binary64 b = .notANumber
  · rw [h]
    exact unpack_packedNaN.trans (congrArg (withSign s) h.symm)
  · rw [← unpack_packComponents s b, pack_unpack_of_valid (valid_packComponents s b h),
      unpack_packComponents]
    rfl

theorem view_abs (x : Float) : view x.abs = (view x).abs := by
  change (Float.Model.pack (view x).abs).unpack = _
  rw [abs_eq_withSign, unpack_pack_withSign]

theorem view_neg (x : Float) : view (-x) = (view x).neg := by
  obtain ⟨s, hs⟩ := exists_neg_eq_withSign (view x)
  change (Float.Model.pack (view x).neg).unpack = _
  rw [hs, unpack_pack_withSign]

end Signs

section Order

theorem lt_iff : x < y ↔ (view x).compare (view y) = some .lt := by
  change decide ((view x).lt (view y) = true) = true ↔ _
  simp [UnpackedFloat.lt]

theorem le_iff :
    x ≤ y ↔ (view x).compare (view y) = some .lt ∨ (view x).compare (view y) = some .eq := by
  change decide ((view x).le (view y) = true) = true ↔ _
  rw [decide_eq_true_iff, UnpackedFloat.le]
  rcases (view x).compare (view y) with _ | _ | _ | _ <;> simp [Ordering.isLE]

theorem beq_iff : (x == y) = true ↔ (view x).compare (view y) = some .eq := by
  change ((view x).compare (view y) == some .eq) = true ↔ _
  exact beq_iff_eq

theorem isNaN_eq_false_iff : x.isNaN = false ↔ view x ≠ .notANumber := by
  change (view x).isNaN = false ↔ _
  rw [← Bool.not_eq_true, UnpackedFloat.isNaN_iff]

theorem compare_swap (u v : UnpackedFloat) :
    v.compare u = (u.compare v).map Ordering.swap := by
  rcases u with (_ | _) | _ | (_ | _) | ⟨_ | _, m, e, h⟩ <;>
    rcases v with (_ | _) | _ | (_ | _) | ⟨_ | _, m', e', h'⟩ <;> try rfl
  -- Numbers of one sign are left, which are compared by exponent and mantissa.
  all_goals
    simp only [UnpackedFloat.compare, Option.map_some, Ordering.swap_then, Int.compare_swap,
      Nat.compare_swap]

theorem compare_self (hu : u ≠ .notANumber) : u.compare u = some .eq := by
  rcases u with (_ | _) | _ | (_ | _) | ⟨_ | _, m, e, h⟩ <;> try rfl
  · exact absurd rfl hu
  all_goals simp [UnpackedFloat.compare]

/-- Only what is no number compares to nothing. -/
theorem compare_eq_none_iff : u.compare v = none ↔ u = .notANumber ∨ v = .notANumber := by
  unfold UnpackedFloat.compare
  split <;> simp_all

theorem isNaN_of_lt (h : x < y) : x.isNaN = false ∧ y.isNaN = false := by
  have hsome : ¬ (view x).compare (view y) = none := by simp [lt_iff.mp h]
  rw [compare_eq_none_iff, not_or] at hsome
  rwa [isNaN_eq_false_iff, isNaN_eq_false_iff]

theorem lt_or_beq_or_lt (hx : x.isNaN = false) (hy : y.isNaN = false) :
    x < y ∨ x == y ∨ y < x := by
  have hsome : ¬ (view x).compare (view y) = none := by
    rw [compare_eq_none_iff, not_or]
    exact ⟨isNaN_eq_false_iff.mp hx, isNaN_eq_false_iff.mp hy⟩
  rw [lt_iff, beq_iff, lt_iff, compare_swap (view x) (view y)]
  rcases hc : (view x).compare (view y) with _ | _ | _ | _
  · exact absurd hc hsome
  · exact .inl rfl
  · exact .inr (.inl rfl)
  · exact .inr (.inr rfl)

theorem le_of_not_lt (hx : x.isNaN = false) (hy : y.isNaN = false) (h : ¬ x < y) : y ≤ x := by
  rw [le_iff]
  obtain hlt | heq | hgt := lt_or_beq_or_lt hx hy
  · exact absurd hlt h
  · rw [compare_swap (view x) (view y), beq_iff.mp heq]
    exact .inr rfl
  · exact .inl (lt_iff.mp hgt)

theorem not_lt_of_le (h : y ≤ x) : ¬ x < y := by
  rw [le_iff, compare_swap (view x) (view y)] at h
  rw [lt_iff]
  intro hlt
  simp [hlt] at h

theorem not_lt_of_lt (h : x < y) : ¬ y < x := by
  rw [lt_iff, compare_swap (view x) (view y), lt_iff.mp h]
  simp

theorem not_lt_of_beq (h : x == y) : ¬ x < y := by
  rw [lt_iff, beq_iff.mp h]
  simp

theorem le_self (hx : x.isNaN = false) : x ≤ x :=
  le_iff.mpr (.inr (compare_self (isNaN_eq_false_iff.mp hx)))

theorem zero_lt_iff : 0 < x ↔
    view x = .infinity .positive ∨ ∃ m e h, view x = .finite .positive m e h := by
  have hzero : view 0 = .zero .positive := rfl
  rw [lt_iff, hzero]
  rcases view x with (_ | _) | _ | s | ⟨_ | _, m, e, h⟩ <;> simp [UnpackedFloat.compare, *]

theorem neg_lt_zero_iff : -x < 0 ↔ 0 < x := by
  have hzero : view 0 = .zero .positive := rfl
  rw [lt_iff, lt_iff, view_neg, hzero]
  rcases view x with (_ | _) | _ | s | ⟨_ | _, m, e, h⟩ <;> rfl

end Order

section Magnitudes

theorem abs_of_zero_lt (h : 0 < x) : x.abs = x := by
  refine eq_of_unpack_eq (?_ : view x.abs = view x)
  rw [view_abs]
  obtain hx | ⟨m, e, hm, hx⟩ := zero_lt_iff.mp h <;> rw [hx] <;> rfl

theorem exists_view_eq_zero (hx : x == 0) : ∃ s, view x = .zero s := by
  obtain ⟨-, -, rfl | ⟨rfl, -⟩ | ⟨rfl, -⟩⟩ := Float.beq_iff_ne_nan_and_eq.mp hx
  · exact ⟨.positive, rfl⟩
  · exact ⟨.positive, rfl⟩
  · exact ⟨.negative, rfl⟩

/-- Both zeros are below every positive number. -/
theorem abs_lt_of_beq_zero (hε : 0 < ε) (hx : x == 0) : x.abs < ε := by
  obtain ⟨s, hs⟩ := exists_view_eq_zero hx
  rw [lt_iff] at hε ⊢
  rw [view_abs, hs]
  exact hε

theorem abs_neg (x : Float) : (-x).abs = x.abs := by
  refine eq_of_unpack_eq (?_ : view (-x).abs = view x.abs)
  rw [view_abs, view_neg, view_abs]
  cases view x <;> rfl

theorem isNaN_abs (x : Float) : x.abs.isNaN = x.isNaN := by
  change (view x.abs).isNaN = (view x).isNaN
  rw [view_abs]
  cases view x <;> rfl

end Magnitudes

end Reckon.Bits
